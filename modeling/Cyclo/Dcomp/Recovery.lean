import Cyclo.Dcomp.Contracts

/-! Calls of the materializer that are interrupted at any operation, and the call after them. -/
namespace Cyclo.Dcomp
open Python Process
open Materializer (componentContent)

variable {α β : Type} {faulty : Prop} {s t : Root}

namespace Materializer

/-- The root holds exactly the composition's descriptors, and its file. -/
structure Exactly (m : Materializer) (host : HostPaths) (system : System) (root : Root) : Prop where
  selected : ∃ content, m.renderSystem host system (m.references system) = .ok content ∧
    root.selected = some content
  descriptors : ∀ name entry, root.entry name = some entry ↔ ∃ component ∈ system.components,
    name = m.descriptor component ∧ entry = published (componentContent component)

end Materializer

open Materializer (Representable Exactly)

section
variable {m : Materializer} {host : HostPaths} {system : System}

theorem encodable_references (h : ∀ component ∈ system.components, component.validate host = .ok ()) :
    ∀ entry ∈ m.references system, m.surrogates.Encodable entry.2 := by
  intro entry hentry
  obtain ⟨component, hmem, rfl⟩ := List.mem_map.mp hentry
  have hname := (Component.of_validate (h component ((sortedBy_perm _ _).mem_iff.mp hmem))).1
  have hdigest : m.surrogates.Encodable
      (String.ofList ((m.sha256 (componentContent component)).toList.take 16)) := by
    refine Surrogates.encodable_of_ascii (List.all_eq_true.mpr ?_)
    rw [String.toList_ofList]
    intro c hc
    exact List.all_eq_true.mp (m.ascii_sha256 _) c (List.mem_of_mem_take hc)
  simp only [Materializer.descriptor, Materializer.descriptorName, Surrogates.encodable_append]
  exact ⟨⟨encodable_of_matchesName hname, Surrogates.encodable_of_ascii (by decide)⟩, hdigest⟩

/-- What keeps a call from succeeding: a descriptor that is in the way, or a text that cannot be
written. -/
def Obstructed (m : Materializer) (host : HostPaths) (system : System) (root : Root) : Prop :=
  (∃ component ∈ system.components, ¬ m.Usable root component) ∨ ¬ m.Representable host system

theorem materialize_holds (hs : m.Intact s) (hvalid : system.validate host = .ok ()) :
    Holds faulty (faulty ∨ Obstructed m host system s) m.Intact (m.materialize host system)
      (fun _ t => ¬ Obstructed m host system s ∧ m.Exactly host system t) s := by
  have hF : faulty → faulty ∨ Obstructed m host system s := .inl
  have hsorted := sortedBy_perm Component.name system.components
  obtain ⟨hcomponents, hnodup⟩ := System.of_validate hvalid
  have haccepted : Holds faulty (faulty ∨ Obstructed m host system s) m.Intact
      (Materializer.reject (system.validate host)) (fun _ t => s = t) s := by
    rw [hvalid]
    exact Holds.pure hs rfl
  refine Holds.bind haccepted fun _ s' _ he => ?_
  subst he
  refine Holds.bind (prepareRoot_holds hF hs) fun _ t ht hP => ?_
  obtain ⟨hsame, hready⟩ := hP
  have husable : ∀ component, m.Usable t component ↔ m.Usable s component := by
    intro component
    unfold Materializer.Usable
    rw [hsame.entries]
  have hwrite := @writeDescriptors_holds faulty _ t m hF host
    (sortedBy Component.name system.components) ht hready
    ((hsorted.map _).nodup_iff.mpr hnodup) (fun component hmem => ?_) (fun h => ?_) fun h => ?_
  rotate_left
  · exact hcomponents component (hsorted.mem_iff.mp hmem)
  · obtain ⟨component, hmem, hunusable⟩ := h
    rw [husable] at hunusable
    exact .inr (.inl ⟨component, hsorted.mem_iff.mp hmem, hunusable⟩)
  · obtain ⟨component, hmem, hunwritable⟩ := h
    exact .inr (.inr fun hrep =>
      hunwritable (hrep component (hsorted.mem_iff.mp hmem)).image)
  refine Holds.bind hwrite fun references u hu hP => ?_
  obtain ⟨rfl, hall, himages, hplaced, hframe, hselected, hready'⟩ := hP
  have hreturns := @renderSystem_returns m host system hvalid (m.references system)
    (encodable_references hcomponents) fun component hmem =>
      himages component (hsorted.mem_iff.mpr hmem)
  have hplaced' : m.Placed system.components u := fun component hmem =>
    hplaced component (hsorted.mem_iff.mpr hmem)
  have hrender : Holds faulty (faulty ∨ Obstructed m host system s) m.Intact
      (.ofExcept (m.renderSystem host system (m.references system)))
      (fun content v => m.renderSystem host system (m.references system) = .ok content ∧ u = v)
      u := by
    refine Holds.ofExcept hu (fun content h => ⟨h, rfl⟩) fun e he => .inr (.inr fun hrep => ?_)
    obtain ⟨content, hcontent⟩ := hreturns.mpr hrep
    rw [he] at hcontent
    cases hcontent
  refine Holds.bind hrender fun content u' _ hP => ?_
  obtain ⟨hcontent, rfl⟩ := hP
  refine Holds.bind (replaceFile_holds hF hu hready'
    ⟨host, system, hvalid, hcontent, hplaced'⟩) fun _ v hv hP => ?_
  obtain ⟨hentries, hselected', hready''⟩ := hP
  have hsweeping : Sweeping m host system content v := by
    refine ⟨hvalid, hcontent, hselected', fun component hmem => ?_, hv.generated, hready''⟩
    rw [hentries]
    exact hplaced' component hmem
  have hkeep : ∀ name, name ∈ (m.references system).map Prod.snd ↔
      ∃ component ∈ system.components, m.descriptor component = name := by
    intro name
    unfold Materializer.references
    simp only [List.map_map, List.mem_map, hsorted.mem_iff, Function.comp]
  refine Holds.bind (removeUnusedDescriptors_holds hF hsweeping fun component hmem =>
    (hkeep _).mpr ⟨component, hmem, rfl⟩) fun _ w hw hP => ?_
  obtain ⟨hswept, hfinal⟩ := hP
  refine Holds.pure hw ⟨?_, ⟨content, hcontent, hswept.selected⟩, fun name entry => ?_⟩
  · intro h
    rcases h with h | h
    · obtain ⟨component, hmem, hunusable⟩ := h
      rw [← husable] at hunusable
      exact hunusable (hall component (hsorted.mem_iff.mpr hmem))
    · exact h (hreturns.mp ⟨content, hcontent⟩)
  · rw [hfinal name]
    constructor
    · intro h
      split_ifs at h with hmem
      obtain ⟨component, hcomponent, rfl⟩ := (hkeep name).mp hmem
      have hdescriptor := hsweeping.placed component hcomponent
      rw [h] at hdescriptor
      cases hdescriptor
      exact ⟨component, hcomponent, rfl, rfl⟩
    · intro h
      obtain ⟨component, hcomponent, rfl, rfl⟩ := h
      exact (if_pos ((hkeep _).mpr ⟨component, hcomponent, rfl⟩)).trans
        (hsweeping.placed component hcomponent)

end

/-- The roots that calls with valid compositions leave, each killed at any operation or ended by
itself; an operation may also fail, and the cleanup then runs. -/
inductive Reached (m : Materializer) : Root → Prop
  | absent : Reached m {}
  | call {host : HostPaths} {system : System} {s t : Root}
      {rest : Prog FileOp (Except Failure Materializer.MaterializedSystem)} :
      Reached m s → system.validate host = .ok () →
      Reaches (fileKernel True) 0 (m.materialize host system).run s rest t → Reached m t

/-- Every call that is not interrupted succeeds, and leaves exactly its composition. -/
def Completes (m : Materializer) (host : HostPaths) (system : System) (root : Root) : Prop :=
  (∃ out t, Runs (fileKernel False) 0 (m.materialize host system).run root out t) ∧
    ∀ out t, Runs (fileKernel False) 0 (m.materialize host system).run root out t →
      (∃ result, out = some (.ok result)) ∧ m.Exactly host system t

theorem Reached.intact {m : Materializer} (h : Reached m s) : m.Intact s := by
  induction h with
  | absent => exact ⟨nofun, nofun⟩
  | call _ hvalid hreach ih => exact Holds.reaches (materialize_holds ih hvalid) hreach

theorem completes_iff {m : Materializer} {host : HostPaths} {system : System} (hs : m.Intact s)
    (hvalid : system.validate host = .ok ()) :
    Completes m host system s ↔ ¬ Obstructed m host system s := by
  have hcall : Holds False _ _ (m.materialize host system) _ s := materialize_holds hs hvalid
  constructor
  · intro h
    obtain ⟨⟨out, t, hrun⟩, hends⟩ := h
    obtain ⟨⟨result, rfl⟩, -⟩ := hends out t hrun
    exact (Along.returned hcall hrun).1
  · intro h
    refine ⟨Along.ends trivial hcall, fun out t hrun => ?_⟩
    cases out with
    | none => exact (Along.exited hcall hrun).elim
    | some r =>
      have hr := Along.returned hcall hrun
      cases r with
      | ok result => exact ⟨⟨result, rfl⟩, hr.2⟩
      | error e => exact (hr.elim (fun hf => hf) h).elim

/-- Calls of the materializer that are interrupted at any operation. The selected file always
refers to descriptors that are in place with exactly their content; and a later call succeeds with
exactly its composition if and only if each of its descriptors is absent or in place, and its texts
can be written. -/
theorem materializer_recovery {m : Materializer} (h : Reached m s) :
    (∀ content, s.selected = some content → m.Refers s content) ∧
      ∀ host system, system.validate host = .ok () →
        (Completes m host system s ↔
          (∀ component ∈ system.components, m.Usable s component) ∧
            m.Representable host system) := by
  have hs := h.intact
  refine ⟨hs.refers, fun host system hvalid => ?_⟩
  rw [completes_iff hs hvalid, Obstructed, not_or, not_not]
  simp only [not_exists, not_and, not_not]

/-- The answers of the file system in a run without faults. -/
def evalOp : Interp FileOp Root
  | _, .get read, root => some (.ok (read root), root)
  | _, .change change, root =>
    match change.apply root with
    | some next => some (.ok (), next)
    | none => some (.error (.os "refused"), root)
  | _, .list, root =>
    match root.descriptors with
    | some entries => some (.ok entries.keys, root)
    | none => some (.error (.os "absent"), root)
  | _, .suffix, root => some ("1.000000000000", root)

theorem evalOp_sound {β : Type} (e : FileOp β) (s : Root) (r : β) (t : Root)
    (h : evalOp e s = some (r, t)) : (fileKernel True).exec 0 e s r t := by
  cases e with
  | get read =>
    cases h
    exact ⟨rfl, rfl⟩
  | change change =>
    change (match change.apply s with
      | some next => some (Except.ok (), next)
      | none => some (Except.error (Failure.os "refused"), s)) = some (r, t) at h
    split at h
    · rename_i next happly
      cases h
      exact happly
    · rename_i happly
      cases h
      exact ⟨.inl happly, rfl, _, rfl⟩
  | list =>
    change (match s.descriptors with
      | some entries => some (Except.ok entries.keys, s)
      | none => some (Except.error (Failure.os "absent"), s)) = some (r, t) at h
    split at h
    · rename_i entries hentries
      cases h
      refine ⟨by rw [hentries]; rfl, ⟨entries.keys_nodup, fun name => ?_⟩, rfl⟩
      rw [Root.entry, hentries, Option.bind_some, AList.lookup_isSome, AList.mem_keys]
    · rename_i hnone
      cases h
      exact ⟨.inl hnone, rfl, _, rfl⟩
  | suffix =>
    cases h
    exact ⟨.inl trivial, rfl⟩

def demoHost : HostPaths := ⟨id, some⟩

def firstSystem : System := ⟨"demo", [{ name := "first", image := "first:1" }], []⟩

def secondSystem : System := ⟨"demo", [{ name := "second", image := "second:1" }], []⟩

/-- The digests of the two descriptors and of the two compositions, told apart by their lengths. -/
def demoDigest (content : Bytes) : String :=
  match content.length with
  | 15 => "a4bec2f994f3b6d1a0ed544516543e90ec1ac158948aa2d46e3a6f2f41742586"
  | 16 => "b3e496b902f941201bac8be740154a62be77761321e855434bae82e3a19d3598"
  | 166 => "c5bf90f8414a471fc73b20e52ddeb54ca7c8e9d0c3e03fba752a1441c14aa344"
  | 168 => "064ac88f4b7cb2b9e2aa0673136147f9f03f04643c1e5576beb6d70a12828041"
  | _ => "0000000000000000000000000000000000000000000000000000000000000000"

def demoMaterializer : Materializer where
  root := ⟨"/", ["generated"]⟩
  sha256 := demoDigest
  length_sha256 content := by
    unfold demoDigest
    split <;> decide +kernel
  ascii_sha256 content := by
    unfold demoDigest
    split <;> decide +kernel
  surrogates := .none

/-- A call that is killed once the first descriptor is in place, and then one of the second
composition up to the removal of that descriptor's file: its directory is still there. -/
def sweptHalf : Option (Prog FileOp (Except Failure Materializer.MaterializedSystem) × Root) :=
  (Interp.advance evalOp 27 (demoMaterializer.materialize demoHost firstSystem).run {}).bind
    fun x => Interp.advance evalOp 203 (demoMaterializer.materialize demoHost secondSystem).run x.2

theorem sweptHalf_entries :
    sweptHalf.map (fun x => (x.2.entry "first-a4bec2f994f3b6d1",
      x.2.entry "second-b3e496b902f94120")) =
        some (some (.directory []), some (published (encode "docker second:1\n"))) := by
  decide +kernel

theorem exists_sweptHalf : ∃ s, Reached demoMaterializer s ∧
    s.entry "first-a4bec2f994f3b6d1" = some (.directory []) ∧
    s.entry "second-b3e496b902f94120" = some (published (encode "docker second:1\n")) := by
  obtain ⟨⟨rest, t⟩, hswept, hentries⟩ := Option.map_eq_some_iff.mp sweptHalf_entries
  obtain ⟨⟨rest', s⟩, hfirst, hsecond⟩ := Option.bind_eq_some_iff.mp hswept
  have hs : Reached demoMaterializer s :=
    .call .absent (by decide +kernel : firstSystem.validate demoHost = .ok ())
      (Interp.advance_sound evalOp_sound hfirst)
  have ht : Reached demoMaterializer t :=
    .call hs (by decide +kernel : secondSystem.validate demoHost = .ok ())
      (Interp.advance_sound evalOp_sound hsecond)
  exact ⟨t, ht, congrArg Prod.fst hentries, congrArg Prod.snd hentries⟩

theorem interrupted_sweep_obstructs : ∃ s, Reached demoMaterializer s ∧
    firstSystem.validate demoHost = .ok () ∧ ¬ Completes demoMaterializer demoHost firstSystem s := by
  obtain ⟨s, hs, hentry, -⟩ := exists_sweptHalf
  have hvalid : firstSystem.validate demoHost = .ok () := by decide +kernel
  refine ⟨s, hs, hvalid, ?_⟩
  rw [completes_iff hs.intact hvalid, not_not]
  refine .inl ⟨{ name := "first", image := "first:1" }, List.mem_cons_self, ?_⟩
  have hname : demoMaterializer.descriptor { name := "first", image := "first:1" } =
      "first-a4bec2f994f3b6d1" := by decide +kernel
  rw [Materializer.Usable, hname, hentry]
  decide +kernel

theorem materializer_recovery_swept : ∃ s, Reached demoMaterializer s ∧
    Completes demoMaterializer demoHost secondSystem s := by
  obtain ⟨s, hs, -, hentry⟩ := exists_sweptHalf
  refine ⟨s, hs, ((materializer_recovery hs).2 demoHost secondSystem (by decide +kernel)).mpr ?_⟩
  constructor
  · intro component hcomponent
    rw [List.mem_singleton.mp hcomponent]
    right
    have hname : demoMaterializer.descriptor { name := "second", image := "second:1" } =
        "second-b3e496b902f94120" := by decide +kernel
    rw [hname, hentry]
    decide +kernel
  · intro component hcomponent
    rw [List.mem_singleton.mp hcomponent]
    exact ⟨by decide, List.forall_mem_nil _, List.forall_mem_nil _, List.forall_mem_nil _,
      List.forall_mem_nil _, List.forall_mem_nil _⟩

end Cyclo.Dcomp
