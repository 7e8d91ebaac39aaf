import Cyclo.Dcomp.Publication
import Cyclo.Dcomp.Rendering

/-! What each part of a call of the materializer leaves, and what holds along its operations. -/
namespace Cyclo.Dcomp
open Python Process
open Materializer (componentContent)

variable {α β : Type} {faulty F : Prop} {R : Root → Prop} {s t : Root}

/-- `R` holds at every step of the call, `P` where it returns, and `F` if it fails. -/
abbrev Holds (faulty F : Prop) (R : Root → Prop) (call : Call α) (P : α → Root → Prop)
    (s : Root) : Prop :=
  Process.Holds (fileKernel faulty) 0 R (fun _ => F) call P s

namespace Holds

theorem fail {message : String} {P : α → Root → Prop} (hR : R s) (hF : F) :
    Holds faulty F R (Dcomp.fail message : Call α) P s := Process.Holds.raise hR hF

theorem wrapping {label : String} {call : Call α} {P : α → Root → Prop}
    (h : Holds faulty F R call P s) : Holds faulty F R (Dcomp.wrapping label call) P s :=
  Process.Holds.mapError h

theorem get {read : Root → β} {f : β → Call α} {P : α → Root → Prop} (hR : R s)
    (hF : faulty → F) (h : Holds faulty F R (f (read s)) P s) :
    Holds faulty F R (Dcomp.get read >>= f) P s := by
  refine Along.raising (Along.perform hR (fun _ => ⟨.ok (read s), s, rfl, rfl⟩) fun r t hexec => ?_)
  cases r with
  | ok value =>
    obtain ⟨rfl, rfl⟩ := hexec
    exact ⟨hR, h⟩
  | error failure =>
    obtain ⟨hf, rfl, -⟩ := hexec
    exact ⟨hR, hF hf⟩

/-- A change that may be refused. -/
theorem change {change : Change} {P : Unit → Root → Prop} (hR : R s)
    (hF : change.apply s = none ∨ faulty → F)
    (h : ∀ t, change.apply s = some t → R t ∧ P () t) :
    Holds faulty F R (Dcomp.change change) P s := by
  refine Along.perform hR (fun _ => ?_) fun r t hexec => ?_
  · cases happly : change.apply s with
    | none => exact ⟨.error (.os ""), s, .inl happly, rfl, "", rfl⟩
    | some t => exact ⟨.ok (), t, happly⟩
  · cases r with
    | ok _ => exact h t hexec
    | error failure =>
      obtain ⟨hf, rfl, -⟩ := hexec
      exact ⟨hR, hF hf⟩

/-- A change that is not refused. -/
theorem changeTo {change : Change} {P : Unit → Root → Prop} (hR : R s) (hF : faulty → F)
    (ht : change.apply s = some t) (hRt : R t) (h : P () t) :
    Holds faulty F R (Dcomp.change change) P s := by
  refine Holds.change hR (fun hf => hF ?_) fun u hu => ?_
  · rw [ht] at hf
    exact hf.resolve_left nofun
  · rw [ht] at hu
    cases hu
    exact ⟨hRt, h⟩

theorem changed {change : Change} (hR : R s) (hF : faulty → F) (ht : change.apply s = some t)
    (hRt : R t) : Holds faulty F R (Dcomp.change change) (fun _ u => t = u) s :=
  .changeTo hR hF ht hRt rfl

theorem sync {P : Unit → Root → Prop} (hR : R s) (hF : faulty → F) (h : P () s) :
    Holds faulty F R (Dcomp.change .sync) P s := .changeTo hR hF rfl hR h

theorem list {f : List String → Call α} {P : α → Root → Prop} (hR : R s) (hF : faulty → F)
    (hs : s.Ready) (h : ∀ names, s.Lists names → Holds faulty F R (f names) P s) :
    Holds faulty F R (listDescriptors >>= f) P s := by
  obtain ⟨names, hnames⟩ := exists_lists hs
  refine Along.raising (Along.perform hR (fun _ => ⟨.ok names, s, hs.descriptors, hnames, rfl⟩)
    fun r t hexec => ?_)
  cases r with
  | ok names =>
    obtain ⟨-, hlists, rfl⟩ := hexec
    exact ⟨hR, h names hlists⟩
  | error failure =>
    obtain ⟨hf, rfl, -⟩ := hexec
    refine ⟨hR, hF (hf.resolve_left fun hnone => ?_)⟩
    have hsome := hs.descriptors
    rw [hnone] at hsome
    cases hsome

theorem suffix {f : String → Call α} {P : α → Root → Prop} (hR : R s)
    (h : ∀ text, faulty ∨ s.Fresh text → Holds faulty F R (f text) P s) :
    Holds faulty F R (Dcomp.suffix >>= f) P s := by
  obtain ⟨text, htext⟩ := exists_fresh s
  refine Along.raising (Along.ask hR (fun _ => ⟨text, s, .inr htext, rfl⟩) fun r t hexec => ?_)
  obtain ⟨hfresh, rfl⟩ := hexec
  exact ⟨hR, h r hfresh⟩

end Holds

namespace Materializer

/-- The name of the directory that a component's descriptor belongs in. -/
def descriptor (m : Materializer) (component : Component) : String :=
  m.descriptorName component (componentContent component)

/-- The descriptors of these components are in place, each with exactly its content. -/
def Placed (m : Materializer) (components : List Component) (root : Root) : Prop :=
  ∀ component ∈ components,
    root.entry (m.descriptor component) = some (published (componentContent component))

/-- The descriptors that `system.dcomp` refers to. -/
def references (m : Materializer) (system : System) : List (String × String) :=
  (sortedBy Component.name system.components).map fun component =>
    (component.name, m.descriptor component)

/-- The content is the file of a valid composition whose descriptors are in place. -/
def Refers (m : Materializer) (root : Root) (content : Bytes) : Prop :=
  ∃ host system, system.validate host = .ok () ∧
    m.renderSystem host system (m.references system) = .ok content ∧
    m.Placed system.components root

structure Intact (m : Materializer) (root : Root) : Prop where
  generated : ∀ name entry, root.entry name = some entry → Generated entry
  refers : ∀ content, root.selected = some content → m.Refers root content

end Materializer

theorem matchesName_head {name : String} (h : matchesName name = true) :
    ∃ c rest, name.toList = c :: rest ∧ isLower c = true := by
  unfold matchesName at h
  split at h
  · cases h
  · rename_i c rest hlist
    rw [Bool.and_eq_true, Bool.and_eq_true] at h
    exact ⟨c, rest, hlist, h.1.1⟩

/-- No descriptor has the name of a temporary. -/
theorem descriptor_ne_temporary (m : Materializer) {component : Component}
    (h : matchesName component.name = true) (name suffix : String) :
    m.descriptor component ≠ temporaryName name suffix := by
  intro heq
  obtain ⟨c, rest, hlist, hlower⟩ := matchesName_head h
  have hchars := congrArg String.toList heq
  simp only [Materializer.descriptor, Materializer.descriptorName, temporaryName,
    String.toList_append, hlist] at hchars
  have hdot : c = '.' := by
    have := congrArg List.head? hchars
    simpa using this
  rw [hdot] at hlower
  exact absurd hlower (by decide)

/-- The descriptors of differently named components are different. -/
theorem descriptor_inj (m : Materializer) {left right : Component}
    (h : m.descriptor left = m.descriptor right) : left.name = right.name := by
  have hlength : ∀ content, (String.ofList ((m.sha256 content).toList.take 16)).toList.length =
      16 := by
    intro content
    have hdigest := m.length_sha256 content
    rw [← String.length_toList] at hdigest
    rw [String.toList_ofList, List.length_take, hdigest]
    rfl
  have hchars := congrArg String.toList h
  simp only [Materializer.descriptor, Materializer.descriptorName, String.toList_append] at hchars
  have hsplit := List.append_inj' hchars (by rw [hlength, hlength])
  have hname := (List.append_inj' hsplit.1 rfl).1
  exact String.toList_inj.mp hname

section
variable {m : Materializer} {name : String} {x : Option Entry}

theorem generated_published (content : Bytes) : Generated (published content) :=
  .inr ⟨content, rfl⟩

theorem generated_empty : Generated (.directory []) := .inl rfl

namespace Materializer

theorem Placed.becomes {components : List Component} (h : m.Placed components s)
    (hb : s.Becomes name x t) (hname : ∀ component ∈ components, m.descriptor component ≠ name) :
    m.Placed components t := by
  intro component hmem
  rw [hb.entry_ne (hname component hmem)]
  exact h component hmem

/-- A change of a temporary, or of a name without an entry, is one that no selected file sees. -/
theorem Intact.becomes (h : m.Intact s) (hb : s.Becomes name x t)
    (hx : ∀ entry, x = some entry → Generated entry)
    (hname : (∃ base suffix, name = temporaryName base suffix) ∨ s.entry name = none) :
    m.Intact t := by
  constructor
  · intro k entry hentry
    by_cases hk : k = name
    · rw [hk, hb.entry_self] at hentry
      exact hx entry hentry
    · rw [hb.entry_ne hk] at hentry
      exact h.generated k entry hentry
  · intro content hcontent
    rw [hb.selected] at hcontent
    obtain ⟨host, system, hvalid, hrender, hplaced⟩ := h.refers content hcontent
    refine ⟨host, system, hvalid, hrender, Placed.becomes hplaced hb fun component hmem heq => ?_⟩
    rcases hname with ⟨base, suffix, rfl⟩ | hnone
    · have hmatches := (Component.of_validate ((System.of_validate hvalid).1 component hmem)).1
      exact descriptor_ne_temporary m hmatches base suffix heq
    · have hsome := hplaced component hmem
      rw [heq, hnone] at hsome
      cases hsome

theorem Intact.same (h : m.Intact s) (hst : s.Same t) : m.Intact t := by
  constructor
  · intro k entry hentry
    rw [hst.entries] at hentry
    exact h.generated k entry hentry
  · intro content hcontent
    rw [hst.selected] at hcontent
    obtain ⟨host, system, hvalid, hrender, hplaced⟩ := h.refers content hcontent
    refine ⟨host, system, hvalid, hrender, fun component hmem => ?_⟩
    rw [hst.entries]
    exact hplaced component hmem

/-- Along the changes of one temporary. -/
theorem Intact.temporary {base text : String} {entry : Entry} (h : m.Intact s)
    (hentry : Generated entry) (hb : s.Becomes (temporaryName base text) (some entry) t) :
    m.Intact t := by
  refine h.becomes hb (fun e he => ?_) (.inl ⟨base, text, rfl⟩)
  cases he
  exact hentry

end Materializer

end

section
variable {m : Materializer} {base text : String} (hF : faulty → F)
include hF

theorem appendAll_holds (bytes : Bytes) {content : Bytes} (hs : m.Intact s) (hready : s.Ready)
    (hentry : s.entry (temporaryName base text) = some (published content)) :
    Holds faulty F m.Intact
      (bytes.forM fun byte => change (.appendManifest (temporaryName base text) byte))
      (fun _ t => s.Becomes (temporaryName base text) (some (published (content ++ bytes))) t) s := by
  induction bytes generalizing s content with
  | nil =>
    refine Holds.pure hs ⟨?_, rfl, rfl, fun h => h⟩
    rw [List.append_nil, ← hentry, Function.update_eq_self]
  | cons byte bytes ih =>
    obtain ⟨t, ht, hb⟩ := appendManifest_becomes byte hready hentry
    have hintact : m.Intact t := hs.temporary (generated_published _) hb
    refine Holds.bind (Holds.changed hs hF ht hintact) fun _ t' _ he => ?_
    subst he
    refine (ih hintact (hb.ready hready) hb.entry_self).weaken (fun _ h => h) fun _ u _ hu => ?_
    have hlast := hb.trans hu
    rw [List.append_assoc] at hlast
    exact hlast

theorem writeManifest_holds (content : Bytes) (hs : m.Intact s) (hready : s.Ready)
    (hentry : s.entry (temporaryName base text) = some (.directory [])) :
    Holds faulty F m.Intact (Materializer.writeManifest (temporaryName base text) content)
      (fun _ t => s.Becomes (temporaryName base text) (some (published content)) t) s := by
  obtain ⟨t, ht, hb⟩ := createManifest_becomes hready hentry
  have hintact : m.Intact t := hs.temporary (generated_published _) hb
  refine Holds.bind (Holds.changed hs hF ht hintact) fun _ t' _ he => ?_
  subst he
  refine Holds.bind (appendAll_holds hF content hintact (hb.ready hready) hb.entry_self) ?_
  intro _ u hu hbu
  exact Holds.sync hu hF (hb.trans hbu)

/-- The cleanup of a temporary that was renamed away. -/
theorem discard_renamed (hs : m.Intact s) {P : Unit → Root → Prop}
    (hentry : s.entry (temporaryName base text) = none) (hP : P () s) :
    Holds faulty F m.Intact (Materializer.discard (temporaryName base text)) P s := by
  refine Holds.get hs hF ?_
  rw [hentry]
  exact Holds.pure hs hP

omit hF in
/-- The cleanup of a temporary after a failure. -/
theorem discard_failed (hs : m.Intact s) :
    Holds faulty True m.Intact (Materializer.discard (temporaryName base text)) (fun _ _ => True)
      s := by
  refine Holds.get hs (fun _ => trivial) ?_
  cases hentry : s.entry (temporaryName base text) with
  | none => exact Holds.pure hs trivial
  | some e =>
    have hremove : ∀ t, m.Intact t → Holds faulty True m.Intact
        (change (.removeDirectory (temporaryName base text))) (fun _ _ => True) t := by
      intro t ht
      refine Holds.change ht (fun _ => trivial) fun u hu => ⟨?_, trivial⟩
      rw [Change.apply] at hu
      split_ifs at hu
      exact ht.becomes (Root.removeEntry_becomes hu) (fun _ he => by cases he) (.inl ⟨base, text, rfl⟩)
    dsimp only
    split_ifs with hmanifest
    · have hcontent : ∃ content, e = published content := by
        rcases hs.generated _ _ hentry with rfl | hpublished
        · cases hmanifest
        · exact hpublished
      obtain ⟨content, rfl⟩ := hcontent
      have hunlink : Holds faulty True m.Intact
          (change (.unlinkManifest (temporaryName base text))) (fun _ _ => True) s := by
        refine Holds.change hs (fun _ => trivial) fun u hu => ⟨?_, trivial⟩
        rw [Change.apply, hentry] at hu
        exact hs.temporary generated_empty (Root.setEntry_becomes hu)
      exact Holds.bind hunlink fun _ t ht _ => hremove t ht
    · exact hremove s hs

end

section
variable {m : Materializer} {name text : String} (hF : faulty → F)
include hF

/-- A descriptor whose name is free is published. -/
theorem publishDescriptor_holds (content : Bytes) (hs : m.Intact s) (hready : s.Ready)
    (hfree : s.entry name = none) (hne : name ≠ temporaryName name text)
    (hfresh : faulty ∨ s.Fresh text) :
    Holds faulty F m.Intact
      (Materializer.publishDescriptor name (temporaryName name text) content)
      (fun _ t => t.entry = Function.update s.entry name (some (published content)) ∧
        t.selected = s.selected ∧ t.Ready) s := by
  refine Holds.protect (P := fun _ t => t.entry (temporaryName name text) = none ∧
    t.entry = Function.update s.entry name (some (published content)) ∧
      t.selected = s.selected ∧ t.Ready) ?_
    (fun _ t ht hP => discard_renamed hF ht hP.1 hP.2)
    fun _ t ht hf => (discard_failed ht).weaken (fun _ _ => hf) fun _ _ _ h => h
  have hmake : Holds faulty F m.Intact (change (.makeDirectory (temporaryName name text)))
      (fun _ t => s.entry (temporaryName name text) = none ∧
        s.Becomes (temporaryName name text) (some (.directory [])) t) s := by
    refine Holds.change hs (fun hf => hF ?_) fun t ht => ?_
    · rcases hf with hrefused | hf
      · refine hfresh.resolve_right fun hnew => ?_
        obtain ⟨t, ht⟩ := hready.setEntry (temporaryName name text) (.directory [])
        rw [Change.apply, if_pos (hnew name).1, ht] at hrefused
        cases hrefused
      · exact hf
    · obtain ⟨hnone, hb⟩ := makeDirectory_becomes ht
      exact ⟨hs.temporary generated_empty hb, hnone, hb⟩
  refine Holds.bind hmake fun _ t ht hP => ?_
  obtain ⟨hnone, hb⟩ := hP
  refine Holds.bind (writeManifest_holds hF content ht (hb.ready hready) hb.entry_self) ?_
  intro _ u hu hbu
  have hwritten := hb.trans hbu
  refine Holds.bind (Holds.changed (t := u) hu hF rfl hu) fun _ u' _ he => ?_
  subst he
  have htarget : u.entry name = none := by
    rw [hwritten.entry_ne hne]
    exact hfree
  obtain ⟨v, w, hrename, hremoved, hnamed⟩ :=
    renameDirectory_becomes (hwritten.ready hready) hwritten.entry_self htarget
  have hv : m.Intact v := hu.becomes hremoved (fun _ he => by cases he) (.inl ⟨name, text, rfl⟩)
  have hw : m.Intact w := by
    refine hv.becomes hnamed (fun entry he => ?_) (.inr ?_)
    · cases he
      exact generated_published content
    · rw [hremoved.entry_ne hne]
      exact htarget
  refine Holds.bind (Holds.changed hu hF hrename hw) fun _ w' _ he => ?_
  subst he
  have hgone : v.entry = s.entry := by
    rw [(hwritten.trans hremoved).entries, ← hnone, Function.update_eq_self]
  refine Holds.sync hw hF ⟨?_, ?_, ?_, ?_⟩
  · rw [hnamed.entry_ne hne.symm, hremoved.entry_self]
  · rw [hnamed.entries, hgone]
  · rw [hnamed.selected, hremoved.selected, hwritten.selected]
  · exact hnamed.ready (hremoved.ready (hwritten.ready hready))

end

/-- The descriptor of a component can be written: its directory is absent, or the same. -/
def Materializer.Usable (m : Materializer) (root : Root) (component : Component) : Prop :=
  root.entry (m.descriptor component) = none ∨
    root.entry (m.descriptor component) = some (published (componentContent component))

section
variable {m : Materializer} (hF : faulty → F)
include hF

theorem writeDescriptor_holds {component : Component} (hs : m.Intact s) (hready : s.Ready)
    (hname : matchesName component.name = true) (hunusable : ¬ m.Usable s component → F) :
    Holds faulty F m.Intact
      (m.writeDescriptor (m.descriptor component) (componentContent component))
      (fun _ t => m.Usable s component ∧
        t.entry = Function.update s.entry (m.descriptor component)
          (some (published (componentContent component))) ∧
        t.selected = s.selected ∧ t.Ready) s := by
  refine Holds.wrapping (Holds.get hs hF ?_)
  cases hentry : s.entry (m.descriptor component) with
  | none =>
    refine Holds.suffix hs fun text hfresh => ?_
    have hne := descriptor_ne_temporary m hname (m.descriptor component) text
    refine (publishDescriptor_holds hF _ hs hready hentry hne hfresh).weaken (fun _ h => h) ?_
    intro _ t _ ht
    exact ⟨.inl hentry, ht⟩
  | some entry =>
    rcases hs.generated _ _ hentry with rfl | ⟨content, rfl⟩
    · refine Holds.fail hs (hunusable fun husable => ?_)
      rw [Materializer.Usable, hentry] at husable
      rcases husable with h | h
      · cases h
      · cases h
    · change Holds faulty F m.Intact
        (if content ≠ componentContent component then Dcomp.fail _ else Pure.pure ()) _ s
      split_ifs with hcontent
      · refine Holds.fail hs (hunusable fun husable => ?_)
        rw [Materializer.Usable, hentry] at husable
        rcases husable with h | h
        · cases h
        · cases h
          exact hcontent rfl
      · rw [not_not] at hcontent
        subst hcontent
        refine Holds.pure hs ⟨.inr hentry, ?_, rfl, hready⟩
        rw [← hentry, Function.update_eq_self]

theorem writeDescriptors_holds {host : HostPaths} {components : List Component} (hs : m.Intact s)
    (hready : s.Ready) (hnames : (components.map Component.name).Nodup)
    (hvalid : ∀ component ∈ components, component.validate host = .ok ())
    (hunusable : (∃ component ∈ components, ¬ m.Usable s component) → F)
    (hunwritable : (∃ component ∈ components, ¬ m.surrogates.Encodable component.image) → F) :
    Holds faulty F m.Intact (m.writeDescriptors components)
      (fun references t =>
        references = components.map (fun component => (component.name, m.descriptor component)) ∧
        (∀ component ∈ components, m.Usable s component) ∧
        (∀ component ∈ components, m.surrogates.Encodable component.image) ∧
        m.Placed components t ∧ (∀ name, (∀ component ∈ components, name ≠ m.descriptor component) →
          t.entry name = s.entry name) ∧ t.selected = s.selected ∧ t.Ready) s := by
  induction components generalizing s with
  | nil =>
    exact Holds.pure hs ⟨rfl, List.forall_mem_nil _, List.forall_mem_nil _, List.forall_mem_nil _,
      fun _ _ => rfl, rfl, hready⟩
  | cons component components ih =>
    rw [List.map_cons, List.nodup_cons] at hnames
    rw [List.forall_mem_cons] at hvalid
    obtain ⟨hcomponent, hvalid⟩ := hvalid
    have hname := (Component.of_validate hcomponent).1
    have hapart : ∀ other ∈ components, m.descriptor other ≠ m.descriptor component := by
      intro other hother heq
      rw [← descriptor_inj m heq] at hnames
      exact hnames.1 (List.mem_map_of_mem hother)
    unfold Materializer.writeDescriptors
    rw [renderComponent_eq m hcomponent]
    refine Holds.bind (P := fun content t => m.surrogates.Encodable component.image ∧
      content = componentContent component ∧ s = t)
      (Holds.ofExcept hs (fun content he => ?_) fun e he => ?_) fun content s' _ hP => ?_
    · split_ifs at he with himage
      cases he
      exact ⟨himage, rfl, rfl⟩
    · split_ifs at he with himage
      exact hunwritable ⟨component, List.mem_cons_self, himage⟩
    obtain ⟨himage, rfl, rfl⟩ := hP
    have hwrite := writeDescriptor_holds hF hs hready hname fun h =>
      hunusable ⟨component, List.mem_cons_self, h⟩
    refine Holds.bind hwrite fun _ t ht hP => ?_
    obtain ⟨husable, hentries, hselected, hready'⟩ := hP
    have hsame : ∀ other ∈ components, m.Usable t other ↔ m.Usable s other := by
      intro other hother
      unfold Materializer.Usable
      rw [hentries, Function.update_of_ne (hapart other hother)]
    refine Holds.bind (ih ht hready' hnames.2 hvalid ?_ ?_) fun references u hu hP => ?_
    · intro h
      obtain ⟨other, hother, hunused⟩ := h
      rw [hsame other hother] at hunused
      exact hunusable ⟨other, List.mem_cons_of_mem _ hother, hunused⟩
    · intro h
      obtain ⟨other, hother, hother'⟩ := h
      exact hunwritable ⟨other, List.mem_cons_of_mem _ hother, hother'⟩
    obtain ⟨rfl, hall, himages, hplaced, hframe, hselected', hready''⟩ := hP
    refine Holds.pure hu ⟨rfl, ?_, List.forall_mem_cons.mpr ⟨himage, himages⟩, ?_, ?_,
      hselected'.trans hselected, hready''⟩
    · rw [List.forall_mem_cons]
      exact ⟨husable, fun other hother => (hsame other hother).mp (hall other hother)⟩
    · refine List.forall_mem_cons.mpr ⟨?_, hplaced⟩
      rw [hframe _ fun other hother => (hapart other hother).symm, hentries, Function.update_self]
    · intro name hother
      rw [List.forall_mem_cons] at hother
      rw [hframe name hother.2, hentries, Function.update_of_ne hother.1]

end

section
variable {m : Materializer} (hF : faulty → F)
include hF

theorem prepareRoot_holds (hs : m.Intact s) :
    Holds faulty F m.Intact m.prepareRoot (fun _ t => s.Same t ∧ t.Ready) s := by
  have hmade : m.Intact { s with made := true } := hs.same (makeRoot_same s)
  obtain ⟨t, ht, hsame, hready⟩ := makeDescriptors_same (s := { s with made := true }) rfl
  have hintact : m.Intact t := hmade.same hsame
  refine Holds.wrapping (Holds.bind (Holds.changed hs hF rfl hmade) fun _ s' _ he => ?_)
  subst he
  refine Holds.bind (Holds.changed hmade hF ht hintact) fun _ t' _ he => ?_
  subst he
  refine Holds.bind (Holds.changed (t := t) hintact hF rfl hintact) fun _ t' _ he => ?_
  subst he
  exact Holds.sync hintact hF ⟨(makeRoot_same s).trans hsame, hready⟩

theorem appendStaged_holds {temporary : String} (bytes : Bytes) {content : Bytes}
    (hs : m.Intact s) (hstaged : s.staged.lookup temporary = some content) :
    Holds faulty F m.Intact (bytes.forM fun byte => change (.appendStaged temporary byte))
      (fun _ t => s.Same t ∧ t.staged.lookup temporary = some (content ++ bytes)) s := by
  induction bytes generalizing s content with
  | nil =>
    refine Holds.pure hs ⟨⟨rfl, rfl, fun h => h⟩, ?_⟩
    rw [List.append_nil]
    exact hstaged
  | cons byte bytes ih =>
    have happly : (Change.appendStaged temporary byte).apply s =
        some { s with staged := s.staged.insert temporary (content ++ [byte]) } := by
      rw [Change.apply, hstaged]
      rfl
    have hsame := staged_same ⟨temporary, .inr (.inl ⟨byte, rfl⟩)⟩ happly
    have hintact := hs.same hsame
    refine Holds.bind (Holds.changed hs hF happly hintact) fun _ t' _ he => ?_
    subst he
    refine (ih hintact (AList.lookup_insert _)).weaken (fun _ h => h) fun _ u _ hu => ?_
    rw [List.append_assoc] at hu
    exact ⟨hsame.trans hu.1, hu.2⟩

omit hF in
theorem unstage_failed {temporary : String} (hs : m.Intact s) :
    Holds faulty True m.Intact (Materializer.unstage temporary) (fun _ _ => True) s := by
  refine Holds.get hs (fun _ => trivial) ?_
  cases hlookup : s.staged.lookup temporary with
  | none => exact Holds.pure hs trivial
  | some content =>
    exact Holds.change hs (fun _ => trivial) fun t ht =>
      ⟨hs.same (staged_same ⟨temporary, .inr (.inr rfl)⟩ ht), trivial⟩

/-- The selected file is replaced by one whose descriptors are in place. -/
theorem replaceFile_holds {content : Bytes} (hs : m.Intact s) (hready : s.Ready)
    (hrefers : m.Refers s content) :
    Holds faulty F m.Intact (m.replaceFile content)
      (fun _ t => t.entry = s.entry ∧ t.selected = some content ∧ t.Ready) s := by
  refine Holds.suffix hs fun text hfresh => ?_
  generalize htemporary : temporaryName "system.dcomp" text = temporary
  have hcreate : Holds faulty F m.Intact (change (.createStaged temporary))
      (fun _ t => s.Same t ∧ t.staged.lookup temporary = some []) s := by
    refine Holds.change hs (fun hf => hF ?_) fun t ht => ?_
    · rcases hf with hrefused | hf
      · refine hfresh.resolve_right fun hnew => ?_
        have hfree := (hnew "system.dcomp").2
        rw [htemporary] at hfree
        rw [Change.apply, if_pos ⟨hready.made, hfree⟩] at hrefused
        cases hrefused
      · exact hf
    · have hsame := staged_same ⟨temporary, .inl rfl⟩ ht
      refine ⟨hs.same hsame, hsame, ?_⟩
      rw [Change.apply] at ht
      split_ifs at ht
      cases ht
      exact AList.lookup_insert _
  refine Holds.protect (P := fun _ t => t.staged.lookup temporary = none ∧
    t.entry = s.entry ∧ t.selected = some content ∧ t.Ready) ?_ (fun _ t ht hP => ?_)
    fun _ t ht hf => (unstage_failed ht).weaken (fun _ _ => hf) fun _ _ _ h => h
  · refine Holds.wrapping (Holds.bind hcreate fun _ t ht hP => ?_)
    obtain ⟨hsame, hstaged⟩ := hP
    refine Holds.bind (appendStaged_holds hF content ht hstaged) fun _ u hu hP => ?_
    obtain ⟨hsame', hstaged'⟩ := hP
    refine Holds.bind (Holds.changed (t := u) hu hF rfl hu) fun _ u' _ he => ?_
    subst he
    have hall := hsame.trans hsame'
    have happly : (Change.selectStaged temporary).apply u =
        some { u with selected := some content, staged := u.staged.erase temporary } := by
      rw [Change.apply, hstaged']
      rfl
    have hintact :
        m.Intact { u with selected := some content, staged := u.staged.erase temporary } := by
      constructor
      · exact hu.generated
      · intro selected hselected
        cases hselected
        obtain ⟨host, system, hvalid, hrender, hplaced⟩ := hrefers
        refine ⟨host, system, hvalid, hrender, fun component hmem => ?_⟩
        change u.entry _ = _
        rw [hall.entries]
        exact hplaced component hmem
    refine Holds.bind (Holds.changed hu hF happly hintact) fun _ v _ he => ?_
    subst he
    have hready' := hall.ready hready
    exact Holds.sync hintact hF ⟨AList.lookup_erase _ _, hall.entries, rfl,
      ⟨hready'.made, hready'.descriptors⟩⟩
  · refine Holds.get ht hF ?_
    rw [hP.1]
    exact Holds.pure ht hP.2

end

/-- The root while the descriptors that a selected file does not refer to are removed. -/
structure Sweeping (m : Materializer) (host : HostPaths) (system : System) (content : Bytes)
    (root : Root) : Prop where
  valid : system.validate host = .ok ()
  rendered : m.renderSystem host system (m.references system) = .ok content
  selected : root.selected = some content
  placed : m.Placed system.components root
  generated : ∀ name entry, root.entry name = some entry → Generated entry
  ready : root.Ready

section
variable {m : Materializer} {host : HostPaths} {system : System} {content : Bytes}

theorem Sweeping.intact (h : Sweeping m host system content s) : m.Intact s where
  generated := h.generated
  refers selected hselected := by
    rw [h.selected] at hselected
    cases hselected
    exact ⟨host, system, h.valid, h.rendered, h.placed⟩

theorem Sweeping.becomes {name : String} {x : Option Entry} (h : Sweeping m host system content s)
    (hb : s.Becomes name x t) (hx : ∀ entry, x = some entry → Generated entry)
    (hname : ∀ component ∈ system.components, m.descriptor component ≠ name) :
    Sweeping m host system content t where
  valid := h.valid
  rendered := h.rendered
  selected := hb.selected.trans h.selected
  placed := Materializer.Placed.becomes h.placed hb hname
  generated k entry hentry := by
    by_cases hk : k = name
    · rw [hk, hb.entry_self] at hentry
      exact hx entry hentry
    · rw [hb.entry_ne hk] at hentry
      exact h.generated k entry hentry
  ready := hb.ready h.ready

variable (hF : faulty → F)
include hF

/-- An entry that no descriptor of the composition has is removed, whether it has its file or the
file was removed before. -/
theorem removeUnusedEntry_holds {name : String} {entry : Entry}
    (hs : Sweeping m host system content s) (hentry : s.entry name = some entry)
    (hname : ∀ component ∈ system.components, m.descriptor component ≠ name) :
    Holds faulty F m.Intact (m.removeUnusedEntry name)
      (fun _ t => Sweeping m host system content t ∧ t.entry = Function.update s.entry name none)
      s := by
  have hdirectory : ∀ u, Sweeping m host system content u →
      u.entry name = some (.directory []) → Holds faulty F m.Intact
        (change (.removeDirectory name)) (fun _ t => Sweeping m host system content t ∧
          t.entry = Function.update u.entry name none) u := by
    intro u hu hempty
    obtain ⟨t, ht, hb⟩ := removeDirectory_becomes hu.ready hempty
    have hswept := hu.becomes hb nofun hname
    exact Holds.changeTo hu.intact hF ht hswept.intact ⟨hswept, hb.entries⟩
  refine Holds.get hs.intact hF ?_
  rcases hs.generated _ _ hentry with rfl | ⟨stored, rfl⟩
  · rw [hentry]
    exact hdirectory s hs hentry
  · rw [hentry]
    obtain ⟨t, ht, hb⟩ := unlinkManifest_becomes hs.ready hentry
    have hswept : Sweeping m host system content t := by
      refine hs.becomes hb (fun e he => ?_) hname
      cases he
      exact .inl rfl
    refine Holds.bind (Holds.changed hs.intact hF ht hswept.intact) fun _ u _ he => ?_
    subst he
    refine (hdirectory t hswept hb.entry_self).weaken (fun _ h => h) fun _ u _ hu => ?_
    refine ⟨hu.1, ?_⟩
    rw [hu.2, hb.entries, Function.update_idem]

theorem removeUnused_holds {keep names : List String} (hs : Sweeping m host system content s)
    (hkeep : ∀ component ∈ system.components, m.descriptor component ∈ keep)
    (hnodup : names.Nodup) (hpresent : ∀ name ∈ names, (s.entry name).isSome = true) :
    Holds faulty F m.Intact (m.removeUnused keep names)
      (fun _ t => Sweeping m host system content t ∧
        ∀ name, t.entry name = if name ∈ names ∧ name ∉ keep then none else s.entry name) s := by
  induction names generalizing s with
  | nil =>
    refine Holds.pure hs.intact ⟨hs, fun name => ?_⟩
    rw [if_neg fun h => List.not_mem_nil h.1]
  | cons name names ih =>
    rw [List.nodup_cons] at hnodup
    rw [List.forall_mem_cons] at hpresent
    obtain ⟨entry, hentry⟩ := Option.isSome_iff_exists.mp hpresent.1
    have hhead : Holds faulty F m.Intact
        (if name ∈ keep then Pure.pure () else m.removeUnusedEntry name)
        (fun _ t => Sweeping m host system content t ∧
          t.entry = if name ∈ keep then s.entry else Function.update s.entry name none) s := by
      split_ifs with hmem
      · exact Holds.pure hs.intact ⟨hs, rfl⟩
      · refine removeUnusedEntry_holds hF hs hentry fun component hcomponent heq => hmem ?_
        rw [← heq]
        exact hkeep component hcomponent
    refine Holds.bind hhead fun _ t ht hP => ?_
    obtain ⟨hswept, hentries⟩ := hP
    have hother : ∀ k, k ≠ name → t.entry k = s.entry k := by
      intro k hk
      rw [hentries]
      split_ifs
      · rfl
      · rw [Function.update_of_ne hk]
    have hpresent' : ∀ k ∈ names, (t.entry k).isSome = true := by
      intro k hk
      have hne : k ≠ name := by
        intro heq
        rw [heq] at hk
        exact hnodup.1 hk
      rw [hother k hne]
      exact hpresent.2 k hk
    refine (ih hswept hnodup.2 hpresent').weaken (fun _ h => h) fun _ u _ hu => ⟨hu.1, fun k => ?_⟩
    rw [hu.2 k]
    by_cases hk : k = name
    · subst hk
      rw [if_neg fun h => hnodup.1 h.1, hentries]
      by_cases hmem : k ∈ keep
      · rw [if_pos hmem, if_neg fun h => h.2 hmem]
      · rw [if_neg hmem, Function.update_self, if_pos ⟨List.mem_cons_self, hmem⟩]
    · rw [hother k hk]
      simp only [List.mem_cons, hk, false_or]

theorem removeUnusedDescriptors_holds {keep : List String}
    (hs : Sweeping m host system content s)
    (hkeep : ∀ component ∈ system.components, m.descriptor component ∈ keep) :
    Holds faulty F m.Intact (m.removeUnusedDescriptors keep)
      (fun _ t => Sweeping m host system content t ∧
        ∀ name, t.entry name = if name ∈ keep then s.entry name else none) s := by
  refine Holds.wrapping (Holds.list hs.intact hF hs.ready fun names hnames => ?_)
  have hpresent : ∀ name ∈ names, (s.entry name).isSome = true := fun name =>
    (hnames.2 name).mp
  refine Holds.bind (removeUnused_holds hF hs hkeep hnames.1 hpresent) fun _ t ht hP => ?_
  refine Holds.sync ht hF ⟨hP.1, fun name => ?_⟩
  rw [hP.2]
  by_cases hmem : name ∈ keep
  · rw [if_pos hmem, if_neg fun h => h.2 hmem]
  · rw [if_neg hmem]
    split_ifs with hlisted
    · rfl
    · have habsent : name ∉ names := fun hin => hlisted ⟨hin, hmem⟩
      rw [hnames.2 name, Option.not_isSome_iff_eq_none] at habsent
      exact habsent

end

end Cyclo.Dcomp
