import Cyclo.Dcomp.Materializer
import Mathlib.Data.List.TakeWhile

/-! Which compositions can be written: their rendered files hold no lone surrogate. -/
namespace Cyclo.Dcomp
open Python
open Python.Surrogates (encodable_append encodable_of_ascii encodable_nat encodable_int
  encodable_intercalate encode?_eq_some)

variable {surrogates : Surrogates}

theorem ascii_of_isLower {c : Char} (h : isLower c = true) : isAscii c = true := by
  unfold isLower at h
  rw [Bool.and_eq_true, decide_eq_true_eq, decide_eq_true_eq] at h
  have hle : c.toNat ≤ 122 := h.2
  exact decide_eq_true (by omega)

theorem ascii_of_isDigit {c : Char} (h : isDigit c = true) : isAscii c = true := by
  unfold isDigit at h
  rw [Bool.and_eq_true, decide_eq_true_eq, decide_eq_true_eq] at h
  have hle : c.toNat ≤ 57 := h.2
  exact decide_eq_true (by omega)

theorem ascii_of_isWordStart {c : Char} (h : isWordStart c = true) : isAscii c = true := by
  unfold isWordStart at h
  rw [Bool.or_eq_true, Bool.or_eq_true, Bool.and_eq_true, decide_eq_true_eq, decide_eq_true_eq,
    decide_eq_true_eq] at h
  rcases h with (h | h) | rfl
  · exact ascii_of_isLower h
  · have hle : c.toNat ≤ 90 := h.2
    exact decide_eq_true (by omega)
  · decide

theorem encodable_of_matchesName {name : String} (h : matchesName name = true) :
    surrogates.Encodable name := by
  refine encodable_of_ascii ?_
  unfold matchesName at h
  split at h
  · cases h
  · rename_i c rest hlist
    rw [Bool.and_eq_true, Bool.and_eq_true, List.all_eq_true] at h
    rw [hlist, List.all_cons, Bool.and_eq_true, List.all_eq_true]
    refine ⟨ascii_of_isLower h.1.1, fun d hd => ?_⟩
    have hchar := h.1.2 d hd
    rw [Bool.or_eq_true, Bool.or_eq_true, decide_eq_true_eq] at hchar
    rcases hchar with (hchar | hchar) | rfl
    · exact ascii_of_isLower hchar
    · exact ascii_of_isDigit hchar
    · decide

theorem ascii_of_matchesIdentifier {segment : List Char} (h : matchesIdentifier segment = true) :
    ∀ c ∈ segment, isAscii c = true := by
  unfold matchesIdentifier at h
  split at h
  · cases h
  · rw [Bool.and_eq_true, List.all_eq_true] at h
    refine List.forall_mem_cons.mpr ⟨ascii_of_isWordStart h.1, fun d hd => ?_⟩
    have hchar := h.2 d hd
    rw [Bool.or_eq_true] at hchar
    exact hchar.elim ascii_of_isWordStart ascii_of_isDigit

theorem encodable_of_matchesService {service : String} (h : matchesService service = true) :
    surrogates.Encodable service := by
  unfold matchesService at h
  rw [Bool.and_eq_true, List.all_eq_true] at h
  have hjoined : service = ".".intercalate ((service.toList.splitOn '.').map String.ofList) := by
    rw [← String.toList_inj, String.toList_intercalate, List.map_map]
    have hlists : String.toList ∘ String.ofList = id := funext fun _ => String.toList_ofList
    rw [hlists, List.map_id]
    exact (List.intercalate_splitOn '.').symm
  rw [hjoined, encodable_intercalate (encodable_of_ascii (by decide))]
  intro text htext
  obtain ⟨segment, hsegment, rfl⟩ := List.mem_map.mp htext
  refine encodable_of_ascii (List.all_eq_true.mpr ?_)
  rw [String.toList_ofList]
  exact ascii_of_matchesIdentifier (h.2 segment hsegment)

/-- White space at the end of a text is no surrogate. -/
theorem encodable_stripEnd {text : String} :
    surrogates.Encodable (Materializer.stripEnd text) ↔ surrogates.Encodable text := by
  have hsplit := List.takeWhile_append_dropWhile (p := isSpace) (l := text.toList.reverse)
  unfold Materializer.stripEnd Surrogates.Encodable
  rw [String.toList_ofList]
  simp only [List.mem_reverse]
  constructor
  · intro h c hc
    rw [← List.mem_reverse, ← hsplit, List.mem_append] at hc
    rcases hc with hc | hc
    · have hspace : isSpace c = true := List.mem_takeWhile_imp hc
      by_contra hstands
      rw [surrogates.visible c ((Bool.not_eq_false _).mp hstands)] at hspace
      cases hspace
    · exact h c hc
  · intro h c hc
    exact h c (List.mem_reverse.mp (List.dropWhile_subset isSpace hc))

section
variable {host : HostPaths} {component : Component}

theorem encodable_componentText (h : component.validate host = .ok ()) :
    surrogates.Encodable (Materializer.componentText component) ↔
      surrogates.Encodable component.image := by
  obtain ⟨hinputs, houtputs⟩ := List.forall_mem_append.mp (Component.named_of_validate h).1
  have hlines : ∀ (kind : String) (endpoints : List Endpoint), kind.toList.all isAscii = true →
      (∀ endpoint ∈ endpoints,
        matchesService endpoint.service = true ∧ matchesName endpoint.name = true) →
      ∀ endpoint ∈ endpoints, surrogates.Encodable
        (toString kind ++ toString endpoint.service ++ toString " " ++ toString endpoint.name) := by
    intro kind endpoints hkind hvalid endpoint hmem
    rw [encodable_append, encodable_append, encodable_append]
    obtain ⟨hservice, hname⟩ := hvalid endpoint hmem
    exact ⟨⟨⟨encodable_of_ascii hkind, encodable_of_matchesService hservice⟩,
      encodable_of_ascii (by decide)⟩, encodable_of_matchesName hname⟩
  unfold Materializer.componentText
  rw [encodable_append, encodable_intercalate (encodable_of_ascii (by decide)),
    List.forall_mem_append, List.forall_mem_cons]
  simp only [List.forall_mem_map, (sortedBy_perm _ _).mem_iff]
  rw [encodable_append]
  constructor
  · intro hall
    exact hall.1.1.1.2
  · intro himage
    exact ⟨⟨⟨⟨encodable_of_ascii (by decide), himage⟩, hlines "input " _ (by decide) hinputs⟩,
      hlines "output " _ (by decide) houtputs⟩, encodable_of_ascii (by decide)⟩

theorem renderComponent_eq (m : Materializer) (h : component.validate host = .ok ()) :
    m.renderComponent component =
      if m.surrogates.Encodable component.image then .ok (Materializer.componentContent component)
      else .error (.unicode (Materializer.componentText component)) := by
  have himage : token component.image "Docker image" = .ok component.image :=
    token_eq_ok.mpr ⟨(Component.of_validate h).2.1, rfl⟩
  unfold Materializer.renderComponent Materializer.encodeText Surrogates.encode?
  rw [himage]
  change (match (if _ then _ else _ : Option Bytes) with
    | some content => Except.ok content
    | none => Except.error _) = _
  rw [if_congr (encodable_componentText h) rfl rfl]
  split_ifs
  · rfl
  · rfl

end

namespace Materializer

/-- The texts of a component that its files take can be written: each bind source in a DComp file,
and all of them in UTF-8. -/
structure Writable (m : Materializer) (host : HostPaths) (component : Component) : Prop where
  image : m.surrogates.Encodable component.image
  sources : ∀ bind ∈ component.binds,
    ∃ source, m.sourceToken host bind.source = .ok source ∧ m.surrogates.Encodable source
  targets : ∀ bind ∈ component.binds, m.surrogates.Encodable bind.target
  volumes : ∀ volume ∈ component.volumes, m.surrogates.Encodable volume.target
  arguments : ∀ argument ∈ component.arguments, m.surrogates.Encodable argument
  addresses : ∀ port ∈ component.ports, m.surrogates.Encodable port.hostIp

/-- Every component of the composition can be written. -/
def Representable (m : Materializer) (host : HostPaths) (system : System) : Prop :=
  ∀ component ∈ system.components, m.Writable host component

end Materializer

section
variable {m : Materializer} {host : HostPaths} {component : Component} {system : System}

theorem encodable_mode (readOnly : Bool) : surrogates.Encodable (Materializer.mode readOnly) := by
  cases readOnly with
  | true => exact encodable_of_ascii (by decide)
  | false => exact encodable_of_ascii (by decide)

theorem bindLine_encodable {name : String} (hname : m.surrogates.Encodable name) (bind : Bind) :
    (∃ line, m.bindLine host name bind = .ok line ∧ m.surrogates.Encodable line) ↔
      (∃ source, m.sourceToken host bind.source = .ok source ∧ m.surrogates.Encodable source) ∧
        m.surrogates.Encodable bind.target := by
  have hline : ∀ source, m.surrogates.Encodable
      s!"bind {name} {source} {bind.target} {Materializer.mode bind.readOnly}" ↔
        m.surrogates.Encodable source ∧ m.surrogates.Encodable bind.target := by
    intro source
    simp only [encodable_append]
    constructor
    · intro h
      exact ⟨h.1.1.1.1.2, h.1.1.2⟩
    · intro h
      exact ⟨⟨⟨⟨⟨⟨⟨encodable_of_ascii (by decide), hname⟩, encodable_of_ascii (by decide)⟩, h.1⟩,
        encodable_of_ascii (by decide)⟩, h.2⟩, encodable_of_ascii (by decide)⟩, encodable_mode _⟩
  constructor
  · rintro ⟨line, h, hencodable⟩
    obtain ⟨source, hsource, h⟩ := bind_eq_ok.mp h
    cases h
    rw [hline] at hencodable
    exact ⟨⟨source, hsource, hencodable.1⟩, hencodable.2⟩
  · rintro ⟨⟨source, hsource, hencodable⟩, htarget⟩
    exact ⟨_, bind_eq_ok.mpr ⟨source, hsource, rfl⟩, (hline source).mpr ⟨hencodable, htarget⟩⟩

/-- The line of a component's arguments, where it has any. -/
def argumentLine (component : Component) : List String :=
  if component.arguments = [] then []
  else
    let words := String.intercalate " " component.arguments
    [s!"args {component.name} {words}"]

theorem argumentLines_eq (h : component.validate host = .ok ()) :
    Materializer.argumentLines component = .ok (argumentLine component) := by
  have htokens : (component.arguments.mapM fun argument => token argument "component argument") =
      .ok component.arguments := by
    rw [mapM_eq_ok, List.forall₂_same]
    exact fun argument hmem =>
      token_eq_ok.mpr ⟨(Component.of_validate h).2.2 argument hmem, rfl⟩
  unfold Materializer.argumentLines
  rw [htokens]
  rfl

theorem encodable_argumentLine (h : component.validate host = .ok ()) :
    (∀ line ∈ argumentLine component, surrogates.Encodable line) ↔
      ∀ argument ∈ component.arguments, surrogates.Encodable argument := by
  have hwords : surrogates.Encodable (String.intercalate " " component.arguments) ↔ _ :=
    encodable_intercalate (encodable_of_ascii (by decide))
  unfold argumentLine
  split_ifs with hnone
  · rw [hnone]
  · rw [List.forall_mem_singleton, ← hwords]
    simp only [encodable_append]
    constructor
    · exact And.right
    · intro hall
      exact ⟨⟨⟨encodable_of_ascii (by decide), encodable_of_matchesName (Component.of_validate h).1⟩,
        encodable_of_ascii (by decide)⟩, hall⟩

theorem encodable_volumeLine {name : String} (hname : surrogates.Encodable name) {volume : Volume}
    (hvolume : matchesName volume.name = true) :
    surrogates.Encodable
      s!"volume {name} {volume.name} {volume.target} {Materializer.mode volume.readOnly}" ↔
        surrogates.Encodable volume.target := by
  simp only [encodable_append]
  constructor
  · intro h
    exact h.1.1.2
  · intro h
    exact ⟨⟨⟨⟨⟨⟨⟨encodable_of_ascii (by decide), hname⟩, encodable_of_ascii (by decide)⟩,
      encodable_of_matchesName hvolume⟩, encodable_of_ascii (by decide)⟩, h⟩,
      encodable_of_ascii (by decide)⟩, encodable_mode _⟩

theorem encodable_portLine {name : String} (hname : surrogates.Encodable name)
    {port : PublishedPort} (hprotocol : port.protocol ∈ ["tcp", "udp"]) :
    surrogates.Encodable
      s!"publish {name} {port.protocol} {port.hostIp} {port.hostPort} {port.containerPort}" ↔
        surrogates.Encodable port.hostIp := by
  have hword : surrogates.Encodable port.protocol := by
    rcases List.mem_pair.mp hprotocol with hword | hword
    · rw [hword]
      exact encodable_of_ascii (by decide)
    · rw [hword]
      exact encodable_of_ascii (by decide)
  simp only [encodable_append]
  constructor
  · intro h
    exact h.1.1.1.1.2
  · intro h
    exact ⟨⟨⟨⟨⟨⟨⟨⟨⟨encodable_of_ascii (by decide), hname⟩, encodable_of_ascii (by decide)⟩, hword⟩,
      encodable_of_ascii (by decide)⟩, h⟩, encodable_of_ascii (by decide)⟩, encodable_int _⟩,
      encodable_of_ascii (by decide)⟩, encodable_int _⟩

/-- The lines of a component can all be written exactly where its texts can. -/
theorem systemLines_encodable (h : component.validate host = .ok ())
    {descriptors : List (String × String)}
    (hdescriptor : m.surrogates.Encodable ((descriptors.lookup component.name).getD ""))
    (himage : m.surrogates.Encodable component.image) :
    (∃ lines, m.systemLines host descriptors component = .ok lines ∧
      ∀ line ∈ lines, m.surrogates.Encodable line) ↔ m.Writable host component := by
  obtain ⟨-, hvolumes, hports⟩ := Component.named_of_validate h
  have hname : m.surrogates.Encodable component.name :=
    encodable_of_matchesName (Component.of_validate h).1
  set sorted := sortedBy (fun bind : Bind => toLex ((toLex (bind.source.root, bind.source.parts)),
    toLex (bind.target, bind.readOnly))) component.binds with hsorted
  have hbinds : (∃ lines, sorted.mapM (m.bindLine host component.name) = .ok lines ∧
      ∀ line ∈ lines, m.surrogates.Encodable line) ↔
        (∀ bind ∈ component.binds,
          ∃ source, m.sourceToken host bind.source = .ok source ∧ m.surrogates.Encodable source) ∧
        ∀ bind ∈ component.binds, m.surrogates.Encodable bind.target := by
    rw [mapM_returns_all, ← forall₂_and]
    simp only [hsorted, (sortedBy_perm _ _).mem_iff]
    exact forall₂_congr fun bind _ => bindLine_encodable hname bind
  constructor
  · rintro ⟨lines, hlines, hall⟩
    obtain ⟨binds, hmap, hlines⟩ := bind_eq_ok.mp hlines
    rw [argumentLines_eq h] at hlines
    cases hlines
    simp only [List.forall_mem_append, List.forall_mem_cons, List.forall_mem_map,
      (sortedBy_perm _ _).mem_iff] at hall
    obtain ⟨hsources, htargets⟩ := hbinds.mp ⟨binds, hmap, hall.1.1.1.1.1.2⟩
    refine ⟨himage, hsources, htargets, fun volume hmem => ?_, ?_, fun port hmem => ?_⟩
    · exact (encodable_volumeLine hname (hvolumes volume hmem)).mp (hall.1.1.1.1.2 volume hmem)
    · exact (encodable_argumentLine h).mp hall.1.1.1.2
    · exact (encodable_portLine hname (hports port hmem)).mp (hall.1.1.2 port hmem)
  · intro hwritable
    obtain ⟨binds, hmap, hall⟩ := hbinds.mpr ⟨hwritable.sources, hwritable.targets⟩
    refine ⟨_, bind_eq_ok.mpr ⟨binds, hmap, bind_eq_ok.mpr
      ⟨_, mapError_eq_ok.mpr (argumentLines_eq h), rfl⟩⟩, ?_⟩
    simp only [List.forall_mem_append, List.forall_mem_cons, List.forall_mem_map,
      (sortedBy_perm _ _).mem_iff]
    refine ⟨⟨⟨⟨⟨⟨?_, hall⟩, fun volume hmem => ?_⟩, ?_⟩, fun port hmem => ?_⟩, ?_⟩, ?_⟩
    · simp only [encodable_append]
      exact ⟨⟨⟨encodable_of_ascii (by decide), hname⟩, encodable_of_ascii (by decide)⟩, hdescriptor⟩
    · exact (encodable_volumeLine hname (hvolumes volume hmem)).mpr (hwritable.volumes volume hmem)
    · exact (encodable_argumentLine h).mpr hwritable.arguments
    · exact (encodable_portLine hname (hports port hmem)).mpr (hwritable.addresses port hmem)
    · split_ifs
      · rw [List.forall_mem_singleton, encodable_append]
        exact ⟨encodable_of_ascii (by decide), hname⟩
      · exact List.forall_mem_nil _
    · exact ⟨encodable_of_ascii (by decide), List.forall_mem_nil _⟩

theorem encodable_linkLine {link : Link} (h : ∀ name ∈ link.names, matchesName name = true) :
    surrogates.Encodable s!"link {link.consumer}.{link.input} {link.provider}.{link.output}" := by
  simp only [Link.names, List.forall_mem_cons] at h
  obtain ⟨hconsumer, hinput, hprovider, houtput, -⟩ := h
  simp only [encodable_append]
  exact ⟨⟨⟨⟨⟨⟨⟨encodable_of_ascii (by decide), encodable_of_matchesName hconsumer⟩,
    encodable_of_ascii (by decide)⟩, encodable_of_matchesName hinput⟩,
    encodable_of_ascii (by decide)⟩, encodable_of_matchesName hprovider⟩,
    encodable_of_ascii (by decide)⟩, encodable_of_matchesName houtput⟩

theorem encodeText_eq_ok {text : String} {content : Bytes} :
    m.encodeText text = .ok content ↔ m.surrogates.Encodable text ∧ content = encode text := by
  rw [← encode?_eq_some]
  unfold Materializer.encodeText
  split
  · rename_i given hgiven
    rw [hgiven, Except.ok.injEq, Option.some.injEq]
  · rename_i hnone
    rw [hnone]
    exact iff_of_false nofun nofun

theorem encodable_lookup {descriptors : List (String × String)}
    (h : ∀ entry ∈ descriptors, surrogates.Encodable entry.2) (name : String) :
    surrogates.Encodable ((descriptors.lookup name).getD "") := by
  cases hlookup : descriptors.lookup name with
  | none => exact encodable_of_ascii (by decide)
  | some descriptor =>
    obtain ⟨before, after, rfl, -⟩ := List.lookup_eq_some_iff.mp hlookup
    exact h (name, descriptor) (List.mem_append_right _ List.mem_cons_self)

/-- The system file can be written exactly where every component can. -/
theorem renderSystem_returns (hvalid : system.validate host = .ok ())
    {descriptors : List (String × String)}
    (hdescriptors : ∀ entry ∈ descriptors, m.surrogates.Encodable entry.2)
    (himages : ∀ component ∈ system.components, m.surrogates.Encodable component.image) :
    (∃ content, m.renderSystem host system descriptors = .ok content) ↔
      m.Representable host system := by
  obtain ⟨hname, hlinks⟩ := System.named_of_validate hvalid
  have hcomponents := (System.of_validate hvalid).1
  have hlines : (∃ components, (sortedBy Component.name system.components).mapM
      (m.systemLines host descriptors) = .ok components ∧
        ∀ lines ∈ components, ∀ line ∈ lines, m.surrogates.Encodable line) ↔
      m.Representable host system := by
    rw [mapM_returns_all]
    simp only [(sortedBy_perm _ _).mem_iff]
    exact forall₂_congr fun component hmem => systemLines_encodable (hcomponents component hmem)
      (encodable_lookup hdescriptors _) (himages component hmem)
  -- the other lines hold names and a digest only
  have htext : ∀ components : List (List String), m.surrogates.Encodable
      (Materializer.stripEnd (String.intercalate "\n"
        ([s!"# generated by Cyclo; composition {system.digest m.sha256}",
          s!"system {system.name}", ""] ++ components.flatten ++
        (sortedBy (fun link : Link => toLex (link.consumer, toLex (link.input,
          toLex (link.provider, link.output)))) system.links).map fun link =>
            s!"link {link.consumer}.{link.input} {link.provider}.{link.output}")) ++ "\n") ↔
      ∀ lines ∈ components, ∀ line ∈ lines, m.surrogates.Encodable line := by
    intro components
    rw [encodable_append, encodable_stripEnd, encodable_intercalate (encodable_of_ascii (by decide)),
      List.forall_mem_append, List.forall_mem_append, List.forall_mem_flatten]
    constructor
    · intro h
      exact h.1.1.2
    · intro h
      refine ⟨⟨⟨?_, h⟩, List.forall_mem_map.mpr fun link hmem => ?_⟩, encodable_of_ascii (by decide)⟩
      · simp only [List.forall_mem_cons, encodable_append]
        exact ⟨⟨encodable_of_ascii (by decide), encodable_of_ascii (m.ascii_sha256 _)⟩,
          ⟨encodable_of_ascii (by decide), encodable_of_matchesName hname⟩,
          encodable_of_ascii (by decide), List.forall_mem_nil _⟩
      · exact encodable_linkLine (hlinks link ((sortedBy_perm _ _).mem_iff.mp hmem))
  rw [← hlines]
  unfold Materializer.renderSystem
  constructor
  · rintro ⟨content, h⟩
    obtain ⟨components, hmap, h⟩ := bind_eq_ok.mp h
    exact ⟨components, hmap, (htext components).mp (encodeText_eq_ok.mp h).1⟩
  · rintro ⟨components, hmap, hall⟩
    exact ⟨_, bind_eq_ok.mpr ⟨components, hmap,
      encodeText_eq_ok.mpr ⟨(htext components).mpr hall, rfl⟩⟩⟩

end

end Cyclo.Dcomp
