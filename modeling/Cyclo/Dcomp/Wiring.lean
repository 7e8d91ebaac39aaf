import Cyclo.Dcomp.System
import Mathlib.Data.List.Nodup

/-! Exactly which compositions are valid: what `System.validate` accepts, without its loops. -/
namespace Cyclo.Dcomp
open Python

variable {host : HostPaths} {components : List Component} {links : List Link}

/-- Where names are unique, a search for a name finds whatever has it. -/
theorem find?_name_eq_some {α : Type} {name : α → String} {values : List α}
    {value : α} {wanted : String} (h : (values.map name).Nodup) :
    values.find? (fun other => decide (name other = wanted)) = some value ↔
    value ∈ values ∧ name value = wanted := by
  have hname : ∀ other, values.find? (fun other => decide (name other = wanted)) = some other →
      name other = wanted := by
    intro other hfind
    have hother := List.find?_some hfind
    exact of_decide_eq_true hother
  constructor
  · intro hfind
    exact ⟨List.mem_of_find?_eq_some hfind, hname value hfind⟩
  · intro hvalue
    cases hfind : values.find? (fun other => decide (name other = wanted)) with
    | none =>
      have hnone := List.find?_eq_none.mp hfind value hvalue.1
      exact absurd (decide_eq_true hvalue.2) hnone
    | some other =>
      have hother : other ∈ values := List.mem_of_find?_eq_some hfind
      rw [List.inj_on_of_nodup_map h hother hvalue.1 ((hname other hfind).trans hvalue.2.symm)]

theorem checkComponents_iff {names : List String} :
    checkComponents host names components = .ok () ↔
      (∀ component ∈ components, component.validate host = .ok () ∧ component.name ∉ names) ∧
        (components.map Component.name).Nodup := by
  refine ⟨checkComponents_eq_ok, fun h => ?_⟩
  induction components generalizing names with
  | nil => rfl
  | cons component components ih =>
    obtain ⟨hvalid, hnodup⟩ := h
    rw [List.map_cons, List.nodup_cons] at hnodup
    obtain ⟨hfirst, hrest⟩ := List.forall_mem_cons.mp hvalid
    refine bind_eq_ok.mpr ⟨(), hfirst.1,
      bind_eq_ok.mpr ⟨(), require_eq_ok.mpr hfirst.2, ih ⟨?_, hnodup.2⟩⟩⟩
    intro other hother
    refine ⟨(hrest other hother).1, fun hmem => ?_⟩
    rcases List.mem_cons.mp hmem with hname | hmem
    · apply hnodup.1
      rw [← hname]
      exact List.mem_map_of_mem hother
    · exact (hrest other hother).2 hmem

/-- A link joins an input of one component to an output of the same service of another. -/
structure Link.Joins (components : List Component) (link : Link) : Prop where
  names : link.validateNames = .ok ()
  ends : ∃ consumer ∈ components, ∃ provider ∈ components, ∃ input ∈ consumer.inputs,
    ∃ output ∈ provider.outputs, consumer.name = link.consumer ∧ provider.name = link.provider ∧
    input.name = link.input ∧
      output.name = link.output ∧ input.service = output.service

def Link.key (link : Link) : String × String := (link.consumer, link.input)

/-- The names by which components, and the endpoints of each, are found are unique. -/
structure Unambiguous (components : List Component) : Prop where
  names : (components.map Component.name).Nodup
  inputs : ∀ component ∈ components, (component.inputs.map Endpoint.name).Nodup
  outputs : ∀ component ∈ components, (component.outputs.map Endpoint.name).Nodup

theorem checkLinks_eq_ok {linked result : List (String × String)} (h : Unambiguous components) :
    checkLinks components linked links = .ok result ↔
      (∀ link ∈ links, link.Joins components ∧ link.key ∉ linked) ∧ (links.map Link.key).Nodup ∧
        result = (links.map Link.key).reverse ++ linked := by
  induction links generalizing linked with
  | nil =>
    constructor
    · intro hresult
      cases hresult
      exact ⟨List.forall_mem_nil _, List.nodup_nil, rfl⟩
    · intro hresult
      rw [hresult.2.2]
      rfl
  | cons link links ih =>
    have hkey : ∀ {other : Link}, other.key ∉ link.key :: linked ↔
        other.key ≠ link.key ∧ other.key ∉ linked := by
      intro other
      rw [List.mem_cons, not_or]
    have hrest : (∀ other ∈ links, other.Joins components ∧ other.key ∉ link.key :: linked) ∧
        (links.map Link.key).Nodup ∧ result = (links.map Link.key).reverse ++ link.key :: linked ↔
        (∀ other ∈ links, other.Joins components ∧ other.key ∉ linked) ∧
          ((link :: links).map Link.key).Nodup ∧ result =
          ((link :: links).map Link.key).reverse ++ linked := by
      rw [List.map_cons, List.nodup_cons, List.reverse_cons, List.append_assoc, List.singleton_append]
      constructor
      · intro hl
        refine ⟨fun other hother => ⟨(hl.1 other hother).1, (hkey.mp (hl.1 other hother).2).2⟩,
          ⟨?_, hl.2.1⟩, hl.2.2⟩
        intro hmem
        obtain ⟨other, hother, hsame⟩ := List.mem_map.mp hmem
        exact (hkey.mp (hl.1 other hother).2).1 hsame
      · intro hl
        refine ⟨fun other hother => ⟨(hl.1 other hother).1,
          hkey.mpr ⟨fun hsame => ?_, (hl.1 other hother).2⟩⟩, hl.2.1.2, hl.2.2⟩
        apply hl.2.1.1
        rw [← hsame]
        exact List.mem_map_of_mem hother
    rw [List.forall_mem_cons, and_assoc, ← hrest, ← ih]
    constructor
    · intro hok
      unfold checkLinks at hok
      obtain ⟨_, hnames, hok⟩ := bind_eq_ok.mp hok
      split at hok
      · rename_i consumer provider hconsumer hprovider
        obtain ⟨hcmem, hcname⟩ := (find?_name_eq_some h.names).mp hconsumer
        obtain ⟨hpmem, hpname⟩ := (find?_name_eq_some h.names).mp hprovider
        split at hok
        · rename_i input output hinput houtput
          obtain ⟨himem, hiname⟩ := (find?_name_eq_some (h.inputs consumer hcmem)).mp hinput
          obtain ⟨homem, honame⟩ := (find?_name_eq_some (h.outputs provider hpmem)).mp houtput
          obtain ⟨_, hservice, hok⟩ := bind_eq_ok.mp hok
          obtain ⟨_, hnew, hok⟩ := bind_eq_ok.mp hok
          refine ⟨⟨⟨hnames, consumer, hcmem, provider, hpmem, input, himem, output,
            homem, hcname, hpname, hiname, honame, require_eq_ok.mp hservice⟩,
            require_eq_ok.mp hnew⟩, hok⟩
        · cases hok
      · cases hok
    · intro hjoins
      obtain ⟨⟨⟨hnames, consumer, hcmem, provider, hpmem, input, himem, output, homem,
        hcname, hpname, hiname, honame, hservice⟩, hnew⟩, hok⟩ := hjoins
      unfold checkLinks
      rw [hnames, (find?_name_eq_some h.names).mpr ⟨hcmem, hcname⟩,
        (find?_name_eq_some h.names).mpr ⟨hpmem, hpname⟩]
      dsimp only
      rw [ok_bind, (find?_name_eq_some (h.inputs consumer hcmem)).mpr ⟨himem, hiname⟩,
        (find?_name_eq_some (h.outputs provider hpmem)).mpr ⟨homem, honame⟩]
      dsimp only
      rw [require_eq_ok.mpr hservice, ok_bind]
      refine bind_eq_ok.mpr ⟨(), require_eq_ok.mpr hnew, hok⟩

/-- What the checks of one component ask for. -/
structure Component.Valid (host : HostPaths) (component : Component) : Prop where
  name : matchesName component.name = true
  image : isToken component.image = true
  endpoints : ∀ endpoint ∈ component.inputs ++ component.outputs, endpoint.validate = .ok ()
  inputs : (component.inputs.map Endpoint.name).Nodup
  outputs : (component.outputs.map Endpoint.name).Nodup
  binds : ∀ bind ∈ component.binds, bind.validate host = .ok ()
  volumes : ∀ volume ∈ component.volumes, volume.validate = .ok ()
  targets : checkTargets component.name ((component.binds.map Bind.target ++
    component.volumes.map Volume.target).map PurePath.ofText) = .ok ()
  arguments : ∀ argument ∈ component.arguments, isToken argument = true
  ports : ∀ port ∈ component.ports, port.validate = .ok ()
  egress : component.ports = [] ∨ component.egress = true

theorem Component.validate_eq_ok {component : Component} :
    component.validate host = .ok () ↔ component.Valid host := by
  constructor
  · intro h
    obtain ⟨_, hname, h⟩ := bind_eq_ok.mp h
    obtain ⟨_, himage, h⟩ := bind_eq_ok.mp h
    obtain ⟨_, hendpoints, h⟩ := bind_eq_ok.mp h
    obtain ⟨_, hinputs, h⟩ := bind_eq_ok.mp h
    obtain ⟨_, houtputs, h⟩ := bind_eq_ok.mp h
    obtain ⟨_, hbinds, h⟩ := bind_eq_ok.mp h
    obtain ⟨_, hvolumes, h⟩ := bind_eq_ok.mp h
    obtain ⟨_, htargets, h⟩ := bind_eq_ok.mp h
    obtain ⟨_, harguments, h⟩ := bind_eq_ok.mp h
    obtain ⟨_, hports, h⟩ := bind_eq_ok.mp h
    refine ⟨require_eq_ok.mp hname, (token_eq_ok.mp himage).1, forM_eq_ok.mp hendpoints,
      require_eq_ok.mp hinputs, require_eq_ok.mp houtputs, forM_eq_ok.mp hbinds,
      forM_eq_ok.mp hvolumes, htargets, ?_, forM_eq_ok.mp hports, require_eq_ok.mp h⟩
    intro argument hargument
    obtain ⟨text, htext, -⟩ := bind_eq_ok.mp (forM_eq_ok.mp harguments argument hargument)
    exact (token_eq_ok.mp htext).1
  · intro h
    have harguments : (component.arguments.forM fun argument => do
        let _ ← token argument "component argument") = .ok () := by
      refine forM_eq_ok.mpr fun argument hargument => ?_
      exact bind_eq_ok.mpr ⟨argument, token_eq_ok.mpr ⟨h.arguments argument hargument, rfl⟩, rfl⟩
    unfold Component.validate checkName
    rw [require_eq_ok.mpr h.name, ok_bind, token_eq_ok.mpr ⟨h.image, rfl⟩, ok_bind,
      forM_eq_ok.mpr h.endpoints, ok_bind, require_eq_ok.mpr h.inputs, ok_bind,
      require_eq_ok.mpr h.outputs, ok_bind,
      forM_eq_ok.mpr h.binds, ok_bind, forM_eq_ok.mpr h.volumes, ok_bind, h.targets, ok_bind,
      harguments, ok_bind, forM_eq_ok.mpr h.ports, ok_bind]
    exact require_eq_ok.mpr h.egress

/-- Every input of every component has one link, and every link joins two endpoints of one service. -/
structure Wired (components : List Component) (links : List Link) : Prop where
  joins : ∀ link ∈ links, link.Joins components
  once : (links.map Link.key).Nodup
  all : ∀ component ∈ components, ∀ input ∈ component.inputs,
    (component.name, input.name) ∈ links.map Link.key

theorem Link.validateNames_eq_ok {link : Link} : link.validateNames = .ok () ↔
    matchesName link.consumer = true ∧
    matchesName link.input = true ∧ matchesName link.provider = true ∧
    matchesName link.output = true := by
  unfold Link.validateNames checkName
  constructor
  · intro h
    obtain ⟨_, hconsumer, h⟩ := bind_eq_ok.mp h
    obtain ⟨_, hinput, h⟩ := bind_eq_ok.mp h
    obtain ⟨_, hprovider, h⟩ := bind_eq_ok.mp h
    exact ⟨require_eq_ok.mp hconsumer, require_eq_ok.mp hinput, require_eq_ok.mp hprovider,
      require_eq_ok.mp h⟩
  · intro h
    rw [require_eq_ok.mpr h.1, require_eq_ok.mpr h.2.1, require_eq_ok.mpr h.2.2.1,
      require_eq_ok.mpr h.2.2.2]
    rfl

theorem System.validate_eq_ok {system : System} :
    system.validate host = .ok () ↔ matchesName system.name = true ∧ system.components ≠ [] ∧
      (∀ component ∈ system.components, component.validate host = .ok ()) ∧
        (system.components.map Component.name).Nodup ∧ Wired system.components system.links := by
  have hunambiguous : (∀ component ∈ system.components, component.validate host = .ok ()) →
      (system.components.map Component.name).Nodup → Unambiguous system.components := by
    intro hvalid hnodup
    exact ⟨hnodup, fun component hmem => (Component.validate_eq_ok.mp (hvalid component hmem)).inputs,
      fun component hmem => (Component.validate_eq_ok.mp (hvalid component hmem)).outputs⟩
  have hmissing : ∀ linked : List (String × String), ((system.components.flatMap fun component =>
        component.inputs.map fun endpoint => (component.name, endpoint.name)).filter (· ∉ linked)) =
          [] ↔
      ∀ component ∈ system.components, ∀ input ∈ component.inputs,
      (component.name, input.name) ∈ linked := by
    intro linked
    simp only [List.filter_eq_nil_iff, List.mem_flatMap, List.mem_map, decide_eq_true_eq, not_not]
    constructor
    · intro h component hcomponent input hinput
      exact h _ ⟨component, hcomponent, input, hinput, rfl⟩
    · intro h key hkey
      obtain ⟨component, hcomponent, input, hinput, hsame⟩ := hkey
      rw [← hsame]
      exact h component hcomponent input hinput
  constructor
  · intro h
    obtain ⟨_, hname, h⟩ := bind_eq_ok.mp h
    obtain ⟨_, hne, h⟩ := bind_eq_ok.mp h
    obtain ⟨_, hcomponents, h⟩ := bind_eq_ok.mp h
    obtain ⟨linked, hlinks, h⟩ := bind_eq_ok.mp h
    obtain ⟨hvalid, hnodup⟩ := checkComponents_iff.mp hcomponents
    have hvalid : ∀ component ∈ system.components, component.validate host = .ok () :=
      fun component hmem => (hvalid component hmem).1
    obtain ⟨hjoins, honce, hlinked⟩ := (checkLinks_eq_ok (hunambiguous hvalid hnodup)).mp hlinks
    have hall := (hmissing linked).mp (require_eq_ok.mp h)
    refine ⟨require_eq_ok.mp hname, require_eq_ok.mp hne, hvalid, hnodup,
      fun link hmem => (hjoins link hmem).1, honce, fun component hcomponent input hinput => ?_⟩
    have hkey := hall component hcomponent input hinput
    rw [hlinked, List.append_nil, List.mem_reverse] at hkey
    exact hkey
  · intro h
    obtain ⟨hname, hne, hvalid, hnodup, hwired⟩ := h
    have hcomponents : checkComponents host [] system.components = .ok () :=
      checkComponents_iff.mpr ⟨fun component hmem => ⟨hvalid component hmem, List.not_mem_nil⟩, hnodup⟩
    have hlinks : checkLinks system.components [] system.links =
        .ok ((system.links.map Link.key).reverse ++ []) :=
      (checkLinks_eq_ok (hunambiguous hvalid hnodup)).mpr
        ⟨fun link hmem => ⟨hwired.joins link hmem, List.not_mem_nil⟩, hwired.once, rfl⟩
    refine bind_eq_ok.mpr ⟨(), require_eq_ok.mpr hname, bind_eq_ok.mpr ⟨(), require_eq_ok.mpr hne,
      bind_eq_ok.mpr ⟨(), hcomponents, bind_eq_ok.mpr
        ⟨_, hlinks, require_eq_ok.mpr ((hmissing _).mpr ?_)⟩⟩⟩⟩
    intro component hcomponent input hinput
    rw [List.append_nil, List.mem_reverse]
    exact hwired.all component hcomponent input hinput

end Cyclo.Dcomp
