import Cyclo.HostConf.Definition

/-! What an accepted configuration guarantees: its names, its endpoints, its bindings and its
arguments. -/
namespace Cyclo.HostConf
open Python Dcomp

/-- A field of a line: not empty, without white space and control characters. -/
def Plain (field : String) : Prop :=
  field ≠ "" ∧ ∀ c ∈ field.toList, isSpace c = false ∧ isControl c = false

/-- A field is a token of a composition unless it has a number sign in it. -/
theorem Plain.isToken_iff {field : String} (h : Plain field) : isToken field = true ↔
    '#' ∉ field.toList := by
  obtain ⟨hne, hchars⟩ := h
  unfold isToken
  rw [Bool.and_eq_true, decide_eq_true_iff, and_iff_right hne, List.all_eq_true]
  constructor
  · intro hall hmem
    have hmark := hall '#' hmem
    exact absurd hmark (by decide)
  · intro hmark c hc
    obtain ⟨hspace, hcontrol⟩ := hchars c hc
    have hne : c ≠ '#' := fun he => hmark (he ▸ hc)
    unfold isControl at hcontrol
    rw [Bool.or_eq_false_iff, decide_eq_false_iff_not, decide_eq_false_iff_not, not_lt] at hcontrol
    simp only [hspace, hcontrol.1, hcontrol.2, hne, ne_eq, not_false_eq_true, decide_true,
      Bool.not_false, Bool.and_self]

theorem replaceCrlf_subset (text : List Char) : ∀ c ∈ replaceCrlf text, c ∈ text := by
  induction text using replaceCrlf.induct with
  | case1 => exact List.forall_mem_nil _
  | case2 text ih =>
    rw [replaceCrlf, List.forall_mem_cons]
    exact ⟨by simp, fun c hc => List.mem_cons_of_mem _ (List.mem_cons_of_mem _ (ih c hc))⟩
  | case3 c text hno ih =>
    rw [replaceCrlf, List.forall_mem_cons]
    · exact ⟨List.mem_cons_self, fun d hd => List.mem_cons_of_mem _ (ih d hd)⟩
    · exact hno

/-- No line of a text that is decoded has a control character. -/
theorem decodeText_lines {raw : List UInt8} {path : PurePath} {label : String} {text : List Char}
    (h : decodeText raw path label = .ok text) :
    ∀ line ∈ splitlines text, ∀ c ∈ line, isControl c = false := by
  unfold decodeText at h
  split at h
  · cases h
  · rename_i decoded hdecoded
    split_ifs at h with hcontrol
    cases h
    intro line hline c hc
    obtain ⟨hmem, hbreak⟩ := mem_splitlines hline c hc
    have hchar := List.any_eq_false.mp (Bool.eq_false_iff.mpr hcontrol) c
      (replaceCrlf_subset decoded c hmem)
    have hnewline : c ≠ '\n' := by
      intro he
      rw [he] at hbreak
      exact absurd hbreak (by decide)
    have hreturn : c ≠ '\r' := by
      intro he
      rw [he] at hbreak
      exact absurd hbreak (by decide)
    simpa [hnewline, hreturn] using hchar

theorem beforeComment_subset (line : List Char) : ∀ c ∈ beforeComment line, c ∈ line := by
  induction line with
  | nil => exact List.forall_mem_nil _
  | cons c rest ih =>
    unfold beforeComment
    split_ifs
    · exact List.forall_mem_nil _
    · rw [List.forall_mem_cons]
      exact ⟨List.mem_cons_self, fun d hd => List.mem_cons_of_mem _ (ih d hd)⟩

theorem fieldsOf_plain {line : List Char} (h : ∀ c ∈ line, isControl c = false) :
    ∀ field ∈ fieldsOf line, Plain field := by
  have hcontent : ∀ c ∈ contentOf line, c ∈ line := by
    intro c hc
    unfold contentOf at hc
    have hc := Text.strip_subset isSpace _ hc
    split_ifs at hc
    · cases hc
    · exact beforeComment_subset line c hc
  intro field hfield
  obtain ⟨word, hword, hsame⟩ := List.mem_map.mp hfield
  rw [← hsame]
  constructor
  · intro hempty
    have hnil : word = [] := by simpa using hempty
    exact Text.ne_nil_of_mem_words hword hnil
  · intro c hc
    rw [String.toList_ofList] at hc
    obtain ⟨hmem, hspace⟩ := Text.mem_words hword hc
    exact ⟨hspace, h c (hcontent c hmem)⟩

/-- Endpoints that a composition can declare, under names of their own. -/
structure Named (endpoints : List Endpoint) : Prop where
  valid : ∀ endpoint ∈ endpoints, endpoint.validate = .ok ()
  nodup : (endpoints.map Endpoint.name).Nodup

theorem named_nil : Named [] := ⟨List.forall_mem_nil _, List.nodup_nil⟩

theorem endpoint_valid {service name : String} (hservice : matchesService service = true)
    (hname : matchesName name = true) : (⟨service, name⟩ : Endpoint).validate = .ok () :=
  bind_eq_ok.mpr ⟨(), Dcomp.require_eq_ok.mpr hservice, Dcomp.require_eq_ok.mpr hname⟩

theorem endpointOf_named {path : PurePath} {directive : String} {selected endpoints : List Endpoint}
    {line : ℕ} {fields : List String} (hselected : Named selected)
    (h : endpointOf path directive selected line fields = .ok endpoints) : Named endpoints := by
  unfold endpointOf at h
  split at h
  · rename_i service name
    obtain ⟨_, hform, h⟩ := bind_eq_ok.mp h
    obtain ⟨_, hnew, h⟩ := bind_eq_ok.mp h
    cases h
    have hform := demand_eq_ok.mp hform
    have hnew := demand_eq_ok.mp hnew
    constructor
    · intro endpoint hendpoint
      rcases List.mem_append.mp hendpoint with hendpoint | hendpoint
      · exact hselected.valid endpoint hendpoint
      · rw [List.mem_singleton.mp hendpoint]
        exact endpoint_valid hform.1 hform.2
    · rw [List.map_append, List.nodup_append]
      refine ⟨hselected.nodup, List.nodup_singleton _, fun other hother last hlast he => hnew ?_⟩
      rw [List.map_singleton, List.mem_singleton] at hlast
      rw [he, hlast] at hother
      exact hother
  · cases h

structure Descriptor.Sound (found : Descriptor) : Prop where
  inputs : Named found.inputs
  outputs : Named found.outputs

theorem descriptorLine_sound {path : PurePath} {found next : Descriptor} {line : ℕ} {raw : List Char}
    (hfound : found.Sound) (h : descriptorLine path found line raw = .ok next) : next.Sound := by
  unfold descriptorLine at h
  split at h
  · cases h
    exact hfound
  · rename_i directive rest hfields
    split_ifs at h with hdocker hinput houtput
    · split at h
      · cases h
        exact ⟨hfound.inputs, hfound.outputs⟩
      · cases h
    · obtain ⟨endpoints, hendpoints, h⟩ := bind_eq_ok.mp h
      cases h
      exact ⟨endpointOf_named hfound.inputs hendpoints, hfound.outputs⟩
    · obtain ⟨endpoints, hendpoints, h⟩ := bind_eq_ok.mp h
      cases h
      exact ⟨hfound.inputs, endpointOf_named hfound.outputs hendpoints⟩

theorem descriptorLines_sound {path : PurePath} {lines : List (List Char)}
    {found result : Descriptor} {line : ℕ}
    (hfound : found.Sound) (h : descriptorLines path found line lines = .ok result) :
    result.Sound := by
  induction lines generalizing found line with
  | nil =>
    cases h
    exact hfound
  | cons raw rest ih =>
    obtain ⟨next, hnext, h⟩ := bind_eq_ok.mp h
    exact ih (descriptorLine_sound hfound hnext) h

/-- What the contract of a provider component has. -/
structure ComponentContract.Sound (contract : ComponentContract) : Prop where
  inputs : Named contract.inputs
  outputs : Named contract.outputs
  one : (providerOutputs contract.outputs).length = 1

theorem loadComponent_sound {machine : Machine} {path : PurePath} {contract : ComponentContract}
    (h : loadComponent machine path = .ok contract) : contract.Sound := by
  obtain ⟨_, -, h⟩ := bind_eq_ok.mp h
  obtain ⟨_, -, h⟩ := bind_eq_ok.mp h
  obtain ⟨found, hfound, h⟩ := bind_eq_ok.mp h
  have hsound := descriptorLines_sound ⟨named_nil, named_nil⟩ hfound
  split at h
  · cases h
  · obtain ⟨_, hone, h⟩ := bind_eq_ok.mp h
    cases h
    exact ⟨hsound.inputs, hsound.outputs, demand_eq_ok.mp hone⟩

/-- The provider output of a component, and where its contract has it. -/
theorem ComponentContract.Sound.output {contract : ComponentContract} (h : contract.Sound) :
    ∃ output, providerOutputs contract.outputs = [output] ∧
    ⟨providerService, output⟩ ∈ contract.outputs := by
  obtain ⟨output, houtput⟩ := List.length_eq_one_iff.mp h.one
  refine ⟨output, houtput, ?_⟩
  have hmem : output ∈ providerOutputs contract.outputs := by
    rw [houtput]
    exact List.mem_singleton_self output
  obtain ⟨endpoint, hendpoint, hname⟩ := List.mem_map.mp hmem
  obtain ⟨hmem, hservice⟩ := List.mem_filter.mp hendpoint
  have hsame : endpoint = ⟨providerService, output⟩ := by
    cases endpoint
    rw [← hname, ← of_decide_eq_true hservice]
  rw [← hsame]
  exact hmem

/-- What a terminal component listens on. -/
structure HostComponent.Sound (component : HostComponent) : Prop where
  name : component.name = "openai"
  bind : isToken component.bind = true
  port : 1 ≤ component.port ∧ component.port ≤ 65535

theorem ipv4Address_eq_some {value address : String} (h : ipv4Address value = some address) :
    address = value := by
  unfold ipv4Address at h
  split at h
  · split_ifs at h
    cases h
    rfl
  · cases h

/-- The settings keep to addresses that are fields of the line, and to ports. -/
structure Listening.Sound (listening : Listening) : Prop where
  bind : ∀ address, listening.bind = some address → address ≠ "" ∧
    ∀ c ∈ address.toList, isDigit c = true ∨ c = '.'
  port : ∀ port, listening.port = some port → 1 ≤ port ∧ port ≤ 65535

theorem octet_digits {text : List Char} (h : (octet text).isSome = true) :
    ∀ c ∈ text, isDigit c = true := by
  unfold octet at h
  split at h
  · rename_i hform
    exact List.all_eq_true.mp hform.2.1
  · cases h

theorem ipv4Address_chars {value address : String} (h : ipv4Address value = some address) :
    address ≠ "" ∧ ∀ c ∈ address.toList, isDigit c = true ∨ c = '.' := by
  rw [ipv4Address_eq_some h]
  unfold ipv4Address at h
  split at h
  · rename_i first second third fourth hsplit
    split_ifs at h with hparts
    have hdigits : ∀ piece ∈ value.toList.splitOn '.', ∀ c ∈ piece, isDigit c = true := by
      rw [hsplit]
      simp only [List.forall_mem_cons]
      exact ⟨octet_digits hparts.1, octet_digits hparts.2.1, octet_digits hparts.2.2.1,
        octet_digits hparts.2.2.2, List.forall_mem_nil _⟩
    constructor
    · intro hempty
      rw [hempty] at hsplit
      cases hsplit
    · intro c hc
      by_cases hdot : c = '.'
      · exact Or.inr hdot
      · left
        obtain ⟨word, hword, hmem⟩ := Text.exists_word (p := (· == '.')) hc (beq_false_of_ne hdot)
        exact hdigits word (List.mem_filter.mp hword).1 c hmem
  · cases h

theorem componentSetting_sound {machine : Machine} {line : ℕ} {listening next : Listening}
    {setting : String} (hlistening : listening.Sound)
    (h : componentSetting machine line listening setting = .ok next) : next.Sound := by
  unfold componentSetting at h
  dsimp only at h
  split_ifs at h with hbind hport
  · split at h
    · rename_i address haddress
      cases h
      refine ⟨fun found hfound => ?_, hlistening.port⟩
      cases hfound
      exact ipv4Address_chars haddress
    · cases h
  · split at h
    · rename_i port hread
      split_ifs at h with hrange
      cases h
      refine ⟨hlistening.bind, fun found hfound => ?_⟩
      cases hfound
      omega
    · cases h

theorem isToken_of_digits {value : String} (hne : value ≠ "")
    (h : ∀ c ∈ value.toList, isDigit c = true ∨ c = '.') : isToken value = true := by
  have hplain : Plain value := by
    refine ⟨hne, fun c hc => ?_⟩
    have hrange : 46 ≤ c.toNat ∧ c.toNat ≤ 57 := by
      rcases h c hc with hdigit | rfl
      · unfold isDigit at hdigit
        rw [Bool.and_eq_true, decide_eq_true_iff, decide_eq_true_iff] at hdigit
        have hlo : '0'.toNat ≤ c.toNat := hdigit.1
        have hhi : c.toNat ≤ '9'.toNat := hdigit.2
        have hzero : '0'.toNat = 48 := rfl
        have hnine : '9'.toNat = 57 := rfl
        omega
      · decide
    constructor
    · simp only [isSpace, Bool.or_eq_false_iff, Bool.and_eq_false_iff, decide_eq_false_iff_not]
      omega
    · simp only [isControl, Bool.or_eq_false_iff, decide_eq_false_iff_not]
      omega
  refine hplain.isToken_iff.mpr fun hmark => ?_
  rcases h '#' hmark with hdigit | hdot
  · exact absurd hdigit (by decide)
  · exact absurd hdot (by decide)

theorem hostComponent_sound {machine : Machine} {line : ℕ} {fields : List String}
    {component : HostComponent} (h : hostComponent machine line fields = .ok component) :
    component.Sound := by
  unfold hostComponent at h
  split at h
  · rename_i name settings
    obtain ⟨_, -, h⟩ := bind_eq_ok.mp h
    obtain ⟨listening, hlistening, h⟩ := bind_eq_ok.mp h
    cases h
    have hnone : Listening.Sound ⟨none, none⟩ := ⟨fun _ h => (by cases h), fun _ h => (by cases h)⟩
    have hsound : listening.Sound :=
      foldlM_invariant Listening.Sound (fun _ _ _ _ hb hnext => componentSetting_sound hb hnext)
        hnone hlistening
    have hdefault : isToken "127.0.0.1" = true := by decide
    have hport : 1 ≤ 8080 ∧ 8080 ≤ 65535 := by decide
    refine ⟨rfl, ?_, ?_⟩
    · cases hbind : listening.bind with
      | none => exact hdefault
      | some address =>
        obtain ⟨hne, hchars⟩ := hsound.bind address hbind
        exact isToken_of_digits hne hchars
    · cases hlistens : listening.port with
      | none => exact hport
      | some port => exact hsound.port port hlistens
  · cases h

structure Declaration.Sound (declaration : Declaration) : Prop where
  name : matchesName declaration.name = true
  contract : declaration.contract.Sound
  arguments : ∀ argument ∈ declaration.arguments, Plain argument

theorem providerLine_sound {machine : Machine} {selected : PurePath} {names : List String} {line : ℕ}
    {name token : String} {rest : List String} {declaration : Declaration}
    (hfields : ∀ field ∈ token :: rest, Plain field)
    (h : providerLine machine selected names line name token rest = .ok declaration) :
    declaration.Sound ∧ declaration.name = name ∧ name ∉ names := by
  obtain ⟨_, hname, h⟩ := bind_eq_ok.mp h
  obtain ⟨⟨source, context, bundled⟩, -, h⟩ := bind_eq_ok.mp h
  obtain ⟨contract, hcontract, h⟩ := bind_eq_ok.mp h
  obtain ⟨_, -, h⟩ := bind_eq_ok.mp h
  obtain ⟨⟨context', settings⟩, -, h⟩ := bind_eq_ok.mp h
  obtain ⟨_, -, h⟩ := bind_eq_ok.mp h
  cases h
  have hname := demand_eq_ok.mp hname
  refine ⟨⟨hname.1, loadComponent_sound hcontract, fun argument hargument => hfields argument ?_⟩,
    rfl, hname.2⟩
  exact List.dropWhile_subset _ (List.mem_of_mem_tail hargument)

/-- The names in use are those of the gateway, the providers and the terminal components. -/
structure Declared.Sound (declared : Declared) : Prop where
  nodup : declared.names.Nodup
  names : declared.names.Perm ("gateway" ::
    (declared.declarations.map Declaration.name ++ declared.components.map HostComponent.name))
  declarations : ∀ declaration ∈ declared.declarations, declaration.Sound
  components : ∀ component ∈ declared.components, component.Sound

theorem hostLine_sound {machine : Machine} {selected : PurePath} {declared next : Declared} {line : ℕ}
    {raw : List Char} (hraw : ∀ c ∈ raw, isControl c = false) (hdeclared : declared.Sound)
    (h : hostLine machine selected declared line raw = .ok next) : next.Sound := by
  have hplain := fieldsOf_plain hraw
  unfold hostLine at h
  split at h
  · cases h
    exact hdeclared
  rename_i directive rest hfields
  rw [hfields] at hplain
  split_ifs at h with hcomponent
  · obtain ⟨component, hhost, h⟩ := bind_eq_ok.mp h
    obtain ⟨_, hnew, h⟩ := bind_eq_ok.mp h
    cases h
    refine ⟨List.nodup_cons.mpr ⟨demand_eq_ok.mp hnew, hdeclared.nodup⟩, ?_,
      hdeclared.declarations, ?_⟩
    · have hperm := hdeclared.names.cons component.name
      refine hperm.trans ?_
      rw [List.map_append, List.map_singleton, ← List.append_assoc, ← List.cons_append]
      exact (List.perm_append_singleton _ _).symm
    · intro other hother
      rcases List.mem_append.mp hother with hother | hother
      · exact hdeclared.components other hother
      · rw [List.mem_singleton.mp hother]
        exact hostComponent_sound hhost
  · split at h
    · rename_i name token rest
      obtain ⟨declaration, hprovider, h⟩ := bind_eq_ok.mp h
      cases h
      have hrest : ∀ field ∈ token :: rest, Plain field := fun field hfield =>
        hplain field (List.mem_cons_of_mem _ (List.mem_cons_of_mem _ hfield))
      obtain ⟨hsound, hname, hnew⟩ := providerLine_sound hrest hprovider
      refine ⟨List.nodup_cons.mpr ⟨hnew, hdeclared.nodup⟩, ?_, ?_, hdeclared.components⟩
      · refine (hdeclared.names.cons name).trans ?_
        rw [List.map_append, List.map_singleton, hname, List.append_assoc, List.singleton_append,
          ← List.cons_append, ← List.cons_append]
        exact List.perm_middle.symm
      · intro other hother
        rcases List.mem_append.mp hother with hother | hother
        · exact hdeclared.declarations other hother
        · rw [List.mem_singleton.mp hother]
          exact hsound
    · cases h

theorem hostLines_sound {machine : Machine} {selected : PurePath} {lines : List (List Char)}
    {declared result : Declared} {line : ℕ} (hlines : ∀ raw ∈ lines, ∀ c ∈ raw, isControl c = false)
    (hdeclared : declared.Sound) (h : hostLines machine selected declared line lines = .ok result) :
    result.Sound := by
  induction lines generalizing declared line with
  | nil =>
    cases h
    exact hdeclared
  | cons raw rest ih =>
    obtain ⟨next, hnext, h⟩ := bind_eq_ok.mp h
    rw [List.forall_mem_cons] at hlines
    exact ih hlines.2 (hostLine_sound hlines.1 hdeclared hnext) h

/-- A binding gives an input an output of its service. -/
structure Bound (outputs : List ((String × String) × String)) (inputs : List Endpoint)
    (binding : Binding) : Prop where
  names : matchesName binding.component = true ∧ matchesName binding.output = true
  service : ∃ input ∈ inputs, input.name = binding.input ∧
    ((binding.component, binding.output), input.service) ∈ outputs

theorem mem_of_lookup {α β : Type} [BEq α] [LawfulBEq α] {entries : List (α × β)} {key : α} {value : β}
    (h : entries.lookup key = some value) : (key, value) ∈ entries := by
  induction entries with
  | nil => cases h
  | cons entry entries ih =>
    obtain ⟨first, rest⟩ := entry
    rw [List.lookup_cons] at h
    by_cases hkey : key = first
    · rw [beq_iff_eq.mpr hkey] at h
      cases h
      rw [hkey]
      exact List.mem_cons_self
    · rw [beq_false_of_ne hkey] at h
      exact List.mem_cons_of_mem _ (ih h)

theorem bindSetting_sound {outputs : List ((String × String) × String)} {declaration : Declaration}
    {bindings next : List Binding} {setting : String}
    (hbindings : (bindings.map Binding.input).Nodup ∧
      ∀ binding ∈ bindings, Bound outputs declaration.contract.inputs binding)
    (h : bindSetting outputs declaration bindings setting = .ok next) :
    (next.map Binding.input).Nodup ∧ ∀ binding ∈ next,
    Bound outputs declaration.contract.inputs binding := by
  unfold bindSetting at h
  dsimp only at h
  split at h
  · cases h
  · rename_i expected hexpected
    obtain ⟨_, hform, h⟩ := bind_eq_ok.mp h
    split at h
    · cases h
    · rename_i service hservice
      obtain ⟨_, hsame, h⟩ := bind_eq_ok.mp h
      cases h
      obtain ⟨-, -, hnew, hcomponent, houtput⟩ := demand_eq_ok.mp hform
      have hsame := demand_eq_ok.mp hsame
      have hname := List.find?_some hexpected
      have hfound := List.mem_reverse.mp (mem_of_lookup hservice)
      rw [hsame] at hfound
      constructor
      · rw [List.map_append, List.nodup_append]
        refine ⟨hbindings.1, List.nodup_singleton _, fun other hother last hlast he => hnew ?_⟩
        rw [List.map_singleton, List.mem_singleton] at hlast
        rw [he, hlast] at hother
        exact hother
      · intro binding hbinding
        rcases List.mem_append.mp hbinding with hbinding | hbinding
        · exact hbindings.2 binding hbinding
        · rw [List.mem_singleton.mp hbinding]
          exact ⟨⟨hcomponent, houtput⟩, expected, List.mem_of_find?_eq_some hexpected,
            of_decide_eq_true hname, hfound⟩
  
/-- What a provider of an accepted configuration has. -/
structure Provider.Sound (outputs : List ((String × String) × String)) (provider : Provider) :
    Prop where
  name : matchesName provider.name = true
  contract : provider.contract.Sound
  arguments : ∀ argument ∈ provider.arguments, Plain argument
  once : (provider.bindings.map Binding.input).Nodup
  bound : ∀ binding ∈ provider.bindings, Bound outputs provider.contract.inputs binding
  all : ∀ input ∈ provider.contract.inputs, input.name ∈ provider.bindings.map Binding.input

theorem bindProvider_sound {outputs : List ((String × String) × String)} {declaration : Declaration}
    {provider : Provider} (hdeclaration : declaration.Sound)
    (h : bindProvider outputs declaration = .ok provider) :
    provider.Sound outputs ∧ provider.name = declaration.name ∧
    provider.contract = declaration.contract := by
  obtain ⟨bindings, hbindings, h⟩ := bind_eq_ok.mp h
  obtain ⟨_, hmissing, h⟩ := bind_eq_ok.mp h
  cases h
  let Sound (bindings : List Binding) : Prop := (bindings.map Binding.input).Nodup ∧
    ∀ binding ∈ bindings, Bound outputs declaration.contract.inputs binding
  have hnone : Sound [] := ⟨List.nodup_nil, List.forall_mem_nil _⟩
  have hsound : Sound bindings :=
    foldlM_invariant Sound (fun _ _ _ _ hb hnext => bindSetting_sound hb hnext) hnone hbindings
  have hperm := sortedBy_perm Binding.input bindings
  have hmissing := List.filter_eq_nil_iff.mp (demand_eq_ok.mp hmissing)
  refine ⟨⟨hdeclaration.name, hdeclaration.contract, hdeclaration.arguments, ?_, ?_, ?_⟩, rfl, rfl⟩
  · exact (hperm.map _).nodup_iff.mpr hsound.1
  · exact fun binding hbinding => hsound.2 binding (hperm.mem_iff.mp hbinding)
  · intro input hinput
    have hfound := hmissing input.name (List.mem_map_of_mem hinput)
    rw [decide_eq_true_iff, not_not] at hfound
    exact (hperm.map _).mem_iff.mpr hfound

/-- What an accepted configuration guarantees: names are unique, and every input of every provider
is bound exactly once, to an output of its service that the gateway or a provider has. -/
structure Host.Sound (host : Host) : Prop where
  names : ("gateway" :: (host.providers.map Provider.name ++
    host.components.map HostComponent.name)).Nodup
  components : ∀ component ∈ host.components, component.Sound
  providers : ∀ provider ∈ host.providers, matchesName provider.name = true ∧ provider.contract.Sound ∧
    ∀ argument ∈ provider.arguments, Plain argument
  once : ∀ provider ∈ host.providers, (provider.bindings.map Binding.input).Nodup
  all : ∀ provider ∈ host.providers, ∀ input ∈ provider.contract.inputs,
    input.name ∈ provider.bindings.map Binding.input
  bound : ∀ provider ∈ host.providers, ∀ binding ∈ provider.bindings,
    matchesName binding.component = true ∧ matchesName binding.output = true ∧
      ∃ input ∈ provider.contract.inputs, input.name = binding.input ∧
        (binding.component = "gateway" ∧ binding.output = "provider" ∧
          input.service = providerService ∨ ∃ other ∈ host.providers,
          other.name = binding.component ∧
            ⟨input.service, binding.output⟩ ∈ other.contract.outputs)

theorem loadHost_sound {machine : Machine} {path : PurePath} {host : Host}
    (h : loadHost machine path = .ok host) : host.Sound := by
  unfold loadHost at h
  split at h
  · cases h
  obtain ⟨raw, -, h⟩ := bind_eq_ok.mp h
  obtain ⟨text, htext, h⟩ := bind_eq_ok.mp h
  obtain ⟨declared, hdeclared, h⟩ := bind_eq_ok.mp h
  obtain ⟨providers, hproviders, h⟩ := bind_eq_ok.mp h
  cases h
  have hstart : Declared.Sound ⟨[], [], ["gateway"]⟩ :=
    ⟨List.nodup_singleton _, List.Perm.refl _, List.forall_mem_nil _, List.forall_mem_nil _⟩
  have hsound := hostLines_sound (decodeText_lines htext) hstart hdeclared
  have hread := forall₂_imp_of_mem (mapM_eq_ok.mp hproviders) fun declaration hmem _ hprovider =>
    bindProvider_sound (hsound.declarations declaration hmem) hprovider
  have hnames : providers.map Provider.name = declared.declarations.map Declaration.name := by
    rw [← List.forall₂_eq_eq_eq, List.forall₂_map_left_iff, List.forall₂_map_right_iff]
    exact hread.flip.imp fun _ _ hprovider => hprovider.2.1
  have hback := (mem_of_forall₂ hread).1
  refine ⟨?_, hsound.components, fun provider hprovider => ?_, fun provider hprovider => ?_,
    fun provider hprovider => ?_, fun provider hprovider binding hbinding => ?_⟩
  · rw [hnames]
    exact hsound.names.nodup_iff.mp hsound.nodup
  · obtain ⟨_, -, hprovider, -⟩ := hback provider hprovider
    exact ⟨hprovider.name, hprovider.contract, hprovider.arguments⟩
  · obtain ⟨_, -, hprovider, -⟩ := hback provider hprovider
    exact hprovider.once
  · obtain ⟨_, -, hprovider, -⟩ := hback provider hprovider
    exact hprovider.all
  · obtain ⟨_, -, hprovider, -⟩ := hback provider hprovider
    obtain ⟨hbound, input, hinput, hname, hservice⟩ := hprovider.bound binding hbinding
    refine ⟨hbound.1, hbound.2, input, hinput, hname, ?_⟩
    unfold outputsOf at hservice
    rcases List.mem_cons.mp hservice with hgateway | hservice
    · left
      rw [Prod.mk.injEq, Prod.mk.injEq] at hgateway
      exact ⟨hgateway.1.1, hgateway.1.2, hgateway.2⟩
    · right
      obtain ⟨declaration, hdeclaration, hoffers⟩ := List.mem_flatMap.mp hservice
      obtain ⟨endpoint, hendpoint, hsame⟩ := List.mem_map.mp hoffers
      obtain ⟨other, hother, -, hothername, hcontract⟩ :=
        (mem_of_forall₂ hread).2 declaration hdeclaration
      rw [Prod.mk.injEq, Prod.mk.injEq] at hsame
      refine ⟨other, hother, hothername.trans hsame.1.1, ?_⟩
      rw [hcontract, ← hsame.2, ← hsame.1.2]
      exact hendpoint

end Cyclo.HostConf
