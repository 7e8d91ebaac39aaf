import Cyclo.Js.JsonText
import Cyclo.Pooler.Catalogue
import Mathlib.Data.List.TakeWhile

/-! The command line of the pooler: the models or the providers that it pools, and the name of the
virtual model. -/
namespace Cyclo.Pooler
open Js Protocol

/-- What a `TypeError` says. -/
abbrev Complaint := Str

/-- A value that has to pass a check. -/
def checked (accepts : Str → Bool) (value label : Str) : Except Complaint Str :=
  if accepts value then .ok value else .error (lit "invalid " ++ label ++ lit ": " ++ Json.quote value)

def localModelId (value label : Str) : Except Complaint Str := checked isLocalModelId value label

def providerPrefix (value label : Str) : Except Complaint Str := checked isProviderPrefix value label

def publicModelId (value label : Str) : Except Complaint Str :=
  if (splitPublicModelId value).isSome then .ok value
  else
    match splitAtSlash value with
    | none => .error (label ++ lit " must be PROVIDER/MODEL")
    | some (provider, model) => do
      let _ ← providerPrefix provider (label ++ lit " provider")
      let _ ← localModelId model (label ++ lit " local model")
      return value

def isParameterUnit (c : CodeUnit) : Bool := isLower c || Str.isDigit c || c = 0x5f || c = 0x2d

/-- `/^([a-z][a-z0-9_-]*)=/u`: the name of a parameter, and what stands after the equals sign. -/
def parameter : Str → Option (Str × Str)
  | [] => none
  | c :: rest =>
    match rest.dropWhile isParameterUnit with
    | [] => none
    | equals :: value =>
      if isLower c ∧ equals = 0x3d then some (c :: rest.takeWhile isParameterUnit, value) else none

structure Arguments where
  members : List Str
  outputModel : Option Str
  sawParameter : Bool

def parseArgument (found : Arguments) (argument : Str) : Except Complaint Arguments :=
  match parameter argument with
  | some (key, value) =>
    if key ≠ lit "model" then .error (lit "unknown pooler parameter: " ++ Json.quote key)
    else if found.outputModel.isSome then .error (lit "duplicate pooler parameter: model")
    else do
      let outputModel ← localModelId value (lit "output model")
      .ok { found with outputModel := some outputModel, sawParameter := true }
  | none =>
    if found.sawParameter then .error (lit "all pool members must precede pooler parameters")
    else .ok { found with members := found.members ++ [argument] }

def configOf (found : Arguments) : Except Complaint Config :=
  let modelMemberCount := found.members.countP fun member => (0x2f : CodeUnit) ∈ member
  if found.members.length < 2 then .error (lit "pooler requires at least two members")
  else if modelMemberCount = 0 then do
    let memberProviders ← found.members.mapM fun provider =>
        providerPrefix provider (lit "member provider")
    if ¬ memberProviders.Nodup then .error (lit "pooler member providers must be distinct")
    else if found.outputModel.isSome then
      .error (lit "model=<output-model> is only valid with member model IDs")
    else .ok ⟨some memberProviders, none, none⟩
  else if modelMemberCount ≠ found.members.length then
    .error (lit "pooler cannot mix member providers and member model IDs")
  else do
    let memberModelIds ← found.members.mapM fun id => publicModelId id (lit "member model ID")
    if ¬ memberModelIds.Nodup then .error (lit "pooler member model IDs must be distinct")
    else
      match found.outputModel with
      | none => .error (lit "pooler requires model=<output-model>")
      | some outputModel => .ok ⟨none, some memberModelIds, some outputModel⟩

def parseArguments (argv : List Str) : Except Complaint Config := do
  configOf (← argv.foldlM parseArgument ⟨[], none, false⟩)

variable {value key model label : Str}

theorem checked_eq_ok {accepts : Str → Bool} {v : Str} :
    checked accepts value label = .ok v ↔ accepts value = true ∧ value = v := by
  unfold checked
  split_ifs with h
  · exact ⟨fun hok => ⟨h, Except.ok.inj hok⟩, fun hv => congrArg Except.ok hv.2⟩
  · exact iff_of_false (fun hok => by cases hok) fun hv => h hv.1

/-- The second look at the parts of an identifier only finds out what to say. -/
theorem publicModelId_eq_ok {v : Str} :
    publicModelId value label = .ok v ↔ (splitPublicModelId value).isSome = true ∧ value = v := by
  unfold publicModelId
  split_ifs with h
  · exact ⟨fun hok => ⟨h, Except.ok.inj hok⟩, fun hv => congrArg Except.ok hv.2⟩
  · refine iff_of_false (fun hok => ?_) fun hv => h hv.1
    cases hsplit : splitAtSlash value with
    | none =>
      rw [hsplit] at hok
      cases hok
    | some parts =>
      obtain ⟨provider, model⟩ := parts
      rw [hsplit] at hok
      obtain ⟨_, hprovider, hok⟩ := bind_eq_ok.mp hok
      obtain ⟨_, hmodel, _⟩ := bind_eq_ok.mp hok
      apply h
      unfold splitPublicModelId
      rw [hsplit]
      dsimp only
      rw [(checked_eq_ok.mp hprovider).1, (checked_eq_ok.mp hmodel).1]
      rfl

theorem mapM_checked {check : Str → Except Complaint Str} {p : Str → Prop}
    (hcheck : ∀ value v, check value = .ok v ↔ p value ∧ value = v) {values found : List Str} :
    values.mapM check = .ok found ↔ (∀ value ∈ values, p value) ∧ values = found := by
  rw [mapM_eq_ok]
  simp only [hcheck]
  rw [List.forall₂_and_left]
  exact and_congr_right fun _ => iff_of_eq (congrFun (congrFun List.forall₂_eq_eq_eq values) found)

theorem parameter_eq_some (h : parameter value = some (key, model)) :
    value = key ++ 0x3d :: model ∧ ∀ c ∈ key, isParameterUnit c = true := by
  cases value with
  | nil => cases h
  | cons c rest =>
    dsimp only [parameter] at h
    have hjoin : rest.takeWhile isParameterUnit ++ rest.dropWhile isParameterUnit = rest :=
      List.takeWhile_append_dropWhile
    cases hdrop : rest.dropWhile isParameterUnit with
    | nil =>
      rw [hdrop] at h
      cases h
    | cons equals after =>
      rw [hdrop] at h hjoin
      dsimp only at h
      split_ifs at h with hparameter
      obtain ⟨hlower, hequals⟩ := hparameter
      cases h
      constructor
      · rw [← hequals, List.cons_append, hjoin]
      · intro d hd
        rcases List.mem_cons.mp hd with hfirst | hlater
        · rw [hfirst]
          unfold isParameterUnit
          rw [hlower]
          rfl
        · exact List.mem_takeWhile_imp hlater

theorem parameter_model (value : Str) : parameter (lit "model=" ++ value) =
    some (lit "model", value) := by
  have hname : lit "model=" = [0x6d, 0x6f, 0x64, 0x65, 0x6c, 0x3d] := by decide +kernel
  have hkey : lit "model" = [0x6d, 0x6f, 0x64, 0x65, 0x6c] := by decide +kernel
  rw [hname, hkey]
  rfl

theorem eq_of_parameter_model (h : parameter value = some (lit "model", model)) :
    value = lit "model=" ++ model := by
  have hname : lit "model=" = lit "model" ++ [0x3d] := by decide +kernel
  rw [(parameter_eq_some h).1, hname, List.append_assoc]
  rfl

theorem equals_not_mem (h : isProviderPrefix value = true) : (0x3d : CodeUnit) ∉ value := by
  rw [isProviderPrefix, Bool.and_eq_true, Bool.and_eq_true] at h
  cases value with
  | nil => exact List.not_mem_nil
  | cons c rest =>
    have hmatch := h.1.2
    rw [matchesProviderPrefix, Bool.and_eq_true, List.all_eq_true] at hmatch
    intro hmem
    rcases List.mem_cons.mp hmem with he | hmem
    · rw [← he] at hmatch
      exact absurd hmatch.1 (by decide)
    · exact absurd (hmatch.2 _ hmem) (by decide)

theorem parameter_of_prefix (h : isProviderPrefix value = true) : parameter value = none := by
  cases hparameter : parameter value with
  | none => rfl
  | some found =>
    obtain ⟨hvalue, _⟩ := parameter_eq_some hparameter
    have hmem : (0x3d : CodeUnit) ∈ value := by
      rw [hvalue]
      exact List.mem_append_right _ List.mem_cons_self
    exact (equals_not_mem h hmem).elim

/-- No member model is taken for a parameter: the slash comes before any equals sign. -/
theorem parameter_of_modelId (h : (splitPublicModelId value).isSome = true) :
    parameter value = none := by
  obtain ⟨provider, name, hsplit, hprovider, _⟩ := isSome_splitPublicModelId h
  cases hparameter : parameter value with
  | none => rfl
  | some found =>
    obtain ⟨key, after⟩ := found
    obtain ⟨hvalue, hkey⟩ := parameter_eq_some hparameter
    rw [splitAtSlash_eq_some hsplit] at hvalue
    rcases List.append_eq_append_iff.mp hvalue with ⟨more, hmore, hrest⟩ | ⟨more, hmore, hrest⟩
    · cases more with
      | nil => cases hrest
      | cons c more =>
        have hslash : (0x2f : CodeUnit) ∈ key := by
          rw [hmore, ← (List.cons.inj hrest).1]
          exact List.mem_append_right _ List.mem_cons_self
        exact absurd (hkey _ hslash) (by decide)
    · cases more with
      | nil => cases hrest
      | cons c more =>
        have hequals : (0x3d : CodeUnit) ∈ provider := by
          rw [hmore, ← (List.cons.inj hrest).1]
          exact List.mem_append_right _ List.mem_cons_self
        exact (equals_not_mem hprovider hequals).elim

theorem parseArgument_member {found : Arguments} (h : parameter value = none)
    (hsaw : found.sawParameter = false) :
    parseArgument found value = .ok { found with members := found.members ++ [value] } := by
  unfold parseArgument
  rw [h, hsaw]
  rfl

theorem collect_members {argv members : List Str} (h : ∀ argument ∈ argv, parameter argument = none) :
    argv.foldlM parseArgument ⟨members, none, false⟩ = .ok ⟨members ++ argv, none, false⟩ := by
  induction argv generalizing members with
  | nil =>
    rw [List.append_nil]
    rfl
  | cons argument argv ih =>
    obtain ⟨hargument, hothers⟩ := List.forall_mem_cons.mp h
    rw [List.foldlM_cons, parseArgument_member hargument rfl, ok_bind, ih hothers, List.append_assoc]
    rfl

/-- Nothing may follow a parameter. -/
theorem collect_after {argv members : List Str} {result : Arguments}
    (h : argv.foldlM parseArgument ⟨members, some model, true⟩ = .ok result) :
    argv = [] ∧ result = ⟨members, some model, true⟩ := by
  cases argv with
  | nil =>
    cases h
    exact ⟨rfl, rfl⟩
  | cons argument argv =>
    rw [List.foldlM_cons] at h
    obtain ⟨found, hfound, _⟩ := bind_eq_ok.mp h
    unfold parseArgument at hfound
    cases hparameter : parameter argument with
    | none =>
      rw [hparameter] at hfound
      cases hfound
    | some parts =>
      obtain ⟨key, value⟩ := parts
      rw [hparameter] at hfound
      dsimp only at hfound
      split_ifs at hfound with hkey hsecond
      exact (hsecond rfl).elim

/-- The members stand first, and at most the name of the virtual model after them. -/
theorem collect_eq_ok {argv members : List Str} {result : Arguments} :
    argv.foldlM parseArgument ⟨members, none, false⟩ = .ok result ↔
      ∃ ids, (∀ argument ∈ ids, parameter argument = none) ∧
        (argv = ids ∧ result = ⟨members ++ ids, none, false⟩ ∨
          ∃ name, isLocalModelId name = true ∧ argv = ids ++ [lit "model=" ++ name] ∧
            result = ⟨members ++ ids, some name, true⟩) := by
  constructor
  · intro h
    induction argv generalizing members with
    | nil =>
      cases h
      refine ⟨[], List.forall_mem_nil _, Or.inl ⟨rfl, ?_⟩⟩
      rw [List.append_nil]
    | cons argument argv ih =>
      rw [List.foldlM_cons] at h
      obtain ⟨found, hfound, hrest⟩ := bind_eq_ok.mp h
      cases hparameter : parameter argument with
      | none =>
        rw [parseArgument_member hparameter rfl] at hfound
        cases hfound
        obtain ⟨ids, hids, hcases⟩ := ih hrest
        have hall : ∀ other ∈ argument :: ids, parameter other = none :=
          List.forall_mem_cons.mpr ⟨hparameter, hids⟩
        rw [List.append_assoc] at hcases
        refine ⟨argument :: ids, hall, ?_⟩
        rcases hcases with ⟨hargv, hresult⟩ | ⟨name, hname, hargv, hresult⟩
        · exact Or.inl ⟨congrArg (argument :: ·) hargv, hresult⟩
        · exact Or.inr ⟨name, hname, congrArg (argument :: ·) hargv, hresult⟩
      | some parts =>
        obtain ⟨key, value⟩ := parts
        unfold parseArgument at hfound
        rw [hparameter] at hfound
        dsimp only at hfound
        split_ifs at hfound with hkey
        · obtain ⟨name, hname, hok⟩ := bind_eq_ok.mp hfound
          obtain ⟨hlocal, hsame⟩ := checked_eq_ok.mp hname
          cases hok
          obtain ⟨hnone, hresult⟩ := collect_after hrest
          rw [not_not.mp hkey] at hparameter
          refine ⟨[], List.forall_mem_nil _, Or.inr ⟨name, ?_, ?_, ?_⟩⟩
          · rw [← hsame]
            exact hlocal
          · rw [hnone, eq_of_parameter_model hparameter, hsame]
            rfl
          · rw [hresult, List.append_nil]
  · intro h
    obtain ⟨ids, hids, hcases⟩ := h
    rcases hcases with ⟨hargv, hresult⟩ | ⟨name, hname, hargv, hresult⟩
    · rw [hargv, hresult]
      exact collect_members hids
    · rw [hargv, hresult, List.foldlM_append, collect_members hids, ok_bind, List.foldlM_cons]
      have hlast : parseArgument ⟨members ++ ids, none, false⟩ (lit "model=" ++ name) =
          .ok ⟨members ++ ids, some name, true⟩ := by
        unfold parseArgument
        rw [parameter_model]
        have hlocal : localModelId name (lit "output model") = .ok name :=
          checked_eq_ok.mpr ⟨hname, rfl⟩
        dsimp only
        rw [if_neg (not_not.mpr rfl), hlocal]
        rfl
      rw [hlast]
      rfl

/-- What a configuration has to be, by its mode. -/
def Mode.Valid : Mode → Prop
  | .providers memberProviders =>
    2 ≤ memberProviders.length ∧ (∀ provider ∈ memberProviders, isProviderPrefix provider = true) ∧
      memberProviders.Nodup
  | .models memberModelIds _ =>
    2 ≤ memberModelIds.length ∧ (∀ id ∈ memberModelIds, (splitPublicModelId id).isSome = true) ∧
    memberModelIds.Nodup

def Mode.config : Mode → Config
  | .providers memberProviders => ⟨some memberProviders, none, none⟩
  | .models memberModelIds outputModel => ⟨none, some memberModelIds, some outputModel⟩

def Mode.members : Mode → List Str
  | .providers memberProviders => memberProviders
  | .models memberModelIds _ => memberModelIds

/-- The command line of a configuration. -/
def Mode.arguments : Mode → List Str
  | .providers memberProviders => memberProviders
  | .models memberModelIds outputModel => memberModelIds ++ [lit "model=" ++ outputModel]

variable {mode : Mode} {config : Config}

theorem validatedConfig_eq_ok : validatedConfig config = .ok mode ↔
    mode.Valid ∧ config = mode.config := by
  obtain ⟨memberProviders, memberModelIds, outputModel⟩ := config
  constructor
  · intro h
    unfold validatedConfig at h
    cases memberModelIds with
    | none =>
      cases memberProviders with
      | none => cases h
      | some providers =>
        dsimp only at h
        split_ifs at h with hvalid
        obtain ⟨hlength, hall, hnodup, hnone⟩ := hvalid
        cases h
        exact ⟨⟨hlength, List.all_eq_true.mp hall, hnodup⟩, by rw [hnone]; rfl⟩
    | some ids =>
      cases memberProviders with
      | some providers => cases h
      | none =>
        cases outputModel with
        | none => cases h
        | some name =>
          dsimp only at h
          split_ifs at h with hvalid
          obtain ⟨hlength, hall, hnodup⟩ := hvalid
          cases h
          exact ⟨⟨hlength, List.all_eq_true.mp hall, hnodup⟩, rfl⟩
  · intro h
    obtain ⟨hvalid, hconfig⟩ := h
    rw [hconfig]
    cases mode with
    | providers providers =>
      obtain ⟨hlength, hall, hnodup⟩ := hvalid
      exact if_pos ⟨hlength, List.all_eq_true.mpr hall, hnodup, rfl⟩
    | models ids name =>
      obtain ⟨hlength, hall, hnodup⟩ := hvalid
      exact if_pos ⟨hlength, List.all_eq_true.mpr hall, hnodup⟩

theorem slash_mem (h : (splitPublicModelId value).isSome = true) : (0x2f : CodeUnit) ∈ value := by
  obtain ⟨provider, name, hsplit, _, _⟩ := isSome_splitPublicModelId h
  rw [splitAtSlash_eq_some hsplit]
  exact List.mem_append_right _ List.mem_cons_self

/-- The members decide which of the two kinds a configuration is of. -/
theorem configOf_eq_ok {found : Arguments} :
    configOf found = .ok config ↔
      ∃ mode : Mode, mode.Valid ∧ config = mode.config ∧ found.members = mode.members ∧
        found.outputModel = mode.config.outputModel := by
  constructor
  · intro h
    unfold configOf at h
    by_cases hlength : found.members.length < 2
    · rw [if_pos hlength] at h
      cases h
    rw [if_neg hlength] at h
    by_cases hcount : found.members.countP (fun member => decide ((0x2f : CodeUnit) ∈ member)) = 0
    · rw [if_pos hcount] at h
      obtain ⟨providers, hproviders, h⟩ := bind_eq_ok.mp h
      obtain ⟨hall, hsame⟩ := (mapM_checked fun _ _ => checked_eq_ok).mp hproviders
      split_ifs at h with hnodup hnamed
      cases h
      rw [hsame] at hlength hall
      have hnone : found.outputModel = none := Option.not_isSome_iff_eq_none.mp hnamed
      exact ⟨.providers providers, ⟨not_lt.mp hlength, hall, hnodup⟩, rfl, hsame, hnone⟩
    · rw [if_neg hcount] at h
      split_ifs at h
      obtain ⟨ids, hids, h⟩ := bind_eq_ok.mp h
      obtain ⟨hall, hsame⟩ := (mapM_checked fun _ _ => publicModelId_eq_ok).mp hids
      split_ifs at h with hnodup
      cases houtput : found.outputModel with
      | none =>
        rw [houtput] at h
        cases h
      | some name =>
        rw [houtput] at h
        cases h
        rw [hsame] at hlength hall
        exact ⟨.models ids name, ⟨not_lt.mp hlength, hall, hnodup⟩, rfl, hsame, rfl⟩
  · intro h
    obtain ⟨mode, hvalid, hconfig, hmembers, houtput⟩ := h
    rw [hconfig]
    unfold configOf
    cases mode with
    | providers providers =>
      obtain ⟨hlength, hall, hnodup⟩ := hvalid
      have hsame : found.members = providers := hmembers
      have hnamed : found.outputModel = none := houtput
      have hcount : providers.countP (fun member => decide ((0x2f : CodeUnit) ∈ member)) = 0 := by
        refine List.countP_eq_zero.mpr fun provider hprovider hslash => ?_
        exact slash_not_mem (hall provider hprovider) (of_decide_eq_true hslash)
      have hchecked : (providers.mapM fun provider =>
          providerPrefix provider (lit "member provider")) =
          .ok providers := (mapM_checked fun _ _ => checked_eq_ok).mpr ⟨hall, rfl⟩
      rw [hsame, hnamed, if_neg (not_lt.mpr hlength), if_pos hcount, hchecked, ok_bind,
        if_neg (not_not.mpr hnodup)]
      rfl
    | models ids name =>
      obtain ⟨hlength, hall, hnodup⟩ := hvalid
      have hsame : found.members = ids := hmembers
      have hnamed : found.outputModel = some name := houtput
      have hcount : ids.countP (fun member => decide ((0x2f : CodeUnit) ∈ member)) = ids.length :=
        List.countP_eq_length.mpr fun id hid => decide_eq_true (slash_mem (hall id hid))
      have hsome : ids.length ≠ 0 := by omega
      have hchecked : (ids.mapM fun id => publicModelId id (lit "member model ID")) = .ok ids :=
        (mapM_checked fun _ _ => publicModelId_eq_ok).mpr ⟨hall, rfl⟩
      rw [hsame, hnamed, if_neg (not_lt.mpr hlength), hcount, if_neg hsome,
        if_neg (not_not.mpr rfl), hchecked, ok_bind, if_neg (not_not.mpr hnodup)]
      rfl

theorem Mode.Valid.not_parameter (h : mode.Valid) :
    ∀ member ∈ mode.members, parameter member = none := by
  cases mode with
  | providers providers =>
    exact fun provider hprovider => parameter_of_prefix (h.2.1 provider hprovider)
  | models ids name => exact fun id hid => parameter_of_modelId (h.2.1 id hid)

/-- The command lines that are accepted are those of the configurations that a catalogue can be
composed with, and say the configuration that comes out. -/
theorem parseArguments_eq_ok {argv : List Str} :
    parseArguments argv = .ok config ↔ ∃ mode, validatedConfig config = .ok mode ∧
    argv = mode.arguments ∧
      ∀ name ∈ config.outputModel, isLocalModelId name = true := by
  unfold parseArguments
  rw [bind_eq_ok]
  constructor
  · intro h
    obtain ⟨found, hfound, hconfig⟩ := h
    obtain ⟨mode, hvalid, hsame, hmembers, houtput⟩ := configOf_eq_ok.mp hconfig
    obtain ⟨ids, _, hcases⟩ := collect_eq_ok.mp hfound
    refine ⟨mode, validatedConfig_eq_ok.mpr ⟨hvalid, hsame⟩, ?_⟩
    rw [hsame]
    rcases hcases with ⟨hargv, hresult⟩ | ⟨name, hname, hargv, hresult⟩
    · rw [hresult] at hmembers houtput
      cases mode with
      | providers providers => exact ⟨hargv.trans hmembers, fun name hname => by cases hname⟩
      | models memberModelIds outputModel => cases houtput
    · rw [hresult] at hmembers houtput
      cases mode with
      | providers providers => cases houtput
      | models memberModelIds outputModel =>
        have hids : ids = memberModelIds := hmembers
        have houtputModel : name = outputModel := Option.some.inj houtput
        rw [hids, houtputModel] at hargv
        refine ⟨hargv, fun other hother => ?_⟩
        rw [← Option.some.inj hother, ← houtputModel]
        exact hname
  · intro h
    obtain ⟨mode, hmode, hargv, hlocal⟩ := h
    obtain ⟨hvalid, hsame⟩ := validatedConfig_eq_ok.mp hmode
    rw [hsame] at hlocal
    rw [hargv, hsame]
    cases mode with
    | providers providers =>
      refine ⟨⟨providers, none, false⟩, collect_eq_ok.mpr ⟨providers, hvalid.not_parameter,
        Or.inl ⟨rfl, rfl⟩⟩, ?_⟩
      exact configOf_eq_ok.mpr ⟨.providers providers, hvalid, rfl, rfl, rfl⟩
    | models ids name =>
      have hname : isLocalModelId name = true := hlocal name rfl
      refine ⟨⟨ids, some name, true⟩,
        collect_eq_ok.mpr ⟨ids, hvalid.not_parameter, Or.inr ⟨name, hname, rfl, rfl⟩⟩, ?_⟩
      exact configOf_eq_ok.mpr ⟨.models ids name, hvalid, rfl, rfl, rfl⟩

end Cyclo.Pooler
