import Cyclo.Protocol.ModelIds
import Cyclo.Protocol.ModelMessage
import Cyclo.Results
import Cyclo.Team.Definition

/-! Whether the models that a team asks for are in the catalogue of the provider system, and can
drive the team's engine. -/
namespace Cyclo.Team.Compatibility
open Python Wire

/-- `_MAX_SAFE_INTEGER` -/
def maxSafeInteger : ℕ := 2 ^ 53 - 1

/-- `inference_format`, as the bundled `abi.json` has it. -/
def inferenceFormat : List CodePoint := codePoints "pi-ai@0.84.0"

def digitsValue (digits : List CodePoint) : ℕ :=
  digits.foldl (fun value c => 10 * value + (c.val - 0x30)) 0

/-- `_positive_token_limit` -/
def positiveTokenLimit : Option Value → Bool
  | some (.str value) =>
    value ≠ [] && value.all ModelIds.isDigit && value.length ≤ 16 && 0 < digitsValue value &&
      digitsValue value ≤ maxSafeInteger
  | _ => false

def isText : Value → Bool
  | .str modality => modality = codePoints "MODALITY_TEXT"
  | _ => false

def isImage : Value → Bool
  | .str modality => modality = codePoints "MODALITY_IMAGE"
  | _ => false

def inputsSupported : Option Value → Bool
  | some (.list inputs) => inputs.any isText && inputs.all fun modality => isText modality ||
    isImage modality
  | _ => false

/-- `value == ["MODALITY_TEXT"]` -/
def outputsSupported : Option Value → Bool
  | some (.list [modality]) => isText modality
  | _ => false

/-- `mapping.get(key, []) == []` -/
def isEmptyList : Option Value → Bool
  | none => true
  | some (.list values) => values.isEmpty
  | _ => false

/-- `split_public_model_id(value) is not None` -/
def isPublicModelId : Option Value → Bool
  | some (.str value) => (ModelIds.splitPublicModelId value).isSome
  | _ => false

def isInferenceFormat : Option Value → Bool
  | some (.str value) => value = inferenceFormat
  | _ => false

def isDisplayName : Option Value → Bool
  | none => true
  | some .null => true
  | some (.str _) => true
  | _ => false

def modelIncompatibility (model : Dict) : String :=
  if !isPublicModelId (model.lookup "id") then "invalid provider/model route"
  else if !isInferenceFormat (model.lookup "inferenceFormat") then "unsupported inference format"
  else
    match model.lookup "capabilities" with
    | some (.dict capabilities) =>
      if !inputsSupported (capabilities.lookup "inputModalities") then "unsupported input modalities"
      else if !outputsSupported (capabilities.lookup "outputModalities") then
        "unsupported output modalities"
      else if !isEmptyList (capabilities.lookup "extensionTypes") ||
        !isEmptyList (model.lookup "extensions") then "unsupported catalogue extensions"
      else if !isDisplayName (model.lookup "displayName") then "invalid display name"
      else if !positiveTokenLimit (model.lookup "contextWindowTokens") then
        "missing usable context-window limit"
      else if !positiveTokenLimit (model.lookup "maxOutputTokens") then
        "missing usable output-token limit"
      else ""
    | _ => "invalid capabilities"

/-- Why a team cannot run with a catalogue. -/
inductive ModelRefusal where
  | invalidCatalogue
  | unavailable (agent model : List Char)
  | incompatible (agent model engine : List Char) (reason : String)

/-- An entry of the dictionary of models; what has no identifier is passed over. -/
def modelEntry : Value → Option (List CodePoint × Dict)
  | .dict model =>
    match model.lookup "id" with
    | some (.str id) => some (id, model)
    | _ => none
  | _ => none

/-- The entry that was made last counts. -/
def modelNamed (models : List Value) (id : List CodePoint) : Option Dict :=
  (models.filterMap modelEntry).reverse.lookup id

def checkAgent (models : List Value) (agent : Agent) : Except ModelRefusal Unit :=
  match modelNamed models (agent.model.map codePoint) with
  | none => .error (.unavailable agent.name agent.model)
  | some model =>
    if modelIncompatibility model ≠ "" then
      .error (.incompatible agent.name agent.model agent.engine (modelIncompatibility model))
    else .ok ()

def validatePiTeamModels (team : Team) (catalogue : Dict) : Except ModelRefusal Unit :=
  match catalogue.lookup "models" with
  | some (.list models) => team.agents.forM (checkAgent models)
  | _ => .error .invalidCatalogue

/-- `list_models`, of what the call has returned. -/
def listModels (result : Dict) : Dict :=
  if (result.lookup "models").isSome then result else result ++ [("models", .list [])]

/-- A model that the engine can be driven with. -/
structure Drives (m : ModelMessage) : Prop where
  id : (Protocol.splitPublicModelId m.id).isSome = true
  inferenceFormat : fromUtf16 m.inferenceFormat = inferenceFormat
  capabilities : ∃ c, m.capabilities = some c ∧ 1 ∈ c.inputModalities ∧
    (∀ i ∈ c.inputModalities, i = 1 ∨ i = 2) ∧ c.outputModalities = [1] ∧ c.extensionTypes = []
  extensions : m.extensions = []
  contextWindow : ∃ n, m.contextWindowTokens = some n ∧ 0 < n ∧ n ≤ maxSafeInteger
  maxOutput : ∃ n, m.maxOutputTokens = some n ∧ 0 < n ∧ n ≤ maxSafeInteger

theorem isDigit_digitPoint {d : ℕ} (h : d < 10) : ModelIds.isDigit (digitPoint d) = true := by
  have hval : (digitPoint d).val = 0x30 + d := Nat.mod_eq_of_lt (by omega)
  unfold ModelIds.isDigit
  rw [hval, Bool.and_eq_true, decide_eq_true_iff, decide_eq_true_iff]
  omega

theorem digitsValue_map {digits : List ℕ} (h : ∀ d ∈ digits, d < 10) :
    digitsValue (digits.reverse.map digitPoint) = Nat.ofDigits 10 digits := by
  unfold digitsValue
  induction digits with
  | nil => rfl
  | cons d digits ih =>
    obtain ⟨hd, hdigits⟩ := List.forall_mem_cons.mp h
    have hval : (digitPoint d).val = 0x30 + d := Nat.mod_eq_of_lt (by omega)
    rw [List.reverse_cons, List.map_append, List.foldl_append, ih hdigits, Nat.ofDigits_cons]
    change 10 * Nat.ofDigits 10 digits + ((digitPoint d).val - 0x30) = _
    rw [hval]
    omega

/-- The host reads a limit back, and finds it usable where it is positive and not too large. -/
theorem positiveTokenLimit_decimal (n : ℕ) :
    positiveTokenLimit (some (.str (decimalPoints n))) = decide (0 < n ∧ n ≤ maxSafeInteger) := by
  by_cases hzero : n = 0
  · rw [hzero]
    decide +kernel
  have hdigits : ∀ d ∈ Nat.digits 10 n, d < 10 := fun d hd => Nat.digits_lt_base (by decide) hd
  have hpoints : decimalPoints n = (Nat.digits 10 n).reverse.map digitPoint := if_neg hzero
  have hvalue : digitsValue (decimalPoints n) = n := by
    rw [hpoints, digitsValue_map hdigits, Nat.ofDigits_digits]
  have hall : (decimalPoints n).all ModelIds.isDigit = true := by
    rw [hpoints, List.all_eq_true]
    intro c hc
    obtain ⟨d, hd, hsame⟩ := List.mem_map.mp hc
    rw [← hsame]
    exact isDigit_digitPoint (hdigits d (List.mem_reverse.mp hd))
  have hlength : (decimalPoints n).length = (Nat.digits 10 n).length := by
    rw [hpoints, List.length_map, List.length_reverse]
  have hne : decimalPoints n ≠ [] := by
    intro hnil
    rw [hnil] at hvalue
    exact hzero hvalue.symm
  rw [Bool.eq_iff_iff, decide_eq_true_iff]
  unfold positiveTokenLimit
  simp only [Bool.and_eq_true, decide_eq_true_iff, hvalue, hall, hlength]
  constructor
  · intro h
    exact ⟨h.1.2, h.2⟩
  · intro h
    have hbound : n < 10 ^ 16 := lt_of_le_of_lt h.2 (by decide +kernel)
    exact ⟨⟨⟨⟨hne, trivial⟩, (Nat.digits_length_le_iff (by decide) n).mpr hbound⟩, h.1⟩, h.2⟩

theorem toJson_id (m : ModelMessage) :
    m.toJson.lookup "id" = if m.id = [] then none else some (.str (fromUtf16 m.id)) := by
  simp [ModelMessage.toJson, List.lookup_append]

theorem toJson_displayName (m : ModelMessage) : m.toJson.lookup "displayName" =
    if m.displayName = [] then none else some (.str (fromUtf16 m.displayName)) := by
  simp [ModelMessage.toJson, List.lookup_append]

theorem toJson_capabilities (m : ModelMessage) :
    m.toJson.lookup "capabilities" = m.capabilities.map fun capabilities =>
      .dict capabilities.toJson := by
  simp [ModelMessage.toJson, List.lookup_append]

theorem toJson_contextWindowTokens (m : ModelMessage) :
    m.toJson.lookup "contextWindowTokens" = m.contextWindowTokens.map fun n =>
      .str (decimalPoints n) := by
  simp [ModelMessage.toJson, List.lookup_append]

theorem toJson_maxOutputTokens (m : ModelMessage) :
    m.toJson.lookup "maxOutputTokens" = m.maxOutputTokens.map fun n => .str (decimalPoints n) := by
  simp [ModelMessage.toJson, List.lookup_append]

theorem toJson_extensions (m : ModelMessage) : m.toJson.lookup "extensions" =
    if m.extensions = [] then none else some (.list m.extensions) := by
  simp [ModelMessage.toJson, List.lookup_append]

theorem toJson_inferenceFormat (m : ModelMessage) : m.toJson.lookup "inferenceFormat" =
    if m.inferenceFormat = [] then none else some (.str (fromUtf16 m.inferenceFormat)) := by
  simp [ModelMessage.toJson, List.lookup_append]

section
variable (c : CapabilitiesMessage)

theorem toJson_inputModalities : c.toJson.lookup "inputModalities" =
    if c.inputModalities = [] then none else some (.list (c.inputModalities.map modalityJson)) := by
  simp [CapabilitiesMessage.toJson, List.lookup_append]

theorem toJson_outputModalities : c.toJson.lookup "outputModalities" =
    if c.outputModalities = [] then none else some (.list (c.outputModalities.map modalityJson)) := by
  simp [CapabilitiesMessage.toJson, List.lookup_append]

theorem toJson_extensionTypes : c.toJson.lookup "extensionTypes" =
    if c.extensionTypes = [] then none
    else some (.list (c.extensionTypes.map fun name => .str (fromUtf16 name))) := by
  simp [CapabilitiesMessage.toJson, List.lookup_append]

end

theorem isText_modalityJson (modality : ℕ) :
    isText (modalityJson modality) = decide (modality = 1) := by
  match modality with
  | 0 => decide +kernel
  | 1 => decide +kernel
  | 2 => decide +kernel
  | 3 => decide +kernel
  | 4 => decide +kernel
  | n + 5 => exact (decide_eq_false (by omega)).symm

theorem isImage_modalityJson (modality : ℕ) :
    isImage (modalityJson modality) = decide (modality = 2) := by
  match modality with
  | 0 => decide +kernel
  | 1 => decide +kernel
  | 2 => decide +kernel
  | 3 => decide +kernel
  | 4 => decide +kernel
  | n + 5 => exact (decide_eq_false (by omega)).symm

theorem inputsSupported_toJson (c : CapabilitiesMessage) :
    inputsSupported (c.toJson.lookup "inputModalities") = true ↔
      1 ∈ c.inputModalities ∧ ∀ i ∈ c.inputModalities, i = 1 ∨ i = 2 := by
  rw [toJson_inputModalities]
  by_cases hnone : c.inputModalities = []
  · rw [if_pos hnone, hnone]
    exact iff_of_false (fun h => by cases h) fun h => List.not_mem_nil h.1
  · rw [if_neg hnone]
    simp [inputsSupported, isText_modalityJson, isImage_modalityJson]

theorem outputsSupported_toJson (c : CapabilitiesMessage) :
    outputsSupported (c.toJson.lookup "outputModalities") = true ↔ c.outputModalities = [1] := by
  rw [toJson_outputModalities]
  match houtputs : c.outputModalities with
  | [] => exact iff_of_false (fun h => by cases h) fun h => by cases h
  | [modality] =>
    rw [if_neg (List.cons_ne_nil _ _)]
    simp [outputsSupported, isText_modalityJson]
  | first :: second :: rest => exact iff_of_false (fun h => by cases h) fun h => by cases h

theorem isPublicModelId_toJson (m : ModelMessage) :
    isPublicModelId (m.toJson.lookup "id") = (Protocol.splitPublicModelId m.id).isSome := by
  rw [toJson_id]
  by_cases hnone : m.id = []
  · rw [if_pos hnone, hnone]
    rfl
  · rw [if_neg hnone]
    have hsplit := ModelIds.splitPublicModelId_utf16 (fromUtf16 m.id)
    rw [utf16_fromUtf16] at hsplit
    rw [hsplit, Option.isSome_map]
    rfl

theorem isInferenceFormat_toJson (m : ModelMessage) :
    isInferenceFormat (m.toJson.lookup "inferenceFormat") = true ↔
      fromUtf16 m.inferenceFormat = inferenceFormat := by
  rw [toJson_inferenceFormat]
  by_cases hnone : m.inferenceFormat = []
  · rw [if_pos hnone, hnone]
    exact iff_of_false (fun h => by cases h) (by decide +kernel)
  · rw [if_neg hnone]
    exact decide_eq_true_iff

theorem isDisplayName_toJson (m : ModelMessage) :
    isDisplayName (m.toJson.lookup "displayName") = true := by
  rw [toJson_displayName]
  split_ifs
  · rfl
  · rfl

theorem isEmptyList_toJson (m : ModelMessage) :
    isEmptyList (m.toJson.lookup "extensions") = true ↔ m.extensions = [] := by
  rw [toJson_extensions]
  split_ifs with hnone
  · exact iff_of_true rfl hnone
  · exact List.isEmpty_iff

theorem isEmptyList_extensionTypes (c : CapabilitiesMessage) :
    isEmptyList (c.toJson.lookup "extensionTypes") = true ↔ c.extensionTypes = [] := by
  rw [toJson_extensionTypes]
  split_ifs with hnone
  · exact iff_of_true rfl hnone
  · exact List.isEmpty_iff.trans List.map_eq_nil_iff

theorem positiveTokenLimit_map (limit : Option ℕ) :
    positiveTokenLimit (limit.map fun n => .str (decimalPoints n)) = true ↔
      ∃ n, limit = some n ∧ 0 < n ∧ n ≤ maxSafeInteger := by
  cases limit with
  | none => exact iff_of_false (fun h => by cases h) fun h => by cases h.choose_spec.1
  | some n =>
    rw [Option.map_some, positiveTokenLimit_decimal, decide_eq_true_iff]
    exact ⟨fun h => ⟨n, rfl, h⟩, fun h => by
      obtain ⟨other, hsame, hlimit⟩ := h
      cases hsame
      exact hlimit⟩

theorem unless_eq_nil {refused : Bool} {reason rest : String} (h : reason ≠ "") :
    (if refused = true then reason else rest) = "" ↔ refused = false ∧ rest = "" := by
  cases refused with
  | false => exact (and_iff_right rfl).symm
  | true => exact iff_of_false h fun hrefused => by cases hrefused.1

/-- The host finds nothing against a model exactly where the engine can be driven with it. -/
theorem modelIncompatibility_toJson (m : ModelMessage) : modelIncompatibility m.toJson = "" ↔
    Drives m := by
  unfold modelIncompatibility
  rw [unless_eq_nil (by decide), unless_eq_nil (by decide), toJson_capabilities,
    isPublicModelId_toJson]
  rw [Bool.not_eq_false', Bool.not_eq_false', isInferenceFormat_toJson]
  cases hcapabilities : m.capabilities with
  | none =>
    have hreason : "invalid capabilities" ≠ "" := by decide
    refine iff_of_false (fun h => hreason h.2.2) fun h => ?_
    obtain ⟨c, hc, _⟩ := h.capabilities
    rw [hcapabilities] at hc
    cases hc
  | some c =>
    dsimp only [Option.map_some]
    rw [unless_eq_nil (by decide), unless_eq_nil (by decide), unless_eq_nil (by decide),
      unless_eq_nil (by decide), unless_eq_nil (by decide), unless_eq_nil (by decide),
      Bool.or_eq_false_iff, toJson_contextWindowTokens, toJson_maxOutputTokens]
    simp only [Bool.not_eq_false', inputsSupported_toJson, outputsSupported_toJson, isEmptyList_toJson,
      isEmptyList_extensionTypes, isDisplayName_toJson, positiveTokenLimit_map]
    constructor
    · intro h
      obtain ⟨hid, hformat, ⟨htext, hinputs⟩, houtputs, ⟨htypes, hextensions⟩, _,
        hcontext, houtput, _⟩ := h
      exact ⟨hid, hformat, ⟨c, hcapabilities, htext, hinputs, houtputs, htypes⟩, hextensions,
        hcontext, houtput⟩
    · intro h
      obtain ⟨other, hother, htext, hinputs, houtputs, htypes⟩ := h.capabilities
      rw [hcapabilities] at hother
      cases hother
      exact ⟨h.id, h.inferenceFormat, ⟨htext, hinputs⟩, houtputs, ⟨htypes, h.extensions⟩,
        trivial, h.contextWindow, h.maxOutput, trivial⟩

/-- The host looks a model up by what its identifier spells. -/
theorem modelNamed_eq_some {models : List ModelMessage} {id : List CodePoint} {model : Dict}
    (h : modelNamed (models.map fun m => .dict m.toJson) id = some model) :
    ∃ m ∈ models, fromUtf16 m.id = id ∧ model = m.toJson := by
  obtain ⟨before, after, hentries, _⟩ := List.lookup_eq_some_iff.mp h
  have hmem : (id, model) ∈ (models.map fun m => Value.dict m.toJson).filterMap modelEntry := by
    rw [← List.mem_reverse, hentries]
    exact List.mem_append_right _ List.mem_cons_self
  obtain ⟨value, hvalue, hentry⟩ := List.mem_filterMap.mp hmem
  obtain ⟨m, hm, hsame⟩ := List.mem_map.mp hvalue
  rw [← hsame] at hentry
  dsimp only [modelEntry] at hentry
  rw [toJson_id] at hentry
  by_cases hnone : m.id = []
  · rw [if_pos hnone] at hentry
    cases hentry
  · rw [if_neg hnone] at hentry
    cases hentry
    exact ⟨m, hm, rfl, rfl⟩

theorem modelNamed_isSome {models : List ModelMessage} {m : ModelMessage} (hm : m ∈ models)
    (hid : m.id ≠ []) : (modelNamed (models.map fun m => .dict m.toJson) (fromUtf16 m.id)).isSome =
      true := by
  unfold modelNamed
  cases hlookup : ((models.map fun m => Value.dict m.toJson).filterMap modelEntry).reverse.lookup
    (fromUtf16 m.id) with
  | some model => rfl
  | none =>
    have hentry : modelEntry (.dict m.toJson) = some (fromUtf16 m.id, m.toJson) := by
      dsimp only [modelEntry]
      rw [toJson_id, if_neg hid]
    have hmem : (fromUtf16 m.id, m.toJson) ∈
        ((models.map fun m => Value.dict m.toJson).filterMap modelEntry).reverse :=
      List.mem_reverse.mpr (List.mem_filterMap.mpr ⟨_, List.mem_map_of_mem hm, hentry⟩)
    have hne := List.lookup_eq_none_iff.mp hlookup _ hmem
    exact absurd rfl (bne_iff_ne.mp hne)

theorem listModels_responseJson (models : List ModelMessage) :
    (listModels (responseJson models)).lookup "models" =
      some (.list (models.map fun m => .dict m.toJson)) := by
  unfold listModels responseJson
  cases models with
  | nil => rfl
  | cons m models =>
    have hlookup : (listField "models" ((m :: models).map fun m => .dict m.toJson)).lookup "models" =
        some (.list ((m :: models).map fun m => .dict m.toJson)) := by
      rw [lookup_listField, if_pos ⟨rfl, List.cons_ne_nil _ _⟩]
    rw [hlookup]
    exact hlookup

/-- Where every model of a catalogue can drive the engine, a team can run exactly if the catalogue
has the models of all its agents. -/
theorem validatePiTeamModels_eq_ok {models : List ModelMessage} (hdrives : ∀ m ∈ models, Drives m)
    (team : Team) : validatePiTeamModels team (listModels (responseJson models)) = .ok () ↔
      ∀ agent ∈ team.agents, agent.model.map codePoint ∈ models.map fun m => fromUtf16 m.id := by
  unfold validatePiTeamModels
  rw [listModels_responseJson]
  dsimp only
  rw [forM_eq_ok]
  refine forall₂_congr fun agent _ => ?_
  unfold checkAgent
  cases hnamed : modelNamed (models.map fun m => .dict m.toJson) (agent.model.map codePoint) with
  | none =>
    refine iff_of_false (fun h => by cases h) fun h => ?_
    obtain ⟨m, hm, hid⟩ := List.mem_map.mp h
    have hne : m.id ≠ [] := by
      intro hnil
      have hvalid := (hdrives m hm).id
      rw [hnil] at hvalid
      cases hvalid
    have hsome := modelNamed_isSome hm hne
    rw [hid, hnamed] at hsome
    cases hsome
  | some model =>
    obtain ⟨m, hm, hid, hmodel⟩ := modelNamed_eq_some hnamed
    have hcompatible : modelIncompatibility model = "" := by
      rw [hmodel]
      exact (modelIncompatibility_toJson m).mpr (hdrives m hm)
    dsimp only
    rw [if_neg (not_not.mpr hcompatible)]
    exact iff_of_true rfl (List.mem_map.mpr ⟨m, hm, hid⟩)

end Cyclo.Team.Compatibility
