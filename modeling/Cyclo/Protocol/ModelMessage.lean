import Cyclo.Js.Utf8
import Cyclo.Python.CodePoints
import Mathlib.Data.Nat.Digits.Defs
import Mathlib.Data.Nat.Digits.Lemmas

/-! The models of a catalogue on their way to the host: the messages of `provider.proto` in the JSON
mapping of Protocol Buffers, and what `json.loads` makes of them. -/
namespace Cyclo.Wire
open Js Python

inductive Value where
  | null
  | bool (value : Bool)
  | number
  | str (value : List CodePoint)
  | list (values : List Value)
  | dict (entries : List (String × Value))

abbrev Dict := List (String × Value)

def unitPoint (c : CodeUnit) : CodePoint := ⟨c.toNat, lt_trans c.toNat_lt (by decide)⟩

def pairPoint (c d : CodeUnit) : CodePoint :=
  Fin.ofNat 0x110000 (0x10000 + (c.toNat - 0xd800) * 0x400 + (d.toNat - 0xdc00))

/-- A string of a JavaScript program as the host has it: pairs of surrogates are characters, others
stay. -/
def fromUtf16 : Str → List CodePoint
  | [] => []
  | [c] => [unitPoint c]
  | c :: d :: s =>
    if Str.isLeadSurrogate c && Str.isTrailSurrogate d then pairPoint c d :: fromUtf16 s
    else unitPoint c :: fromUtf16 (d :: s)

theorem utf16Units_unitPoint (c : CodeUnit) : utf16Units (unitPoint c) = [c] := by
  have hlt : (unitPoint c).val < 0x10000 := c.toNat_lt
  rw [utf16Units_of_lt hlt]
  exact congrArg (fun u => [u]) (UInt16.toNat_inj.mp (toNat_unit hlt))

theorem utf16Units_pairPoint {c d : CodeUnit} (hc : Str.isLeadSurrogate c = true)
    (hd : Str.isTrailSurrogate d = true) : utf16Units (pairPoint c d) = [c, d] := by
  unfold Str.isLeadSurrogate at hc
  unfold Str.isTrailSurrogate at hd
  rw [Bool.and_eq_true, decide_eq_true_iff, decide_eq_true_iff, UInt16.le_iff_toNat_le,
    UInt16.le_iff_toNat_le] at hc hd
  have hlow : (0xd800 : CodeUnit).toNat = 0xd800 := rfl
  have hhigh : (0xdbff : CodeUnit).toNat = 0xdbff := rfl
  have hlow' : (0xdc00 : CodeUnit).toNat = 0xdc00 := rfl
  have hhigh' : (0xdfff : CodeUnit).toNat = 0xdfff := rfl
  rw [hlow, hhigh] at hc
  rw [hlow', hhigh'] at hd
  have hval : (pairPoint c d).val = 0x10000 + (c.toNat - 0xd800) * 0x400 + (d.toNat - 0xdc00) :=
    Nat.mod_eq_of_lt (by omega)
  unfold utf16Units
  rw [hval, if_neg (by omega)]
  have hfirst : 0xd800 + (0x10000 + (c.toNat - 0xd800) * 0x400 + (d.toNat - 0xdc00) - 0x10000) /
      0x400 = c.toNat := by
    omega
  have hsecond : 0xdc00 + (0x10000 + (c.toNat - 0xd800) * 0x400 + (d.toNat - 0xdc00) - 0x10000) %
      0x400 = d.toNat := by
    omega
  rw [hfirst, hsecond]
  have hunit : ∀ u : CodeUnit, u.toNat.toUInt16 = u := fun u => UInt16.ofNat_toNat
  rw [hunit, hunit]

/-- Nothing of a string is lost on the way. -/
theorem utf16_fromUtf16 (s : Str) : utf16 (fromUtf16 s) = s := by
  fun_induction fromUtf16 s with
  | case1 => rfl
  | case2 c =>
    rw [utf16_cons, utf16Units_unitPoint]
    rfl
  | case3 c d s hpair ih =>
    rw [Bool.and_eq_true] at hpair
    rw [utf16_cons, utf16Units_pairPoint hpair.1 hpair.2, ih]
    rfl
  | case4 c d s _ ih =>
    rw [utf16_cons, utf16Units_unitPoint, ih]
    rfl

structure CapabilitiesMessage where
  inputModalities : List ℕ
  outputModalities : List ℕ
  functionTools : Bool
  parallelToolCalls : Bool
  reasoningSummaries : Bool
  temperature : Bool
  topP : Bool
  stopSequences : Bool
  extensionTypes : List Str
  reasoning : Bool
  deriving DecidableEq

/-- An extension is an `Any`, of which only its JSON is known. -/
structure ModelMessage where
  id : Str
  displayName : Str
  capabilities : Option CapabilitiesMessage
  contextWindowTokens : Option ℕ
  maxOutputTokens : Option ℕ
  extensions : List Value
  inferenceFormat : Str

/-- A field that is left out where it has the default value of its type. -/
def field (name : String) (isDefault : Bool) (value : Value) : Dict :=
  if isDefault then [] else [(name, value)]

def stringField (name : String) (value : Str) : Dict :=
  field name (value = []) (.str (fromUtf16 value))

def boolField (name : String) (value : Bool) : Dict := field name (!value) (.bool value)

def listField (name : String) (values : List Value) : Dict := field name values.isEmpty (.list values)

def digitPoint (d : ℕ) : CodePoint := Fin.ofNat 0x110000 (0x30 + d)

def decimalPoints (n : ℕ) : List CodePoint :=
  if n = 0 then [digitPoint 0] else (Nat.digits 10 n).reverse.map digitPoint

/-- A 64-bit integer is a string of its decimal digits. -/
def uint64Field (name : String) (value : Option ℕ) : Dict :=
  match value with
  | none => []
  | some n => [(name, .str (decimalPoints n))]

/-- `Modality` -/
def modalityNames : List String :=
  ["MODALITY_UNSPECIFIED", "MODALITY_TEXT", "MODALITY_IMAGE", "MODALITY_AUDIO", "MODALITY_DOCUMENT"]

/-- A value of an enumeration is its name, or a number if it has none. -/
def modalityJson (modality : ℕ) : Value :=
  match modalityNames[modality]? with
  | some name => .str (codePoints name)
  | none => .number

def CapabilitiesMessage.toJson (m : CapabilitiesMessage) : Dict :=
  listField "inputModalities" (m.inputModalities.map modalityJson) ++
    listField "outputModalities" (m.outputModalities.map modalityJson) ++
    boolField "functionTools" m.functionTools ++ boolField "parallelToolCalls" m.parallelToolCalls ++
    boolField "reasoningSummaries" m.reasoningSummaries ++ boolField "temperature" m.temperature ++
    boolField "topP" m.topP ++ boolField "stopSequences" m.stopSequences ++
    listField "extensionTypes" (m.extensionTypes.map fun name => .str (fromUtf16 name)) ++
    boolField "reasoning" m.reasoning

def capabilitiesField : Option CapabilitiesMessage → Dict
  | none => []
  | some capabilities => [("capabilities", .dict capabilities.toJson)]

def ModelMessage.toJson (m : ModelMessage) : Dict :=
  stringField "id" m.id ++ stringField "displayName" m.displayName ++
  capabilitiesField m.capabilities ++
    uint64Field "contextWindowTokens" m.contextWindowTokens ++
    uint64Field "maxOutputTokens" m.maxOutputTokens ++
    listField "extensions" m.extensions ++ stringField "inferenceFormat" m.inferenceFormat

/-- `ListModelsResponse` -/
def responseJson (models : List ModelMessage) : Dict :=
  listField "models" (models.map fun m => .dict m.toJson)

theorem lookup_single {name key : String} {value : Value} :
    [(name, value)].lookup key = if key = name then some value else none := by
  by_cases hkey : key = name
  · rw [hkey, if_pos rfl]
    exact List.lookup_cons_self
  · rw [if_neg hkey, List.lookup_cons, beq_false_of_ne hkey]
    rfl

theorem lookup_field {name key : String} {isDefault : Bool} {value : Value} :
    (field name isDefault value).lookup key = if key = name ∧ isDefault = false then
      some value else none := by
  cases isDefault with
  | true => exact (if_neg fun h => by cases h.2).symm
  | false =>
    change [(name, value)].lookup key = _
    rw [lookup_single]
    exact if_congr (and_iff_left rfl).symm rfl rfl

@[simp] theorem lookup_stringField {name key : String} {value : Str} :
    (stringField name value).lookup key =
    if key = name ∧ value ≠ [] then some (.str (fromUtf16 value)) else none := by
  simp [stringField, lookup_field]

@[simp] theorem lookup_boolField {name key : String} {value : Bool} :
    (boolField name value).lookup key =
    if key = name ∧ value = true then some (.bool value) else none := by
  simp [boolField, lookup_field]

@[simp] theorem lookup_listField {name key : String} {values : List Value} :
    (listField name values).lookup key =
    if key = name ∧ values ≠ [] then some (.list values) else none := by
  simp [listField, lookup_field]

@[simp] theorem lookup_uint64Field {name key : String} {value : Option ℕ} :
    (uint64Field name value).lookup key =
    if key = name then value.map fun n => .str (decimalPoints n) else none := by
  cases value with
  | none => exact (ite_self none).symm
  | some n => exact lookup_single

@[simp] theorem lookup_capabilitiesField {key : String} {value : Option CapabilitiesMessage} :
    (capabilitiesField value).lookup key =
      if key = "capabilities" then value.map fun capabilities => .dict capabilities.toJson
        else none := by
  cases value with
  | none => exact (ite_self none).symm
  | some capabilities => exact lookup_single

end Cyclo.Wire
