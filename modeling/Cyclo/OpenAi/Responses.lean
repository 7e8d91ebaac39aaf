import Cyclo.OpenAi.History
import Cyclo.Process.Stateful

/-! `OpenAIResponseState`: the events of a provider, translated to the events of a response. Clocks are
left out, and so are the fields of a response that repeat the request. -/
namespace Cyclo.OpenAi
open Js

/-- An `OpenAIUpstreamError`, or any other error. -/
inductive Failure where
  | upstream (message : Str)
  | other

/-- An item is completed from when it has its text, its summary or its arguments. -/
inductive Item where
  | message (id : Json) (phase : Option Str) (text : Option Str)
  | reasoning (id : Json) (encryptedContent : Option Json) (summary : Option Str)
  | functionCall (id callId name : Str) (arguments : Option Str)

inductive SlotKind where
  | text
  | thinking
  | toolCall
  deriving DecidableEq

namespace Item

def id : Item → Json
  | .message id _ _ => id
  | .reasoning id _ _ => id
  | .functionCall id _ _ _ => .str id

def kind : Item → SlotKind
  | .message _ _ _ => .text
  | .reasoning _ _ _ => .thinking
  | .functionCall _ _ _ _ => .toolCall

def completed : Item → Bool
  | .message _ _ text => text.isSome
  | .reasoning _ _ summary => summary.isSome
  | .functionCall _ _ _ arguments => arguments.isSome

end Item

/-- A slot is done when its item is completed. -/
structure Slot where
  contentIndex : ℕ
  outputIndex : ℕ
  item : Item
  buffer : Str

def Slot.done (slot : Slot) : Bool := slot.item.completed

inductive Status where
  | inProgress
  | completed
  | incomplete
  | failed
  deriving DecidableEq

structure Usage where
  inputTokens : Number
  cachedTokens : Number
  cacheWriteTokens : Number
  outputTokens : Number
  reasoningTokens : Number
  totalTokens : Number

structure Response where
  status : Status
  error : Option Str
  output : List Item
  outputText : Str
  usage : Option Usage

/-- What an event says of an item; the events of a message also name its only part. -/
inductive Progress where
  | contentPartAdded
  | textDelta (delta : Str)
  | textDone (text : Str)
  | contentPartDone (text : Str)
  | summaryPartAdded
  | summaryDelta (delta : Str)
  | summaryDone (text : Str)
  | summaryPartDone (text : Str)
  | argumentsDelta (delta : Str)
  | argumentsDone (name arguments : Str)

inductive Body where
  | created (response : Response)
  | inProgress (response : Response)
  | itemAdded (outputIndex : ℕ) (item : Item)
  | progress (outputIndex : ℕ) (itemId : Json) (progress : Progress)
  | itemDone (outputIndex : ℕ) (item : Item)
  | ended (response : Response)

structure Event where
  body : Body
  sequenceNumber : ℕ

structure State where
  includeEncryptedReasoning : Bool
  sequence : ℕ
  /-- How many ids have been made. -/
  ids : ℕ
  slots : List Slot
  started : Bool
  terminal : Bool
  failureEmitted : Bool
  usage : Option Usage
  outputText : Str

abbrev Encoding (α : Type) := Process.Stateful State Failure α

def State.response (s : State) (status : Status) (error : Option Str) : Response :=
  ⟨status, error, s.slots.map Slot.item, s.outputText, s.usage⟩

def event (body : Body) : Encoding Event := do
  let s ← get
  set { s with sequence := s.sequence + 1 }
  return ⟨body, s.sequence⟩

def upstream {α : Type} (message : String) : Except Failure α := .error (.upstream (lit message))

section
variable (idFactory : ℕ → Str → Str)

def newId (name : String) : Encoding Json := do
  let s ← get
  set { s with ids := s.ids + 1 }
  return .str (idFactory s.ids (lit name))

/-- `value?.[index]` -/
def elementAt (value : Option Json) (index : ℕ) : Option Json :=
  match value with
  | some (.arr items) => items[index]?
  | some (.obj entries) => entries.lookup (Json.naturalText index)
  | _ => none

/-- `value?.name` -/
def fieldOf (value : Option Json) (name : String) : Option Json := value.bind (Json.field (lit name))

/-- The value if it counts as true. -/
def truthy : Option Json → Option Json
  | some .null => none
  | some (.bool false) => none
  | some (.str []) => none
  | some (.num n) => if n = .nan ∨ n.isFinite ∧ n.value = 0 then none else some (.num n)
  | value => value

def contentIndex (event : Json) : Except Failure ℕ :=
  match event.field (lit "contentIndex") with
  | some (.num n) =>
    if n.isSafeInteger ∧ 0 ≤ n.value then .ok n.value.num.toNat
    else upstream "Pi event has an invalid content index"
  | _ => upstream "Pi event has an invalid content index"

mutual

/-- `isDeepStrictEqual` -/
def deepEqual : Json → Json → Bool
  | .null, .null => true
  | .bool a, .bool b => a = b
  | .num a, .num b => a = b
  | .str a, .str b => a = b
  | .arr items, .arr others => deepEqualItems items others
  | .obj entries, .obj others => entries.length = others.length && deepEqualEntries entries others
  | _, _ => false

def deepEqualItems : List Json → List Json → Bool
  | [], [] => true
  | item :: items, other :: others => deepEqual item other && deepEqualItems items others
  | _, _ => false

/-- Whether every entry is one of the others too. -/
def deepEqualEntries : List (Str × Json) → List (Str × Json) → Bool
  | [], _ => true
  | (key, value) :: entries, others =>
    (match others.lookup key with
      | some other => deepEqual value other
      | none => false) && deepEqualEntries entries others

end

structure TextSignature where
  id : Str
  phase : Option Str

def textSignatureParts : Option Json → Option TextSignature
  | some (.str (c :: rest)) =>
    let value := c :: rest
    let plain : TextSignature := ⟨value, none⟩
    if Str.startsWith value (lit "\x7b") then
      match Json.parse value with
      | none => some plain
      | some parsed =>
        match parsed.field (lit "v"), parsed.field (lit "id") with
        | some (.num (.finite 1)), some (.str id) =>
          let phase := parsed.field (lit "phase")
          some ⟨id, if oneOf ["commentary", "final_answer"] phase then phase.bind Json.asString
            else none⟩
        | _, _ => some plain
    else some plain
  | _ => none

/-- The signature of a reasoning item, of its own or of Pi. -/
structure ReasoningSignature where
  id : Option Json
  encryptedContent : Option Json

def reasoningSignature : Option Json → Option ReasoningSignature
  | some (.str (c :: rest)) =>
    let value := c :: rest
    let sealed : ReasoningSignature :=
      ⟨none, some (.str (opaquePiSignaturePrefix ++ Base64.encode Base64.url (Str.utf8 value)))⟩
    if Str.startsWith value (lit "\x7b") then
      match Json.parse value with
      | none => some sealed
      | some item =>
        if item.plainObject && oneOf ["reasoning"] (item.field (lit "type")) then
          some ⟨item.field (lit "id"), item.field (lit "encrypted_content")⟩
        else some sealed
    else some sealed
  | _ => none

theorem decodeOpaquePiSignature_sealed {chars : List Char} (hchars : chars ≠ [])
    (hmark : chars.head? ≠ some '\ufeff') (param : Str) : decodeOpaquePiSignature
      (some (.str (opaquePiSignaturePrefix ++
        Base64.encode Base64.url (Str.utf8 (chars.flatMap encodeUnit))))) param =
        .ok (some (chars.flatMap encodeUnit)) := by
  have hbytes : Str.utf8 (chars.flatMap encodeUnit) ≠ [] := by
    intro hnone
    rw [Str.utf8, Str.codePoints_flatMap, List.flatMap_eq_nil_iff] at hnone
    obtain ⟨c, hc⟩ := List.exists_mem_of_ne_nil chars hchars
    exact String.utf8EncodeChar_ne_nil (hnone c hc)
  have hhead : Str.startsWith (opaquePiSignaturePrefix ++
      Base64.encode Base64.url (Str.utf8 (chars.flatMap encodeUnit))) opaquePiSignaturePrefix = true :=
    Str.startsWith_iff.mpr (List.prefix_append _ _)
  unfold decodeOpaquePiSignature
  dsimp only
  rw [hhead, List.drop_left, Base64.decode_encode (Or.inr rfl), Str.decodeUtf8_flatMap hmark]
  have hdigits : (Base64.encode Base64.url (Str.utf8 (chars.flatMap encodeUnit))).all
      (fun c => Str.isWordUnit c || decide (c = 0x2d)) = true := Base64.encode_url_digits _
  have hsound : ¬(Base64.encode Base64.url (Str.utf8 (chars.flatMap encodeUnit)) = [] ∨
      true = false) :=
    not_or.mpr ⟨Base64.encode_ne_nil hbytes, Bool.true_eq_false_eq_False⟩
  rw [hdigits, if_neg hsound, if_neg (not_not_intro rfl)]
  rfl

/-- A signature that a response carries comes back with the item, unless it is a reasoning item
itself, whose own content is passed on. -/
theorem reasoningSignature_returns {chars : List Char} (hmark : chars.head? ≠ some '\ufeff')
    {signature : ReasoningSignature}
    (h : reasoningSignature (some (.str (chars.flatMap encodeUnit))) = some signature) (param : Str) :
    decodeOpaquePiSignature signature.encryptedContent param = .ok (some (chars.flatMap encodeUnit)) ∨
      ∃ item, Json.parse (chars.flatMap encodeUnit) = some item ∧ item.plainObject = true ∧
        oneOf ["reasoning"] (item.field (lit "type")) = true ∧
          signature = ⟨item.field (lit "id"), item.field (lit "encrypted_content")⟩ := by
  have hchars : chars ≠ [] := by
    rintro rfl
    cases h
  have hsealed := decodeOpaquePiSignature_sealed hchars hmark param
  generalize chars.flatMap encodeUnit = value at h hsealed ⊢
  unfold reasoningSignature at h
  split at h
  next c rest hvalue =>
    cases hvalue
    dsimp only at h
    split_ifs at h with hbrace
    · cases hparse : Json.parse (c :: rest) with
      | none =>
        rw [hparse] at h
        cases h
        exact Or.inl hsealed
      | some item =>
        rw [hparse] at h
        dsimp only at h
        split_ifs at h with hitem
        · cases h
          obtain ⟨hobject, htype⟩ := Bool.and_eq_true_iff.mp hitem
          exact Or.inr ⟨item, rfl, hobject, htype, rfl⟩
        · cases h
          exact Or.inl hsealed
    · cases h
      exact Or.inl hsealed
  next => cases h

def tokens : Option Json → Number
  | some (.num n) => if n.isSafeInteger ∧ 0 ≤ n.value then n else .finite 0
  | _ => .finite 0

def responseUsage (usage : Option Json) : Option Usage :=
  match usage with
  | some (.obj _) =>
    let input := tokens (fieldOf usage "input")
    let cacheRead := tokens (fieldOf usage "cacheRead")
    let cacheWrite := tokens (fieldOf usage "cacheWrite")
    let output := tokens (fieldOf usage "output")
    let total := tokens (fieldOf usage "totalTokens")
    some {
      inputTokens := (input.add cacheRead).add cacheWrite
      cachedTokens := cacheRead
      cacheWriteTokens := cacheWrite
      outputTokens := output
      reasoningTokens := tokens (fieldOf usage "reasoning")
      totalTokens := if total.value = 0 then ((input.add cacheRead).add cacheWrite).add output
        else total }
  | _ => none

def liftExcept {α : Type} : Except Failure α → Encoding α
  | .ok a => return a
  | .error failure => throw failure

def slotAt (slots : List Slot) (index : ℕ) : Option Slot :=
  slots.find? fun slot => slot.contentIndex = index

def requireNewSlot (index : ℕ) : Encoding Unit := do
  let s ← get
  liftExcept (if (slotAt s.slots index).isSome then upstream "Pi content started more than once"
    else .ok ())

def SlotKind.name : SlotKind → String
  | .text => "text"
  | .thinking => "thinking"
  | .toolCall => "toolCall"

/-- What messages call the content of a kind. -/
def SlotKind.content : SlotKind → String
  | .text => "text"
  | .thinking => "thinking"
  | .toolCall => "tool"

def activeSlot (slots : List Slot) (index : ℕ) (kind : SlotKind) : Except Failure Slot :=
  let missing := upstream ("Pi " ++ kind.name ++ " event has no active content slot")
  match slotAt slots index with
  | some slot => if slot.item.kind = kind ∧ slot.done = false then .ok slot else missing
  | none => missing

def requireSlot (index : ℕ) (kind : SlotKind) : Encoding Slot := do
  let s ← get
  liftExcept (activeSlot s.slots index kind)

def addSlot (index : ℕ) (item : Item) : Encoding Slot := do
  let s ← get
  let slot : Slot := ⟨index, s.slots.length, item, []⟩
  set { s with slots := s.slots ++ [slot] }
  return slot

/-- What is written to a slot is written to its item in the output. -/
def setSlot (slot : Slot) : Encoding Unit :=
  modify fun s => { s with slots := s.slots.set slot.outputIndex slot }

def progressOf (slot : Slot) (progress : Progress) : Encoding Event :=
  event (.progress slot.outputIndex slot.item.id progress)

def outputAdded (slot : Slot) : Encoding Event := event (.itemAdded slot.outputIndex slot.item)

def outputDone (slot : Slot) : Encoding Event := event (.itemDone slot.outputIndex slot.item)

def startText (index : ℕ) (block : Option Json) : Encoding (List Event) := do
  requireNewSlot index
  let signature := textSignatureParts (fieldOf block "textSignature")
  let id ←
    match signature.bind fun signature => truthy (some (.str signature.id)) with
    | some id => pure id
    | none => newId idFactory "msg"
  let slot ← addSlot index (.message id (signature.bind TextSignature.phase) none)
  return [← outputAdded slot, ← progressOf slot .contentPartAdded]

def startThinking (index : ℕ) (block : Option Json) : Encoding (List Event) := do
  requireNewSlot index
  let signature := reasoningSignature (fieldOf block "thinkingSignature")
  let id ←
    match truthy (signature.bind ReasoningSignature.id) with
    | some id => pure id
    | none => newId idFactory "rs"
  let encrypted := truthy (signature.bind ReasoningSignature.encryptedContent)
  let slot ← addSlot index
    (.reasoning id (if (← get).includeEncryptedReasoning then encrypted else none) none)
  return [← outputAdded slot, ← progressOf slot .summaryPartAdded]

/-- The deltas of texts and of summaries differ in their events only. -/
def deltaEvent : SlotKind → Str → Progress
  | .text => .textDelta
  | .thinking => .summaryDelta
  | .toolCall => .argumentsDelta

/-- A delta, once it is known to be text. -/
def extend (slot : Slot) (delta : Str) : Encoding (Slot × List Event) := do
  let extended := { slot with buffer := slot.buffer ++ delta }
  setSlot extended
  return (extended, [← progressOf extended (deltaEvent slot.item.kind delta)])

def delta (index : ℕ) (kind : SlotKind) (text : Option Json) : Encoding (List Event) := do
  let slot ← requireSlot index kind
  match text with
  | some (.str text) => return (← extend slot text).2
  | _ => liftExcept (upstream ("Pi " ++ kind.content ++ " delta is not a string"))

/-- What a text lacks that its slot has in part. -/
def missing (slot : Slot) (content : Option Json) : Except Failure Str :=
  match content with
  | some (.str text) =>
    if Str.startsWith text slot.buffer then .ok (text.drop slot.buffer.length)
    else upstream ("Pi " ++ slot.item.kind.content ++ " terminal disagrees with streamed deltas")
  | _ => upstream ("Pi " ++ slot.item.kind.content ++ " terminal is not a string")

/-- What is missing, unless nothing is. -/
def extendBy (slot : Slot) (text : Str) : Encoding (Slot × List Event) :=
  if text = [] then return (slot, []) else extend slot text

def finishText (slot : Slot) (block : Option Json) : Encoding (List Event) := do
  let signature := textSignatureParts (fieldOf block "textSignature")
  let finished := { slot with
    item :=
      match slot.item with
      | .message id phase _ =>
        .message id (((signature.bind TextSignature.phase)).or phase) (some slot.buffer)
      | item => item }
  setSlot finished
  modify fun s => { s with outputText := s.outputText ++ slot.buffer }
  return [← progressOf finished (.textDone slot.buffer),
    ← progressOf finished (.contentPartDone slot.buffer), ← outputDone finished]

def finishThinking (slot : Slot) (block : Option Json) : Encoding (List Event) := do
  let signature := reasoningSignature (fieldOf block "thinkingSignature")
  let encrypted := truthy (signature.bind ReasoningSignature.encryptedContent)
  let included := (← get).includeEncryptedReasoning
  let finished := { slot with
    item :=
      match slot.item with
      | .reasoning id old _ =>
        .reasoning id (if included then encrypted.or old else old) (some slot.buffer)
      | item => item }
  setSlot finished
  return [← progressOf finished (.summaryDone slot.buffer),
    ← progressOf finished (.summaryPartDone slot.buffer), ← outputDone finished]

def endText (index : ℕ) (content block : Option Json) : Encoding (List Event) := do
  let slot ← requireSlot index .text
  let rest ← liftExcept (missing slot content)
  let (slot, deltas) ← extendBy slot rest
  return deltas ++ (← finishText slot block)

def endThinking (index : ℕ) (content block : Option Json) : Encoding (List Event) := do
  let slot ← requireSlot index .thinking
  let rest ← liftExcept (missing slot content)
  let (slot, deltas) ← extendBy slot rest
  return deltas ++ (← finishThinking slot block)

structure ToolStart where
  ids : ToolCallIds
  name : Str

def toolStart (block : Option Json) : Except Failure ToolStart :=
  match block, fieldOf block "name" with
  | some (.obj _), some (.str (c :: name)) =>
    if oneOf ["toolCall"] (fieldOf block "type") then
      match toolCallIds (fieldOf block "id") with
      | some ids => .ok ⟨ids, c :: name⟩
      | none => upstream "Pi tool call has no identity"
    else upstream "Pi tool start is invalid"
  | _, _ => upstream "Pi tool start is invalid"

def startToolCall (index : ℕ) (block : Option Json) : Encoding (List Event) := do
  requireNewSlot index
  let start ← liftExcept (toolStart block)
  let id ←
    match start.ids.itemId with
    | some id => pure id
    | none => do
      let s ← get
      set { s with ids := s.ids + 1 }
      pure (idFactory s.ids (lit "fc"))
  let slot ← addSlot index (.functionCall id start.ids.callId start.name none)
  return [← outputAdded slot]

/-- The ids of a block are those of an item of a call. -/
def sameCall (ids : ToolCallIds) : Item → Bool
  | .functionCall id callId _ _ => ids.callId = callId && (ids.itemId.all fun itemId => itemId = id)
  | _ => false

def sameName (name : Str) : Item → Bool
  | .functionCall _ _ other _ => name = other
  | _ => false

/-- The arguments of a call as text: as they were streamed, if they were, else as they are written. -/
def argumentsText (buffer : Str) (arguments : Json) : Str :=
  match if buffer = [] then none else Json.parse buffer with
  | some parsed => if deepEqual parsed arguments then buffer else arguments.stringify
  | none => arguments.stringify

/-- The text of the arguments of a finished call, if its block is that of the slot. -/
def toolArguments (slot : Slot) (block : Option Json) : Except Failure Str :=
  match block, fieldOf block "arguments", fieldOf block "name" with
  | some (.obj _), some (.obj arguments), some (.str name) =>
    match toolCallIds (fieldOf block "id") with
    | none => upstream "Pi tool call has no identity"
    | some ids =>
      if sameCall ids slot.item = false then upstream "Pi tool call identity changed while streaming"
      else if name = [] ∨ sameName name slot.item = false then
        upstream "Pi tool call name changed while streaming"
      else
        let text := argumentsText slot.buffer (.obj arguments)
        if Str.startsWith text slot.buffer then .ok text
        else upstream "Pi tool terminal disagrees with streamed argument deltas"
  | _, _, _ => upstream "Pi tool terminal is invalid"

def endToolCall (index : ℕ) (block : Option Json) : Encoding (List Event) := do
  let slot ← requireSlot index .toolCall
  let text ← liftExcept (toolArguments slot block)
  let (slot, deltas) ← extendBy slot (text.drop slot.buffer.length)
  let finished := { slot with
    item :=
      match slot.item with
      | .functionCall id callId name _ => .functionCall id callId name (some text)
      | item => item }
  setSlot finished
  let name :=
    match slot.item with
    | .functionCall _ _ name _ => name
    | _ => []
  return deltas ++ [← progressOf finished (.argumentsDone name text), ← outputDone finished]

end
end Cyclo.OpenAi
