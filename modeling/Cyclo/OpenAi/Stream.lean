import Cyclo.OpenAi.Responses

/-! `streamOpenAIResponse`: the events of a response to all events of a provider. -/
namespace Cyclo.OpenAi
open Js

variable (idFactory : ℕ → Str → Str)

/-- `validateFinishedSlot` -/
def validateFinishedSlot (slot : Slot) (block : Json) : Except Failure Unit :=
  let field := fieldOf (some block)
  match slot.item with
  | .message _ _ _ =>
    if oneOf ["text"] (field "type") ∧ (field "text").bind Json.asString = some slot.buffer then .ok ()
    else upstream "Pi terminal changed completed text content"
  | .reasoning _ _ _ =>
    if oneOf ["thinking"] (field "type") ∧ (field "thinking").bind Json.asString =
      some slot.buffer then .ok ()
    else upstream "Pi terminal changed completed reasoning content"
  | .functionCall _ _ name arguments =>
    let same : Bool :=
      match field "arguments", arguments.bind Json.parse with
      | some given, some parsed => deepEqual given parsed
      | _, _ => false
    if oneOf ["toolCall"] (field "type") ∧ (field "name").bind Json.asString = some name ∧
      same = true then
      match toolCallIds (field "id") with
      | none => upstream "Pi tool call has no identity"
      | some ids =>
        if sameCall ids slot.item then .ok ()
        else upstream "Pi terminal changed a completed tool call identity"
    else upstream "Pi terminal changed a completed tool call"

def blockKind (block : Json) : Option SlotKind :=
  match fieldOf (some block) "type" with
  | some (.str type) =>
    if type = lit "text" then some .text
    else if type = lit "thinking" then some .thinking
    else if type = lit "toolCall" then some .toolCall
    else none
  | _ => none

/-- A block that has no slot yet gets one. -/
def startBlock (index : ℕ) (block : Json) : Encoding (List Event) :=
  match blockKind block with
  | some .text => startText idFactory index (some block)
  | some .thinking => startThinking idFactory index (some block)
  | some .toolCall => startToolCall idFactory index (some block)
  | none => liftExcept (upstream "Pi terminal contains unsupported content")

/-- The text of a block, without which `startsWith` raises. The delta that is then sent for what is
missing is the one that the end would send. -/
def blockText (block : Json) (name : String) : Except Failure (Option Json) :=
  match fieldOf (some block) name with
  | some (.str text) => .ok (some (.str text))
  | _ => .error .other

/-- A block whose slot is not done. -/
def endBlock (index : ℕ) (block : Json) (kind : SlotKind) : Encoding (List Event) :=
  match block with
  | .null => liftExcept (.error .other)
  | block =>
    if blockKind block = some kind then
      match kind with
      | .text => do endText index (← liftExcept (blockText block "text")) (some block)
      | .thinking => do endThinking index (← liftExcept (blockText block "thinking")) (some block)
      | .toolCall => endToolCall index (some block)
    else liftExcept (upstream "Pi terminal content changed type while streaming")

/-- One round of the loop of `reconcile`. -/
def reconcileBlock (index : ℕ) (block : Json) : Encoding (List Event) := do
  let started ← if (slotAt (← get).slots index).isNone then startBlock idFactory index block
      else pure []
  match slotAt (← get).slots index with
  | none => liftExcept (.error .other)
  | some slot =>
    if slot.done then
      liftExcept (validateFinishedSlot slot block)
      return started
    else return started ++ (← endBlock index block slot.item.kind)

def reconcileFrom (index : ℕ) : List Json → Encoding (List Event)
  | [] => return []
  | block :: rest => do
    let events ← reconcileBlock idFactory index block
    return events ++ (← reconcileFrom (index + 1) rest)

def contentOf (message : Json) : List Json :=
  match message.field (lit "content") with
  | some (.arr content) => content
  | _ => []

def reconcile (message : Json) : Encoding (List Event) := do
  let events ← reconcileFrom idFactory 0 (contentOf message)
  let s ← get
  if s.slots.length ≠ (contentOf message).length ∨ s.slots.any (fun slot => !slot.done) then
    liftExcept (upstream "Pi terminal omitted streamed content")
  else return events

/-- `safeErrorMessage` of a string. -/
def safeErrorString (value : Str) : Str := shown value 1024 (lit "Cyclo Provider inference failed")

def safeErrorMessage (value : Option Json) : Option Str :=
  match value with
  | none => some (safeErrorString (lit "Cyclo Provider inference failed"))
  | some .null => some (safeErrorString (lit "Cyclo Provider inference failed"))
  | some value => value.display.map safeErrorString

/-- What has no text raises. -/
def orRaise {α : Type} : Option α → Except Failure α
  | some value => .ok value
  | none => .error .other

def fail (message : Str) : Encoding (List Event) := do
  let s ← get
  if s.terminal && s.failureEmitted then return []
  else
    let failed := { s with terminal := true, failureEmitted := true }
    set failed
    return [← event (.ended (failed.response .failed (some (safeErrorString message))))]

def ended (status : Status) : Encoding Event := do
  let s ← get
  event (.ended (s.response status none))

def nullish (left right : Option Json) : Option Json := if absent left then right else left

def done (given : Json) : Encoding (List Event) :=
  match given.field (lit "message") with
  | some (.obj fields) => do
    let message := Json.obj fields
    let events ← reconcile idFactory message
    modify fun s => { s with usage := responseUsage (message.field (lit "usage")), terminal := true }
    let reason := nullish (given.field (lit "reason")) (message.field (lit "stopReason"))
    if oneOf ["deferred"] reason then
      return events ++ (← fail (lit "Deferred Pi responses are not supported"))
    else if oneOf ["length"] reason then return events ++ [← ended .incomplete]
    else if oneOf ["stop", "toolUse"] reason then return events ++ [← ended .completed]
    else
      let shown ← liftExcept (orRaise (safeValue reason))
      throw (.upstream (lit "Pi done event has invalid reason " ++ shown))
  | _ => liftExcept (upstream "Pi done event has no message")

def error (given : Json) : Encoding (List Event) := do
  let message :=
    match given.field (lit "error") with
    | some (.obj fields) => .obj fields
    | _ => .obj []
  let events ← reconcile idFactory message
  modify fun s => { s with usage := responseUsage (message.field (lit "usage")) }
  let shown ← liftExcept (orRaise (safeErrorMessage (message.field (lit "errorMessage"))))
  return events ++ (← fail shown)

/-- What the partial message of an event has at an index. -/
def partialBlock (given : Json) (index : ℕ) : Option Json :=
  elementAt (fieldOf (given.field (lit "partial")) "content") index

def accept (given : Json) : Encoding (List Event) := do
  let s ← get
  if s.terminal then liftExcept (upstream "Provider emitted an event after termination")
  else
    match given.field (lit "type") with
    | some (.str type) =>
      if type = lit "start" then
        if s.started then liftExcept (upstream "Provider emitted more than one Pi start event")
        else
          set { s with started := true }
          return []
      else if !s.started then liftExcept (upstream "Provider emitted Pi content before start")
      else if type = lit "done" then done idFactory given
      else if type = lit "error" then error idFactory given
      else if type ∈ ["text_start", "text_delta", "text_end", "thinking_start", "thinking_delta",
          "thinking_end", "toolcall_start", "toolcall_delta", "toolcall_end"].map lit then do
        let index ← liftExcept (contentIndex given)
        let block := partialBlock given index
        let delta' := given.field (lit "delta")
        let content := given.field (lit "content")
        if type = lit "text_start" then startText idFactory index block
        else if type = lit "text_delta" then delta index .text delta'
        else if type = lit "text_end" then endText index content block
        else if type = lit "thinking_start" then startThinking idFactory index block
        else if type = lit "thinking_delta" then delta index .thinking delta'
        else if type = lit "thinking_end" then endThinking index content block
        else if type = lit "toolcall_start" then startToolCall idFactory index block
        else if type = lit "toolcall_delta" then delta index .toolCall delta'
        else endToolCall index (given.field (lit "toolCall"))
      else
        throw (.upstream (lit "Provider emitted unsupported Pi event "
          ++ safeString type))
    | _ => liftExcept (upstream "Provider emitted an invalid Pi event")

/-- How the events of a provider end when no event is terminal. -/
inductive Ending where
  | finished
  | raised

def failureMessage : Failure → Str
  | .upstream message => message
  | .other => lit "Cyclo Provider stream failed"

/-- The events that `fail` emits. -/
def failed (message : Str) (s : State) : List Event :=
  match ((fail message).run s).1 with
  | .ok events => events
  | .error _ => []

/-- The events for what is left of a stream; a payload may be none that is decoded. -/
def pump (ending : Ending) : State → List (Option Json) → List Event
  | s, [] =>
    match ending with
    | .finished => failed (lit "Cyclo Provider ended without a terminal Pi event") s
    | .raised => failed (lit "Cyclo Provider stream failed") s
  | s, none :: _ => failed (lit "Provider returned an invalid Pi event payload") s
  | s, some given :: rest =>
    match (accept idFactory given).run s with
    | (.error failure, t) => failed (failureMessage failure) t
    | (.ok events, t) => if t.terminal then events else events ++ pump ending t rest

/-- A state before any event. -/
def State.initial (document : Json) : State where
  includeEncryptedReasoning :=
    match document.field (lit "include") with
    | some (.arr values) => values.any fun value => oneOf ["reasoning.encrypted_content"] (some value)
    | _ => false
  sequence := 0
  ids := 1
  slots := []
  started := false
  terminal := false
  failureEmitted := false
  usage := none
  outputText := []

/-- The events of a response, from the first event of the provider on. -/
def streamOpenAIResponse (document : Json) (given : List (Option Json)) (ending : Ending) :
    List Event :=
  let s := State.initial document
  let opened := s.response .inProgress none
  ⟨.created opened, 0⟩ :: ⟨.inProgress opened, 1⟩ :: pump idFactory ending
    { s with sequence := 2 } given

end Cyclo.OpenAi
