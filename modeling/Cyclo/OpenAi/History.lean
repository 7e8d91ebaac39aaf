import Cyclo.OpenAi.Options
import Cyclo.Js.Base64

/-! The input of a request to the OpenAI edge, translated to the messages of a Pi context. -/
namespace Cyclo.OpenAi
open Js

inductive Part where
  | text (text : Str)
  | image (mimeType data : Str)

/-- The content of a user message. -/
inductive Content where
  | text (text : Str)
  | parts (parts : List Part)

inductive Block where
  | text (text : Str) (textSignature : Option Str)
  | thinking (thinking thinkingSignature : Str)
  | toolCall (id name : Str) (arguments : Json)

inductive Message where
  | user (content : Content)
  | assistant (content : List Block)
  | toolResult (toolCallId toolName : Str) (content : List Part) (isError : Bool)

/-- The canonical unit of the flags `iu`: two units beyond ASCII stand for letters. -/
def foldUnit (c : CodeUnit) : CodeUnit :=
  if 0x41 ≤ c ∧ c ≤ 0x5a then c + 0x20
  else if c = 0x212a then 0x6b
  else if c = 0x17f then 0x73
  else c

/-- Whether a text begins with a literal, in any case. -/
def opensWith (s : Str) (p : String) : Bool := (s.map foldUnit).take p.length = lit p

def isMimeUnit (c : CodeUnit) : Bool :=
  let c := foldUnit c
  (0x61 ≤ c && c ≤ 0x7a) || Str.isDigit c || c = 0x2e || c = 0x2b || c = 0x2d

def isBase64Unit (c : CodeUnit) : Bool :=
  let c := foldUnit c
  (0x61 ≤ c && c ≤ 0x7a) || Str.isDigit c || c = 0x2b || c = 0x2f

/-- `toLowerCase` of a type. -/
def lowerUnit (c : CodeUnit) : CodeUnit :=
  if 0x41 ≤ c ∧ c ≤ 0x5a then c + 0x20 else if c = 0x212a then 0x6b else c

/-- The type and the data of `/^data:(image\/[a-z0-9.+-]+);base64,([A-Za-z0-9+/]*={0,2})$/iu`. -/
def matchDataUrl (value : Str) : Option (Str × Str) :=
  if !opensWith value "data:" then none
  else
    let (mime, rest) := (value.drop 5).span (· ≠ 0x3b)
    let data := rest.drop 8
    let padding := data.dropWhile isBase64Unit
    if opensWith mime "image/" && 6 < mime.length && (mime.drop 6).all isMimeUnit &&
        opensWith rest ";base64," && padding.length ≤ 2 && padding.all (· = 0x3d) then
      some (mime, data)
    else none

def dataImage (value : Option Json) (param : Str) : Checked Part :=
  match value with
  | some (.str url) =>
    let refused : Refusal := .request
      ⟨lit "only valid base64 data-URL images are supported", some param, lit "invalid_image_url"⟩
    match matchDataUrl url with
    | none => .error refused
    | some (mime, data) =>
      if data = [] ∨ data.length % 4 ≠ 0 then .error refused
      else if Base64.encode Base64.standard (Base64.decode data) ≠ data then
        .error (.request
          ⟨lit "image_url contains invalid base64 data", some param, lit "invalid_base64_image"⟩)
      else .ok (.image (mime.map lowerUnit) data)
  | _ => .error (requestError (lit "image_url must be a data URL") (some param))

/-- The results of an array, each made from an item and its index. -/
def eachFrom {α β : Type} (f : ℕ → α → Checked β) (index : ℕ) : List α → Checked (List β)
  | [] => .ok []
  | item :: rest => do
    let first ← f index item
    return first :: (← eachFrom f (index + 1) rest)

def each {α β : Type} (items : List α) (f : ℕ → α → Checked β) : Checked (List β) := eachFrom f 0 items

/-- One part of a user's content or of a tool's output, which differ in their errors only. -/
def inputPart (capabilities : Capabilities) (notAnObject otherType : String)
    (part : Json) (param : Str) : Checked Part :=
  if !part.plainObject then .error (requestError (lit notAnObject) (some param))
  else if oneOf ["input_text", "text"] (part.field (lit "type")) then do
    rejectExtraFields part ["type", "text"] param
    let text ← requiredString (part.field (lit "text")) (member param "text") true
    return .text text
  else if oneOf ["input_image"] (part.field (lit "type")) then do
    rejectExtraFields part ["type", "image_url", "detail"] param
    let detail := part.field (lit "detail")
    refuse (!absent detail && !oneOf ["auto"] detail)
      (unsupported (lit "only automatic image detail is supported") (member param "detail"))
    refuse (!capabilities.images)
      (requestError (lit "the selected model does not support image input") (some param))
    dataImage (part.field (lit "image_url")) (member param "image_url")
  else .error (unsupported (lit otherType) (member param "type"))

def userContent (content : Option Json) (capabilities : Capabilities) (param : Str) :
    Checked Content :=
  match content with
  | some (.str text) => .ok (.text text)
  | some (.arr parts) =>
    Content.parts <$> each parts fun index part =>
      inputPart capabilities "message content parts must be objects"
        "only input_text and data-URL input_image parts are supported" part (element param index)
  | _ => .error (requestError (lit "message content must be a string or array") (some param))

def toolOutputContent (output : Option Json) (capabilities : Capabilities) (param : Str) :
    Checked (List Part) :=
  match output with
  | some (.str text) => .ok [.text text]
  | some (.arr parts) =>
    each parts fun index part =>
      inputPart capabilities "function output parts must be objects"
        "function output supports input_text and data-URL input_image only" part (element param index)
  | _ => .error (requestError (lit "function output must be a string or array") (some param))

def inputText (content : Option Json) (param : Str) : Checked Str :=
  match content with
  | some (.str text) => .ok text
  | some (.arr parts) =>
    joined [0x0a] <$> each parts fun index part => do
      refuse (!part.plainObject || !oneOf ["input_text", "text"] (part.field (lit "type")))
        (unsupported (lit "system content supports text only") (element param index))
      rejectExtraFields part ["type", "text"] (element param index)
      requiredString (part.field (lit "text")) (member (element param index) "text") true
  | _ => .error (requestError (lit "message content must be a string or array") (some param))

def textSignature (id : Str) (phase : Option Json) : Str :=
  let value := [(lit "v", .num (.finite 1)), (lit "id", .str id)]
  match phase with
  | some (.str phase) =>
    if phase ∈ ["commentary", "final_answer"].map lit then
      (Json.obj (value ++ [(lit "phase", .str phase)])).stringify
    else (Json.obj value).stringify
  | _ => (Json.obj value).stringify

/-- The text block of an assistant message, signed where the message has an id. -/
def signedText (text : Str) (itemId phase : Option Json) : Block :=
  match itemId with
  | some (.str (c :: id)) => .text text (some (textSignature (c :: id) phase))
  | _ => .text text none

def assistantContent (content : Option Json) (param : Str) (itemId phase : Option Json) :
    Checked Block :=
  match content with
  | some (.str text) => .ok (signedText text itemId phase)
  | some (.arr parts) => do
    let texts ← each parts fun index part => do
      refuse (!part.plainObject || !oneOf ["output_text", "text", "refusal"] (part.field (lit "type")))
        (unsupported (lit "assistant content supports output_text or refusal only")
          (element param index))
      let refusal := oneOf ["refusal"] (part.field (lit "type"))
      rejectExtraFields part
        (if refusal then ["type", "refusal"] else ["type", "text", "annotations", "logprobs"])
        (element param index)
      if refusal then
        requiredString (part.field (lit "refusal")) (member (element param index) "refusal") true
      else requiredString (part.field (lit "text")) (member (element param index) "text") true
    return signedText texts.flatten itemId phase
  | _ => .error (requestError (lit "assistant content must be a string or array") (some param))

def opaquePiSignaturePrefix : Str := lit "cyclo-pi-signature-v1:"

/-- Absent where the value is no signature of Pi. -/
def decodeOpaquePiSignature (value : Option Json) (param : Str) : Checked (Option Str) :=
  let refused := requestError (lit "reasoning encrypted_content is invalid") (some param)
  match value with
  | some (.str text) =>
    if !Str.startsWith text opaquePiSignaturePrefix then .ok none
    else
      let encoded := text.drop opaquePiSignaturePrefix.length
      let isUrlUnit (c : CodeUnit) : Bool := Str.isWordUnit c || c = 0x2d
      if encoded = [] ∨ encoded.all isUrlUnit = false then .error refused
      else if Base64.encode Base64.url (Base64.decode encoded) ≠ encoded then .error refused
      else
        match decodeUtf8 (Base64.decode encoded) with
        | some signature => .ok (some signature)
        | none => .error refused
  | _ => .ok none

/-- The texts of a reasoning item's summary or content, none where it is not an array. -/
def reasoningTexts (value : Option Json) (type invalid : String) (param : Str) : Checked Str :=
  match value with
  | some (.arr parts) =>
    joined [0x0a, 0x0a] <$> each parts fun index part => do
      refuse (!part.plainObject || !oneOf [type] (part.field (lit "type")))
        (requestError (lit invalid) (some (element param index)))
      requiredString (part.field (lit "text")) (member (element param index) "text") true
  | _ => .ok []

def reasoningHistory (item : Json) (param : Str) : Checked Block := do
  let summary ← reasoningTexts (item.field (lit "summary")) "summary_text"
      "reasoning summary is invalid"
    (member param "summary")
  let content ← reasoningTexts (item.field (lit "content")) "reasoning_text"
      "reasoning content is invalid"
    (member param "content")
  let encrypted := item.field (lit "encrypted_content")
  refuse (!absent encrypted && (encrypted.bind Json.asString).isNone)
    (requestError (lit "reasoning encrypted_content must be a string")
      (some (member param "encrypted_content")))
  let signature ← decodeOpaquePiSignature encrypted (member param "encrypted_content")
  return .thinking (if summary = [] then content else summary) (signature.getD item.stringify)

structure FunctionCall where
  callId : Str
  name : Str
  block : Block

def functionCallHistory (item : Json) (param : Str) : Checked FunctionCall := do
  let callId ← requiredString (item.field (lit "call_id")) (member param "call_id") false
  let name ← requiredString (item.field (lit "name")) (member param "name") false
  let itemId :=
    match item.field (lit "id") with
    | some (.str (c :: id)) => c :: id
    | _ => lit "fc_" ++ callId
  match item.field (lit "arguments") with
  | some (.str text) =>
    match Json.parse text with
    | none =>
      throw (requestError (lit "function call arguments are not valid JSON")
        (some (member param "arguments")))
    | some arguments =>
      if arguments.plainObject then
        return ⟨callId, name, .toolCall (callId ++ [0x7c] ++ itemId) name arguments⟩
      else
        throw (requestError (lit "function call arguments must decode to an object")
          (some (member param "arguments")))
  | _ =>
    throw (requestError (lit "function call arguments must be a JSON string")
      (some (member param "arguments")))

/-- The parts of an id of a tool call: before and after its first bar. -/
structure ToolCallIds where
  callId : Str
  itemId : Option Str

/-- Absent where `toolCallIds` throws. -/
def toolCallIds : Option Json → Option ToolCallIds
  | some (.str (c :: id)) =>
    let value := c :: id
    let separator := value.idxOf 0x7c
    if 0 < separator ∧ separator < value.length - 1 then
      some ⟨value.take separator, some (value.drop (separator + 1))⟩
    else some ⟨value, none⟩
  | _ => none

/-- What the loop over the input keeps. -/
structure Translation where
  messages : List Message
  system : List Str
  toolNames : List (Str × Str)
  pendingAssistant : Option (List Block)

def Translation.flushAssistant (t : Translation) : Translation :=
  match t.pendingAssistant with
  | some (block :: blocks) =>
    { t with messages := t.messages ++ [.assistant (block :: blocks)], pendingAssistant := none }
  | _ => t

/-- `assistant().content.push(block)` -/
def Translation.push (t : Translation) (block : Block) : Translation :=
  { t with pendingAssistant := some (t.pendingAssistant.getD [] ++ [block]) }

def Translation.add (t : Translation) (message : Message) : Translation :=
  { t with messages := t.messages ++ [message] }

/-- The type of an item: a message needs none. -/
def itemType (item : Json) : Option Json :=
  let type := item.field (lit "type")
  if absent type then
    match item.field (lit "role") with
    | some (.str _) => some (.str (lit "message"))
    | _ => none
  else type

def messageItem (capabilities : Capabilities) (item : Json) (param : Str) (t : Translation) :
    Checked Translation :=
  let role := item.field (lit "role")
  let content := item.field (lit "content")
  if oneOf ["system", "developer"] role then do
    refuse (!t.messages.isEmpty || t.pendingAssistant.isSome)
      (requestError (lit "system and developer messages must precede conversation history")
        (some (member param "role")))
    let text ← inputText content (member param "content")
    return if text = [] then t else { t with system := t.system ++ [text] }
  else if oneOf ["user"] role then do
    let content ← userContent content capabilities (member param "content")
    return t.flushAssistant.add (.user content)
  else if oneOf ["assistant"] role then do
    let block ← assistantContent content (member param "content") (item.field (lit "id"))
      (item.field (lit "phase"))
    return t.push block
  else .error (requestError (lit "message role is unsupported") (some (member param "role")))

def outputItem (capabilities : Capabilities) (item : Json) (param : Str) (t : Translation) :
    Checked Translation := do
  let callId ← requiredString (item.field (lit "call_id")) (member param "call_id") false
  match t.toolNames.lookup callId with
  | none =>
    throw (requestError
      (lit "function_call_output has no preceding function_call in this stateless request")
      (some (member param "call_id")))
  | some name =>
    let content ← toolOutputContent (item.field (lit "output")) capabilities (member param "output")
    return t.flushAssistant.add
      (.toolResult callId name content (oneOf ["failed"] (item.field (lit "status"))))

/-- One round of the loop. -/
def inputItem (capabilities : Capabilities) (index : ℕ) (item : Json) (t : Translation) :
    Checked Translation :=
  let param := element (lit "input") index
  if !item.plainObject then .error (requestError (lit "input items must be objects") (some param))
  else if oneOf ["message"] (itemType item) then messageItem capabilities item param t
  else if oneOf ["reasoning"] (itemType item) then do
    let reasoning ← reasoningHistory item param
    return t.push reasoning
  else if oneOf ["function_call"] (itemType item) then do
    let call ← functionCallHistory item param
    return { t.push call.block with toolNames := (call.callId, call.name) :: t.toolNames }
  else if oneOf ["function_call_output"] (itemType item) then outputItem capabilities item param t
  else
    match safeValue (itemType item) with
    | none => .error .typeError
    | some type =>
      .error (unsupported (lit "unsupported input item type: " ++ type) (member param "type"))

def inputItems (capabilities : Capabilities) (index : ℕ) (t : Translation) :
    List Json → Checked Translation
  | [] => .ok t
  | item :: rest => do
    inputItems capabilities (index + 1) (← inputItem capabilities index item t) rest

structure Context where
  systemPrompt : Option Str
  messages : List Message
  tools : Option (List Tool)

/-- The items of the input; a text stands for one message. -/
def inputOf (document : Json) : Checked (List Json) :=
  match document.field (lit "input") with
  | none => .ok []
  | some (.str text) =>
    .ok [.obj [(lit "role", .str (lit "user")), (lit "content", .str text)]]
  | some (.arr items) => .ok items
  | some _ => .error (requestError (lit "input must be a string or array") (some (lit "input")))

def instructionsOf (document : Json) : Checked (List Str) :=
  let instructions := document.field (lit "instructions")
  if absent instructions then .ok []
  else
    match instructions with
    | some (.str []) => .ok []
    | some (.str text) => .ok [text]
    | _ => .error (requestError (lit "instructions must be a string") (some (lit "instructions")))

def openAIInputContext (document : Json) (capabilities : Capabilities) : Checked Context := do
  let system ← instructionsOf document
  let items ← inputOf document
  let t ← inputItems capabilities 0 ⟨[], system, [], none⟩ items
  let done := t.flushAssistant
  let tools ← openAITools (document.field (lit "tools")) capabilities
  return {
    systemPrompt := if done.system = [] then none else some (joined [0x0a, 0x0a] done.system)
    messages := done.messages
    tools :=
      if tools.isEmpty || oneOf ["none"] (document.field (lit "tool_choice")) then none
        else some tools }

/-- A request that is accepted: `validateEnvelope` and `prepareOpenAIRequest`. -/
def prepareOpenAIRequest (document : Json) (model : Model) : Checked (Context × Options) := do
  validateEnvelope document
  let context ← openAIInputContext document model.capabilities
  let options ← openAIOptions document model
  return (context, options)

end Cyclo.OpenAi
