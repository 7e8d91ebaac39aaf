import Cyclo.Js.Stringify

/-! Requests to the OpenAI edge: what is refused, and with which error. -/
namespace Cyclo.OpenAi
open Js

/-- `OpenAIRequestError`, whose status and type are always the same here. -/
structure RequestError where
  message : Str
  param : Option Str
  code : Str
  deriving DecidableEq, Repr

/-- What is thrown for a request: its error, or the `TypeError` of a value that has no text. -/
inductive Refusal where
  | request (error : RequestError)
  | typeError
  deriving DecidableEq, Repr

abbrev Checked (α : Type) := Except Refusal α

def requestError (message : Str) (param : Option Str) : Refusal :=
  .request ⟨message, param, lit "invalid_request_error"⟩

/-- `requestError` with the code of a parameter that is not supported. -/
def unsupported (message param : Str) : Refusal :=
  .request ⟨message, some param, lit "unsupported_parameter"⟩

/-- `if (refused) throw error` -/
def refuse (refused : Bool) (error : Refusal) : Checked Unit :=
  if refused then .error error else .ok ()

/-- `${param}.name` -/
def member (param : Str) (name : String) : Str := param ++ lit "." ++ lit name

/-- `${param}[${index}]` -/
def element (param : Str) (index : ℕ) : Str :=
  param ++ lit "[" ++ Json.naturalText index ++ lit "]"

/-- `String(value)` without control characters and runs of white space, cut to a length. -/
def shown (value : Str) (limit : ℕ) (otherwise : Str) : Str :=
  let visible := value.map fun c => if c < 0x20 || c = 0x7f then 0x20 else c
  let spaced := visible.foldr
    (fun c text =>
      if Str.isSpace c then
        match text with
        | 0x20 :: _ => text
        | _ => 0x20 :: text
      else c :: text) []
  let cut := (Str.trim spaced).take limit
  if cut = [] then otherwise else cut

/-- `safeValue` of a string. -/
def safeString (value : Str) : Str := shown value 128 (lit "unknown")

def safeValue (value : Option Json) : Option Str :=
  match value with
  | none => some (safeString (lit "unknown"))
  | some .null => some (safeString (lit "unknown"))
  | some value => value.display.map safeString

/-- Whether a value is one of some strings. -/
def oneOf (values : List String) : Option Json → Bool
  | some (.str s) => s ∈ values.map lit
  | _ => false

/-- `value === undefined || value === null` -/
def absent : Option Json → Bool
  | none => true
  | some .null => true
  | _ => false

def requiredString (value : Option Json) (param : Str) (empty : Bool) : Checked Str :=
  match value with
  | some (.str s) =>
    if s = [] ∧ empty = false then
      .error (requestError (param ++ lit " must be a non-empty string") (some param))
    else .ok s
  | _ =>
    let kind := if empty then lit " must be a string" else lit " must be a non-empty string"
    .error (requestError (param ++ kind) (some param))

def rejectExtraFields (value : Json) (allowed : List String) (param : Str) : Checked Unit :=
  refuse (value.entries.any fun entry => entry.1 ∉ allowed.map lit)
    (unsupported (param ++ lit " contains an unsupported parameter") param)

/-- `Object.is` of a value and one of the defaults of the source, none of which is an object. -/
def sameValue : Json → Json → Bool
  | .null, .null => true
  | .bool a, .bool b => a = b
  | .str a, .str b => a = b
  | _, _ => false

def emptyArray : Json → Bool
  | .arr [] => true
  | _ => false

def rejectNonDefault (value : Option Json) (accepted : Option Json) (param : String)
    (alternate : Option Json) : Checked Unit :=
  let default (given : Json) : Option Json → Bool
    | none => false
    | some other => sameValue given other
  match value with
  | none => .ok ()
  | some given =>
    refuse (!(default given accepted || default given alternate ||
        (emptyArray given && alternate.any emptyArray)))
      (unsupported (lit param ++ lit " is not supported by the stateless Provider bridge") (lit param))

def requestFields : List String :=
  ["background", "context_management", "conversation", "include", "input", "instructions",
    "max_output_tokens", "metadata", "model", "parallel_tool_calls", "previous_response_id", "prompt",
    "prompt_cache_key", "prompt_cache_retention", "reasoning", "safety_identifier", "service_tier",
    "store", "stream", "stream_options", "temperature", "text", "tool_choice", "tools", "top_p",
    "truncation", "user"]

def validateInclude (included : Option Json) : Checked Unit :=
  let error := unsupported (lit "include supports only reasoning.encrypted_content") (lit "include")
  if absent included then .ok ()
  else
    match included with
    | some (.arr values) =>
      refuse (values.any fun value => !oneOf ["reasoning.encrypted_content"] (some value)) error
    | _ => .error error

def isTrue : Option Json → Bool
  | some (.bool b) => b
  | _ => false

def isFalse : Option Json → Bool
  | some (.bool b) => !b
  | _ => false

def validateStreamOptions (stream options : Option Json) : Checked Unit :=
  if absent options then .ok ()
  else
    match options with
    | some (.obj fields) => do
      refuse (!isTrue stream)
        (requestError (lit "stream_options requires stream=true") (some (lit "stream_options")))
      refuse (fields.any fun field => field.1 ≠ lit "include_obfuscation")
        (unsupported (lit "stream_options contains an unsupported parameter") (lit "stream_options"))
      let obfuscation := fields.lookup (lit "include_obfuscation")
      refuse (obfuscation.isSome && !isFalse obfuscation)
        (unsupported (lit "stream obfuscation is not supported")
          (lit "stream_options.include_obfuscation"))
    | _ => .error (requestError (lit "stream_options must be an object") (some (lit "stream_options")))

def validateText (text : Option Json) : Checked Unit :=
  if absent text then .ok ()
  else
    match text with
    | some (.obj fields) => do
      let plain :=
        match fields.lookup (lit "format") with
        | none => true
        | some (.obj format) => oneOf ["text"] (format.lookup (lit "type")) && format.length = 1
        | some _ => false
      refuse (!plain || !absent (fields.lookup (lit "verbosity")))
        (unsupported (lit "only plain text output is supported") (lit "text"))
      refuse (fields.any fun field => field.1 ∉ ["format", "verbosity"].map lit)
        (unsupported (lit "text contains an unsupported parameter") (lit "text"))
    | _ => .error (requestError (lit "text must be an object") (some (lit "text")))

def validateMetadata (metadata : Option Json) : Checked Unit :=
  if absent metadata then .ok ()
  else
    match metadata with
    | some (.obj entries) => do
      refuse (16 < entries.length)
        (requestError (lit "metadata has more than 16 entries") (some (lit "metadata")))
      refuse
        (entries.any fun entry =>
          match entry.2 with
          | .str value => entry.1 = [] || 64 < entry.1.length || 512 < value.length
          | _ => true)
        (requestError (lit "metadata keys or values are invalid") (some (lit "metadata")))
    | _ => .error (requestError (lit "metadata must be an object") (some (lit "metadata")))

def validateEnvelope (document : Json) : Checked Unit :=
  match document with
  | .obj fields => do
    match fields.find? fun field => field.1 ∉ requestFields.map lit with
    | some field => throw (unsupported (lit "unsupported parameter: " ++ field.1) field.1)
    | none => pure ()
    let _ ←
      match document.field (lit "model") with
      | some (.str (c :: rest)) => pure (c :: rest)
      | _ => throw (requestError (lit "model must be a non-empty string") (some (lit "model")))
    let input := document.field (lit "input")
    refuse input.isNone (requestError (lit "input is required") (some (lit "input")))
    let stream := document.field (lit "stream")
    refuse (!absent stream && !isTrue stream && !isFalse stream)
      (requestError (lit "stream must be a boolean") (some (lit "stream")))
    rejectNonDefault (document.field (lit "background")) (some (.bool false)) "background" none
    rejectNonDefault (document.field (lit "store")) (some (.bool false)) "store" none
    rejectNonDefault (document.field (lit "conversation")) (some .null) "conversation" none
    rejectNonDefault (document.field (lit "previous_response_id")) (some .null)
      "previous_response_id" none
    rejectNonDefault (document.field (lit "prompt")) (some .null) "prompt" none
    rejectNonDefault (document.field (lit "context_management")) (some .null) "context_management"
      (some (.arr []))
    rejectNonDefault (document.field (lit "safety_identifier")) none "safety_identifier" none
    rejectNonDefault (document.field (lit "user")) none "user" none
    rejectNonDefault (document.field (lit "service_tier")) (some (.str (lit "auto"))) "service_tier"
      (some .null)
    rejectNonDefault (document.field (lit "truncation")) (some (.str (lit "disabled"))) "truncation"
      (some .null)
    validateInclude (document.field (lit "include"))
    validateStreamOptions stream (document.field (lit "stream_options"))
    validateText (document.field (lit "text"))
    validateMetadata (document.field (lit "metadata"))
  | _ => .error (requestError (lit "request body must be a JSON object") none)

end Cyclo.OpenAi
