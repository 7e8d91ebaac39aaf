import Cyclo.OpenAi.Request

/-! The tools and the options of a request to the OpenAI edge. -/
namespace Cyclo.OpenAi
open Js

/-- What a model can do, as far as a request depends on it. -/
structure Capabilities where
  images : Bool
  functionTools : Bool
  temperature : Bool
  topP : Bool
  reasoning : Bool

structure Model where
  capabilities : Capabilities
  maxOutputTokens : ℕ

structure Tool where
  name : Str
  description : Str
  parameters : Json
  strict : Bool

def openAITool (names : List Str) (tool : Json) (param : Str) : Checked Tool := do
  refuse (!tool.plainObject || !oneOf ["function"] (tool.field (lit "type")))
    (unsupported (lit "only function tools are supported") param)
  let name ← requiredString (tool.field (lit "name")) (member param "name") false
  refuse (name ∈ names)
    (requestError (lit "duplicate tool name: " ++ safeString name)
      (some (member param "name")))
  let description ←
    match tool.field (lit "description") with
    | none => pure []
    | some (.str description) => pure description
    | some _ =>
      throw (requestError (lit "tool description must be a string")
        (some (member param "description")))
  let parameters :=
    match tool.field (lit "parameters") with
    | none => .obj [(lit "type", .str (lit "object")), (lit "properties", .obj [])]
    | some .null => .obj [(lit "type", .str (lit "object")), (lit "properties", .obj [])]
    | some parameters => parameters
  refuse (!parameters.plainObject)
    (requestError (lit "tool parameters must be a JSON Schema object")
      (some (member param "parameters")))
  let strict := tool.field (lit "strict")
  refuse (strict.isSome && !isTrue strict && !isFalse strict)
    (requestError (lit "tool strict must be a boolean") (some (member param "strict")))
  refuse
    ((tool.entries.any fun entry =>
        entry.1 ∉ ["type", "name", "description", "parameters", "strict", "defer_loading"].map lit) ||
      isTrue (tool.field (lit "defer_loading")))
    (unsupported (lit "tool contains an unsupported parameter") param)
  return ⟨name, description, parameters, isTrue strict⟩

/-- The tools from an index on, whose names differ from those before. -/
def toolsFrom (names : List Str) (index : ℕ) : List Json → Checked (List Tool)
  | [] => .ok []
  | tool :: rest => do
    let tool ← openAITool names tool (element (lit "tools") index)
    return tool :: (← toolsFrom (tool.name :: names) (index + 1) rest)

def openAITools (tools : Option Json) (capabilities : Capabilities) : Checked (List Tool) :=
  if absent tools then .ok []
  else
    match tools with
    | some (.arr tools) => do
      refuse (!tools.isEmpty && !capabilities.functionTools)
        (requestError (lit "the selected model does not support function tools") (some (lit "tools")))
      toolsFrom [] 0 tools
    | _ => .error (requestError (lit "tools must be an array") (some (lit "tools")))

structure Options where
  maxTokens : Option Number
  temperature : Option Number
  topP : Option Number
  metadata : Option (List (Str × Json))
  sessionId : Option Str
  cacheRetention : Option Str
  reasoning : Option Str

def maxTokensOf (value : Option Json) (model : Model) : Checked (Option Number) :=
  let error := requestError (lit "max_output_tokens must be a positive integer")
    (some (lit "max_output_tokens"))
  if absent value then .ok none
  else
    match value with
    | some (.num limit) =>
      if !limit.isSafeInteger || limit.value ≤ 0 then .error error
      else if (model.maxOutputTokens : ℚ) < limit.value then
        .error (requestError (lit "max_output_tokens exceeds the selected model's output limit")
          (some (lit "max_output_tokens")))
      else .ok (some limit)
    | _ => .error error

/-- A number that a model has to support, within bounds. -/
def boundedNumber (value : Option Json) (supported : Bool) (param : String) (within : ℚ → Bool)
    (bounds : String) : Checked (Option Number) :=
  let error := requestError (lit param ++ lit " must be " ++ lit bounds) (some (lit param))
  if absent value then .ok none
  else if !supported then
    .error (requestError (lit "the selected model does not support " ++ lit param) (some (lit param)))
  else
    match value with
    | some (.num number) =>
      if number.isFinite && within number.value then .ok (some number) else .error error
    | _ => .error error

def sessionIdOf (value : Option Json) : Checked (Option Str) :=
  match value with
  | none => .ok none
  | some (.str (c :: rest)) => .ok (some (c :: rest))
  | some _ =>
    .error (requestError (lit "prompt_cache_key must be a non-empty string")
      (some (lit "prompt_cache_key")))

def cacheRetentionOf (value : Option Json) : Checked (Option Str) :=
  if absent value then .ok none
  else if oneOf ["24h"] value then .ok (some (lit "long"))
  else if oneOf ["in-memory"] value then .ok (some (lit "short"))
  else
    .error (requestError (lit "prompt_cache_retention is invalid")
      (some (lit "prompt_cache_retention")))

def reasoningOf (value : Option Json) (capabilities : Capabilities) : Checked (Option Str) :=
  if absent value then .ok none
  else if !capabilities.reasoning then
    .error (requestError (lit "the selected model does not support reasoning")
      (some (lit "reasoning")))
  else
    match value with
    | some (.obj fields) => do
      refuse (fields.any fun field => field.1 ∉ ["effort", "summary", "generate_summary"].map lit)
        (unsupported (lit "reasoning contains an unsupported parameter") (lit "reasoning"))
      let effort := fields.lookup (lit "effort")
      refuse (!absent effort &&
          !oneOf ["none", "minimal", "low", "medium", "high", "xhigh", "max"] effort)
        (requestError (lit "reasoning.effort is invalid") (some (lit "reasoning.effort")))
      let summary :=
        if absent (fields.lookup (lit "summary")) then fields.lookup (lit "generate_summary")
        else fields.lookup (lit "summary")
      refuse (!absent summary && !oneOf ["auto"] summary)
        (unsupported (lit "only reasoning summary auto is supported") (lit "reasoning.summary"))
      return if oneOf ["none"] effort then none else effort.bind Json.asString
    | _ => .error (requestError (lit "reasoning must be an object") (some (lit "reasoning")))

def openAIOptions (document : Json) (model : Model) : Checked Options := do
  let maxTokens ← maxTokensOf (document.field (lit "max_output_tokens")) model
  let temperature ← boundedNumber (document.field (lit "temperature")) model.capabilities.temperature
    "temperature" (fun value => 0 ≤ value && value ≤ 2) "between 0 and 2"
  let topP ← boundedNumber (document.field (lit "top_p")) model.capabilities.topP "top_p"
    (fun value => 0 < value && value ≤ 1) "greater than 0 and at most 1"
  refuse (isFalse (document.field (lit "parallel_tool_calls")))
    (unsupported (lit "parallel_tool_calls=false cannot be enforced by the Pi Provider ABI")
      (lit "parallel_tool_calls"))
  let toolChoice := document.field (lit "tool_choice")
  refuse (!absent toolChoice && !oneOf ["auto", "none"] toolChoice)
    (unsupported (lit "only tool_choice auto or none is supported") (lit "tool_choice"))
  let metadata := (document.field (lit "metadata")).bind fun value =>
    if absent (some value) then none else some value.entries
  let sessionId ← sessionIdOf (document.field (lit "prompt_cache_key"))
  let cacheRetention ← cacheRetentionOf (document.field (lit "prompt_cache_retention"))
  let reasoning ← reasoningOf (document.field (lit "reasoning")) model.capabilities
  return { maxTokens, temperature, topP, metadata, sessionId, cacheRetention, reasoning }

end Cyclo.OpenAi
