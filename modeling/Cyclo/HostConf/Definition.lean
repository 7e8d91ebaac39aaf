import Cyclo.Dcomp.System
import Cyclo.Python.Paths
import Cyclo.Python.Strings

/-! The configuration of the host: the line-oriented `host.conf`, and the descriptors of the
components that it names. -/
namespace Cyclo.HostConf
open Python Dcomp

def maxHostConfigBytes : ℕ := 1024 * 1024

/-- `PROVIDER_SERVICE` -/
def providerService : String := "cyclo.provider.v1.Provider"

structure ComponentContract where
  image : String
  inputs : List Endpoint
  outputs : List Endpoint
  deriving DecidableEq

structure Binding where
  input : String
  component : String
  output : String
  deriving DecidableEq

structure Provider where
  name : String
  source : PurePath
  context : PurePath
  contract : ComponentContract
  bindings : List Binding
  arguments : List String
  line : ℕ
  deriving DecidableEq

/-- A bundled terminal component. -/
structure HostComponent where
  name : String
  bind : String
  port : ℕ
  line : ℕ
  deriving DecidableEq

structure Host where
  path : PurePath
  providers : List Provider
  generation : String
  components : List HostComponent
  deriving DecidableEq

/-- Why a configuration is refused; most reasons name a line. -/
inductive Refusal where
  | raised
  | notRegular (label : String) (path : PurePath)
  | notFound (label : String) (path : PurePath)
  | unreadable (label : String) (path : PurePath)
  | tooLarge (label : String) (path : PurePath)
  | notUtf8 (label : String) (path : PurePath)
  | controlCharacter (label : String) (path : PurePath)
  | directoryNotFound (path : PurePath) (line : ℕ)
  | notDirectory (path : PurePath) (line : ℕ)
  | whitespacePath (path : PurePath) (line : ℕ)
  | oneImage (descriptor : PurePath) (line : ℕ)
  | endpointForm (descriptor : PurePath) (directive : String) (line : ℕ)
  | duplicateEndpoint (descriptor : PurePath) (directive name : String) (line : ℕ)
  | unknownDirective (descriptor : PurePath) (directive : String) (line : ℕ)
  | missingImage (descriptor : PurePath)
  | providerOutputs (descriptor : PurePath)
  | tilde (line : ℕ)
  | componentForm (line : ℕ)
  | componentSetting (setting : String) (line : ℕ)
  | componentBind (line : ℕ)
  | componentPort (line : ℕ)
  | duplicateComponent (name : String) (line : ℕ)
  | providerForm (line : ℕ)
  | providerName (name : String) (line : ℕ)
  | separators (line : ℕ)
  | duplicateContext (line : ℕ)
  | bundledContext (line : ℕ)
  | emptyContext (line : ℕ)
  | outsideContext (line : ℕ)
  | bindingForm (setting : String) (line : ℕ)
  | unknownOutput (setting : String) (line : ℕ)
  | bindingService (setting provided expected : String) (line : ℕ)
  | missingBindings (names : List String) (line : ℕ)
  | providerOutput (name : String)
  deriving DecidableEq

/-- What opening a path finds. -/
inductive Found where
  | regular (content : List UInt8)
  | missing
  | notRegular
  | unreadable

/-- The machine that a configuration is read on: its files and directories, the working directory,
what `~` stands for, and the library functions that depend on tables. -/
structure Machine where
  cwd : PurePath
  home : String → Option PurePath
  openFile : PurePath → Found
  resolveStrict : PurePath → Option PurePath
  isDirectory : PurePath → Bool
  componentsRoot : PurePath
  /-- The value of a decimal digit of any script. -/
  decimal : Char → Option ℕ
  sha256 : List UInt8 → String

/-- `_read_regular_file` -/
def readRegularFile (machine : Machine) (path : PurePath) (label : String) (missingOk : Bool) :
    Except Refusal (List UInt8) :=
  match machine.openFile path with
  | .regular content =>
    if content.length > maxHostConfigBytes then .error (.tooLarge label path) else .ok content
  | .missing => if missingOk then .ok [] else .error (.notFound label path)
  | .notRegular => .error (.notRegular label path)
  | .unreadable => .error (.unreadable label path)

/-- `text.replace("\r\n", "\n")` -/
def replaceCrlf : List Char → List Char
  | [] => []
  | '\r' :: '\n' :: text => '\n' :: replaceCrlf text
  | c :: text => c :: replaceCrlf text

def isControl (c : Char) : Bool := c.toNat < 0x20 || c.toNat = 0x7f

/-- `_decode` -/
def decodeText (raw : List UInt8) (path : PurePath) (label : String) : Except Refusal (List Char) :=
  match decode raw with
  | none => .error (.notUtf8 label path)
  | some text =>
    if text.any fun c => c ≠ '\n' && c ≠ '\r' && isControl c then .error (.controlCharacter label path)
    else .ok (replaceCrlf text)

/-- What stands before the first white space that a number sign follows. -/
def beforeComment : List Char → List Char
  | [] => []
  | c :: rest => if isSpace c ∧ rest.head? = some '#' then [] else c :: beforeComment rest

/-- `_content` -/
def contentOf (line : List Char) : List Char :=
  strip (if line.head? = some '#' then [] else beforeComment line)

/-- The fields of a line; none where it has no content. -/
def fieldsOf (line : List Char) : List String := (split (contentOf line)).map String.ofList

/-- `value.partition(separator)` -/
def partition (separator : Char) (value : String) : String × Bool × String :=
  let before := value.toList.takeWhile (· ≠ separator)
  match value.toList.dropWhile (· ≠ separator) with
  | [] => (String.ofList before, false, "")
  | _ :: after => (String.ofList before, true, String.ofList after)

/-- `_canonical_directory` -/
def canonicalDirectory (machine : Machine) (path : PurePath) (line : ℕ) : Except Refusal PurePath := do
  match machine.resolveStrict path with
  | none => throw (.directoryNotFound path line)
  | some canonical =>
    demand (machine.isDirectory canonical = true) (.notDirectory canonical line)
    demand (canonical.text.toList.any isSpace = false) (.whitespacePath canonical line)
    return canonical

structure Descriptor where
  image : Option String
  inputs : List Endpoint
  outputs : List Endpoint

def endpointOf (path : PurePath) (directive : String) (selected : List Endpoint) (line : ℕ) :
    List String → Except Refusal (List Endpoint)
  | [_, service, name] => do
    demand (matchesService service = true ∧ matchesName name = true)
      (.endpointForm path directive line)
    demand (name ∉ selected.map Endpoint.name) (.duplicateEndpoint path directive name line)
    return selected ++ [⟨service, name⟩]
  | _ => throw (.endpointForm path directive line)

def descriptorLine (path : PurePath) (found : Descriptor) (line : ℕ) (raw : List Char) :
    Except Refusal Descriptor :=
  match fieldsOf raw with
  | [] => .ok found
  | directive :: rest =>
    if directive = "docker" then
      match rest, found.image with
      | [image], none => .ok { found with image := some image }
      | _, _ => .error (.oneImage path line)
    else if directive = "input" then do
      return { found with
        inputs := ← endpointOf path directive found.inputs line (directive :: rest) }
    else if directive = "output" then do
      return { found with
        outputs := ← endpointOf path directive found.outputs line (directive :: rest) }
    else .error (.unknownDirective path directive line)

def descriptorLines (path : PurePath) : Descriptor → ℕ → List (List Char) → Except Refusal Descriptor
  | found, _, [] => .ok found
  | found, line, raw :: rest => do
    descriptorLines path (← descriptorLine path found line raw) (line + 1) rest

def providerOutputs (outputs : List Endpoint) : List String :=
  (outputs.filter fun endpoint => endpoint.service = providerService).map Endpoint.name

def loadComponent (machine : Machine) (path : PurePath) : Except Refusal ComponentContract := do
  let descriptor := path.join (.ofText "component.dcomp")
  let raw ← readRegularFile machine descriptor "DComp descriptor" false
  let text ← decodeText raw descriptor "DComp descriptor"
  let found ← descriptorLines descriptor ⟨none, [], []⟩ 1 (splitlines text)
  match found.image with
  | none => throw (.missingImage descriptor)
  | some image =>
    demand ((providerOutputs found.outputs).length = 1) (.providerOutputs descriptor)
    return ⟨image, found.inputs, found.outputs⟩

/-- `Provider.provider_output` -/
def Provider.providerOutput (provider : Provider) : Except Refusal String :=
  match providerOutputs provider.contract.outputs with
  | [output] => .ok output
  | _ => .error (.providerOutput provider.name)

def Host.outerComponent (host : Host) : String :=
  match host.providers.getLast? with
  | some provider => provider.name
  | none => "gateway"

def Host.outerOutput (host : Host) : Except Refusal String :=
  match host.providers.getLast? with
  | some provider => provider.providerOutput
  | none => .ok "provider"

/-- One part of an IPv4 address. -/
def octet (text : List Char) : Option ℕ :=
  if text ≠ [] ∧ text.all isDigit = true ∧ text.length ≤ 3 ∧
    (text.length = 1 ∨ text.head? ≠ some '0') then
    let value := text.foldl (fun value c => 10 * value + (c.toNat - 48)) 0
    if value ≤ 255 then some value else none
  else none

/-- `str(ipaddress.IPv4Address(value))` -/
def ipv4Address (value : String) : Option String :=
  match value.toList.splitOn '.' with
  | [a, b, c, d] =>
    if (octet a).isSome ∧ (octet b).isSome ∧ (octet c).isSome ∧ (octet d).isSome then
      some value else none
  | _ => none

/-- The digits of a number, with single low lines between them. -/
def decimalDigits (decimal : Char → Option ℕ) : List Char → Option (List ℕ)
  | [] => none
  | [c] => (decimal c).map fun digit => [digit]
  | c :: '_' :: rest => do
    let digit ← decimal c
    let digits ← decimalDigits decimal rest
    return digit :: digits
  | c :: rest => do
    let digit ← decimal c
    let digits ← decimalDigits decimal rest
    return digit :: digits

/-- `int(value, 10)` of a value without white space; Python refuses more than 4300 digits. -/
def parseInt (decimal : Char → Option ℕ) (value : String) : Option ℤ :=
  let magnitude (digits : List Char) : Option ℤ :=
    match decimalDigits decimal digits with
    | none => none
    | some digits =>
      if digits.length ≤ 4300 then some (digits.foldl (fun value digit => 10 * value + digit) 0 : ℕ)
        else none
  match value.toList with
  | '-' :: digits => (magnitude digits).map fun value => -value
  | '+' :: digits => magnitude digits
  | digits => magnitude digits

structure Listening where
  bind : Option String
  port : Option ℕ

/-- One setting of a component; a key is seen once. -/
def componentSetting (machine : Machine) (line : ℕ) (listening : Listening) (setting : String) :
    Except Refusal Listening :=
  let (key, separator, value) := partition '=' setting
  if separator = true ∧ key = "bind" ∧ listening.bind = none then
    match ipv4Address value with
    | some address => .ok { listening with bind := some address }
    | none => .error (.componentBind line)
  else if separator = true ∧ key = "port" ∧ listening.port = none then
    match parseInt machine.decimal value with
    | some port =>
      if 1 ≤ port ∧ port ≤ 65535 then .ok { listening with port := some port.toNat }
      else .error (.componentPort line)
    | none => .error (.componentPort line)
  else .error (.componentSetting setting line)

/-- `_host_component` -/
def hostComponent (machine : Machine) (line : ℕ) : List String → Except Refusal HostComponent
  | _ :: name :: settings => do
    demand (name = "openai") (.componentForm line)
    let listening ← settings.foldlM (componentSetting machine line) ⟨none, none⟩
    return ⟨"openai", listening.bind.getD "127.0.0.1", listening.port.getD 8080, line⟩
  | _ => throw (.componentForm line)

structure Declaration where
  name : String
  source : PurePath
  context : PurePath
  contract : ComponentContract
  settings : List String
  arguments : List String
  line : ℕ

/-- `_provider_source`: the source, the context, and whether it is bundled. -/
def providerSource (machine : Machine) (selected : PurePath) (line : ℕ) (token : String) :
    Except Refusal (PurePath × PurePath × Bool) :=
  if token = "pooler" then do
    let context ← canonicalDirectory machine machine.componentsRoot line
    let source ← canonicalDirectory machine (context.join (.ofText token)) line
    return (source, context, true)
  else if token = "~" ∨ token.startsWith "~/" = true then .error (.tilde line)
  else do
    let path := PurePath.ofText token
    let parent : PurePath := ⟨selected.root, selected.parts.dropLast⟩
    let source ← canonicalDirectory machine (if path.isAbsolute then path else parent.join path) line
    return (source, source, false)

/-- The context of a provider, and the settings without the one that gives it. -/
def providerContext (machine : Machine) (line : ℕ) (source context : PurePath) (bundled : Bool)
    (settings : List String) : Except Refusal (PurePath × List String) :=
  match settings.filter fun setting => setting.startsWith "context=" with
  | [] => .ok (context, settings)
  | [setting] => do
    demand (bundled = false) (.bundledContext line)
    let value := (partition '=' setting).2.2
    demand (value ≠ "") (.emptyContext line)
    let path := PurePath.ofText value
    let context ← canonicalDirectory machine (if path.isAbsolute then path else source.join path) line
    return (context, settings.erase setting)
  | _ => .error (.duplicateContext line)

/-- The lines so far: the providers and the components that they declare, and all names in use. -/
structure Declared where
  declarations : List Declaration
  components : List HostComponent
  names : List String

def providerLine (machine : Machine) (selected : PurePath) (names : List String) (line : ℕ)
    (name token : String) (rest : List String) : Except Refusal Declaration := do
  demand (matchesName name = true ∧ name ∉ names) (.providerName name line)
  let (source, context, bundled) ← providerSource machine selected line token
  let contract ← loadComponent machine source
  let fields := token :: rest
  demand (fields.count "--" ≤ 1) (.separators line)
  let settings := (fields.takeWhile (· ≠ "--")).tail
  let arguments := (fields.dropWhile (· ≠ "--")).tail
  let (context, settings) ← providerContext machine line source context bundled settings
  demand (source.isRelativeTo context = true) (.outsideContext line)
  return ⟨name, source, context, contract, settings, arguments, line⟩

def hostLine (machine : Machine) (selected : PurePath) (declared : Declared) (line : ℕ)
    (raw : List Char) : Except Refusal Declared :=
  match fieldsOf raw with
  | [] => .ok declared
  | directive :: rest =>
    if directive = "component" then do
      let component ← hostComponent machine line (directive :: rest)
      demand (component.name ∉ declared.names) (.duplicateComponent component.name line)
      return { declared with
        components := declared.components ++ [component]
        names := component.name :: declared.names }
    else
      match directive, rest with
      | "provider", name :: token :: rest => do
        let declaration ← providerLine machine selected declared.names line name token rest
        return { declared with
          declarations := declared.declarations ++ [declaration]
          names := name :: declared.names }
      | _, _ => throw (.providerForm line)

def hostLines (machine : Machine) (selected : PurePath) :
    Declared → ℕ → List (List Char) → Except Refusal Declared
  | declared, _, [] => .ok declared
  | declared, line, raw :: rest => do
    hostLines machine selected (← hostLine machine selected declared line raw) (line + 1) rest

/-- The services of all outputs, by component and output. -/
def outputsOf (declarations : List Declaration) : List ((String × String) × String) :=
  (("gateway", "provider"), providerService) :: declarations.flatMap fun declaration =>
    declaration.contract.outputs.map fun endpoint =>
      ((declaration.name, endpoint.name), endpoint.service)

def bindSetting (outputs : List ((String × String) × String)) (declaration : Declaration)
    (bindings : List Binding) (setting : String) : Except Refusal (List Binding) := do
  let (input, separator, target) := partition '=' setting
  let (component, dot, output) := partition '.' target
  match declaration.contract.inputs.find? (·.name = input) with
  | none => throw (.bindingForm setting declaration.line)
  | some expected =>
    demand (separator = true ∧ dot = true ∧ input ∉ bindings.map Binding.input ∧
      matchesName component = true ∧ matchesName output = true) (.bindingForm setting declaration.line)
    -- of two entries with one key, a dict has the later one
    match outputs.reverse.lookup (component, output) with
    | none => throw (.unknownOutput setting declaration.line)
    | some service =>
      demand (service = expected.service)
        (.bindingService setting service expected.service declaration.line)
      return bindings ++ [⟨input, component, output⟩]

def bindProvider (outputs : List ((String × String) × String)) (declaration : Declaration) :
    Except Refusal Provider := do
  let bindings ← declaration.settings.foldlM (bindSetting outputs declaration) []
  let missing := (declaration.contract.inputs.map Endpoint.name).filter
    (· ∉ bindings.map Binding.input)
  demand (missing = []) (.missingBindings (sortedBy id missing) declaration.line)
  return ⟨declaration.name, declaration.source, declaration.context, declaration.contract,
    sortedBy Binding.input bindings, declaration.arguments, declaration.line⟩

def loadHost (machine : Machine) (path : PurePath) : Except Refusal Host := do
  match path.expanduser machine.home with
  | none => throw .raised
  | some expanded =>
    let selected := PurePath.abspath machine.cwd expanded
    let raw ← readRegularFile machine selected "host configuration" true
    let text ← decodeText raw selected "host configuration"
    let declared ← hostLines machine selected ⟨[], [], ["gateway"]⟩ 1 (splitlines text)
    let providers ← declared.declarations.mapM (bindProvider (outputsOf declared.declarations))
    return ⟨selected, providers, machine.sha256 raw, declared.components⟩

end Cyclo.HostConf
