import Cyclo.Python.Strings

/-! Project definitions: the line-oriented `project.cyclo` and how the host loads it. -/
namespace Cyclo.Project
open Python

inductive AccessMode where
  | ro
  | rw
  deriving DecidableEq

def AccessMode.text : AccessMode → List Char
  | .ro => ['r', 'o']
  | .rw => ['r', 'w']

structure ProjectTeam where
  path : PurePath
  mode : AccessMode
  line : ℕ
  deriving DecidableEq

structure ProjectMount where
  name : List Char
  path : PurePath
  mode : AccessMode
  line : ℕ
  deriving DecidableEq

/-- `mount_container_path(name, mode)` -/
def mountContainerPath (name : List Char) (mode : AccessMode) : PurePath :=
  ⟨"/", [match mode with
    | .rw => "workspace"
    | .ro => "readonly", String.ofList name]⟩

def ProjectMount.containerPath (mount : ProjectMount) : PurePath :=
  mountContainerPath mount.name mount.mode

structure ProjectDefinition where
  path : PurePath
  name : List Char
  description : List Char
  context : List Char
  teams : List ProjectTeam
  mounts : List ProjectMount
  deriving DecidableEq

/-- Why a project file is refused; most reasons name a line. -/
inductive Rejection where
  | tooLarge (label : String)
  | notUtf8 (label : String)
  | controlCharacter (label : String)
  | emptyContextFile
  | expected (form : String) (line : ℕ)
  | duplicateDirective (directive : String) (line : ℕ)
  | invalidIdentifier (label : String) (value : List Char) (line : ℕ)
  | unterminatedContext (marker : List Char) (line : ℕ)
  | emptyContext (line : ℕ)
  | invalidPath (value : List Char) (line : ℕ)
  | pathNotFound (label : String) (selected : PurePath) (line : ℕ)
  | notDirectory (label : String) (resolved : PurePath) (line : ℕ)
  | unusablePath (label : String) (resolved : PurePath) (line : ℕ)
  | invalidMode (value : List Char) (line : ℕ)
  | duplicateTeamPath (path : PurePath) (line first : ℕ)
  | duplicateTeamName (name : String) (line first : ℕ)
  | duplicateMountName (name : List Char) (line first : ℕ)
  | duplicateMountPath (path : PurePath) (line first : ℕ)
  | mcpUnsupported (line : ℕ)
  | unknownDirective (directive : List Char) (line : ℕ)
  | missing (directive : String)
  | noTeams
  | noMounts
  | overlap (path earlier : PurePath) (line earlierLine : ℕ)
  | endlessMarkerSearch
  | foreignTeam
  | invalidAccessMode (label : String) (value : List Char)
  | invalidTeams
  deriving DecidableEq

/-- The directories of the host: `resolve(strict=True)`, which may find nothing, and `is_dir()`. -/
structure Host where
  resolve : PurePath → Option PurePath
  isDirectory : PurePath → Bool

def maxProjectFileBytes : ℕ := 1024 * 1024

/-- `_read_regular_file` of a regular file. -/
def readRegularFile (content : List UInt8) (label : String) : Except Rejection (List UInt8) :=
  if content.length > maxProjectFileBytes then .error (.tooLarge label) else .ok content

/-- `text.replace("\r\n", "\n")` -/
def replaceCrlf : List Char → List Char
  | [] => []
  | '\r' :: '\n' :: text => '\n' :: replaceCrlf text
  | c :: text => c :: replaceCrlf text

def isControl (c : Char) : Bool := c.toNat < 0x20 || c.toNat = 0x7f

def decodeTextFile (content : List UInt8) (label : String) : Except Rejection (List Char) :=
  match decode content with
  | none => .error (.notUtf8 label)
  | some text =>
    if (replaceCrlf text).any fun c => c ≠ '\n' && isControl c then .error (.controlCharacter label)
    else .ok (replaceCrlf text)

def isNewline (c : Char) : Bool := c = '\n'

/-- `read_project_context` of a regular file. -/
def readProjectContext (content : List UInt8) : Except Rejection (List Char) := do
  let content ← readRegularFile content "project context"
  let text ← decodeTextFile content "project context"
  let text := Text.strip isNewline text
  if strip text = [] then throw .emptyContextFile
  return text

def isLower (c : Char) : Bool := 'a' ≤ c && c ≤ 'z'

def isUpper (c : Char) : Bool := 'A' ≤ c && c ≤ 'Z'

def isDigit (c : Char) : Bool := '0' ≤ c && c ≤ '9'

def isPunctuation (c : Char) : Bool := c = '.' || c = '_' || c = '-'

/-- `PROJECT_NAME_RE`, which is `MOUNT_NAME_RE` too: `[a-z0-9][a-z0-9._-]{0,63}` -/
def matchesProjectName : List Char → Bool
  | [] => false
  | c :: rest => (isLower c || isDigit c) && rest.length ≤ 63 &&
      rest.all fun d => isLower d || isDigit d || isPunctuation d

/-- `TEAM_NAME_RE`: `[A-Za-z0-9][A-Za-z0-9._-]{0,63}` -/
def matchesTeamName : List Char → Bool
  | [] => false
  | c :: rest => (isLower c || isUpper c || isDigit c) && rest.length ≤ 63 &&
      rest.all fun d => isLower d || isUpper d || isDigit d || isPunctuation d

/-- `CONTEXT_MARKER_RE`: `[A-Za-z][A-Za-z0-9_]{0,31}` -/
def matchesContextMarker : List Char → Bool
  | [] => false
  | c :: rest => (isLower c || isUpper c) && rest.length ≤ 31 &&
      rest.all fun d => isLower d || isUpper d || isDigit d || d = '_'

def validateIdentifier (value : List Char) (label : String) (pattern : List Char → Bool)
    (line : ℕ) : Except Rejection Unit :=
  demand (value ∉ [['.'], ['.', '.']] ∧ pattern value = true) (.invalidIdentifier label value line)

def parseMode : List Char → Option AccessMode
  | ['r', 'o'] => some .ro
  | ['r', 'w'] => some .rw
  | _ => none

def validateMode (value : List Char) (line : ℕ) : Except Rejection AccessMode :=
  match parseMode value with
  | none => .error (.invalidMode value line)
  | some mode => .ok mode

def isPathToken (value : List Char) : Bool :=
  value ≠ [] && '~' ∉ value && ',' ∉ value && '\'' ∉ value && '"' ∉ value && '\\' ∉ value &&
    !value.any isSpace && !value.any isControl

/-- `source.parent / value` for a relative path. -/
def selectPath (source : PurePath) (value : List Char) : PurePath :=
  let selected := PurePath.ofText (String.ofList value)
  if selected.isAbsolute then selected
  else ⟨source.root, source.parts.dropLast ++ selected.parts⟩

def resolveDirectory (host : Host) (source : PurePath) (value : List Char) (line : ℕ)
    (label : String) : Except Rejection PurePath := do
  demand (isPathToken value = true) (.invalidPath value line)
  match host.resolve (selectPath source value) with
  | none => throw (.pathNotFound label (selectPath source value) line)
  | some resolved =>
    demand (host.isDirectory resolved = true) (.notDirectory label resolved line)
    demand (',' ∉ resolved.text.toList ∧ resolved.text.toList.any isControl = false)
      (.unusablePath label resolved line)
    return resolved

def pathsOverlap (left right : PurePath) : Bool :=
  left = right || (left.relativeTo right).isSome || (right.relativeTo left).isSome

/-- What the directives so far have set. -/
structure Parsed where
  name : Option (List Char)
  description : Option (List Char)
  context : Option (List Char)
  teams : List ProjectTeam
  mounts : List ProjectMount
  deriving DecidableEq

def Parsed.empty : Parsed := ⟨none, none, none, [], []⟩

/-- `line.partition(" ")`, with the separator's presence. -/
def partition (line : List Char) : List Char × Bool × List Char :=
  match line.dropWhile fun c => c ≠ ' ' with
  | [] => (line, false, [])
  | _ :: remainder => (line.takeWhile fun c => c ≠ ' ', true, remainder)

/-- The name under which a team may be selected once. -/
def foldedName (path : PurePath) : List Char := path.name.toList.map Char.toLower

def parseName (parsed : Parsed) (lineNo : ℕ) (line : List Char) : Except Rejection Parsed :=
  match split line with
  | [_, name] => do
    demand (parsed.name = none) (.duplicateDirective "name" lineNo)
    validateIdentifier name "project name" matchesProjectName lineNo
    return { parsed with name := some name }
  | _ => throw (.expected "name <project-name>" lineNo)

def parseDescription (parsed : Parsed) (lineNo : ℕ) (line : List Char) :
    Except Rejection Parsed := do
  let (_, separator, remainder) := partition line
  demand (separator = true ∧ strip remainder ≠ []) (.expected "description <text>" lineNo)
  demand (parsed.description = none) (.duplicateDirective "description" lineNo)
  return { parsed with description := some (strip remainder) }

def parseTeam (host : Host) (source : PurePath) (parsed : Parsed) (lineNo : ℕ)
    (line : List Char) : Except Rejection Parsed :=
  match split line with
  | [_, value, mode] => do
    let path ← resolveDirectory host source value lineNo "team"
    let mode ← validateMode mode lineNo
    validateIdentifier path.name.toList "team repository name" matchesTeamName lineNo
    match parsed.teams.find? fun team => team.path = path with
    | some team => throw (.duplicateTeamPath path lineNo team.line)
    | none =>
      match parsed.teams.find? fun team => foldedName team.path = foldedName path with
      | some team => throw (.duplicateTeamName path.name lineNo team.line)
      | none => return { parsed with teams := parsed.teams ++ [⟨path, mode, lineNo⟩] }
  | _ => throw (.expected "team <path> <ro|rw>" lineNo)

def parseMount (host : Host) (source : PurePath) (parsed : Parsed) (lineNo : ℕ)
    (line : List Char) : Except Rejection Parsed :=
  match split line with
  | [_, name, value, mode] => do
    validateIdentifier name "mount name" matchesProjectName lineNo
    let path ← resolveDirectory host source value lineNo "mount"
    let mode ← validateMode mode lineNo
    match parsed.mounts.find? fun mount => mount.name = name with
    | some mount => throw (.duplicateMountName name lineNo mount.line)
    | none =>
      match parsed.mounts.find? fun mount => mount.path = path with
      | some mount => throw (.duplicateMountPath path lineNo mount.line)
      | none => return { parsed with mounts := parsed.mounts ++ [⟨name, path, mode, lineNo⟩] }
  | _ => throw (.expected "mount <name> <path> <ro|rw>" lineNo)

/-- A context block that is still open: its marker, its line and the lines so far. -/
structure Block where
  marker : List Char
  line : ℕ
  lines : List (List Char)
  deriving DecidableEq

def parseContext (parsed : Parsed) (lineNo : ℕ) (line : List Char) : Except Rejection Block :=
  match split line with
  | [_, '<' :: '<' :: marker] => do
    demand (matchesContextMarker marker = true) (.expected "context <<MARKER" lineNo)
    demand (parsed.context = none) (.duplicateDirective "context" lineNo)
    return ⟨marker, lineNo, []⟩
  | _ => throw (.expected "context <<MARKER" lineNo)

def isBlank (line : List Char) : Bool := strip line = []

def joinLines (lines : List (List Char)) : List Char := ['\n'].intercalate lines

/-- The end of a context block. -/
def closeBlock (parsed : Parsed) (block : Block) : Except Rejection Parsed := do
  let lines := Text.strip isBlank block.lines
  demand (lines ≠ []) (.emptyContext block.line)
  return { parsed with context := some (joinLines lines) }

def isComment (line : List Char) : Bool := line = [] || line.head? = some '#'

/-- One line outside a context block. -/
def parseLine (host : Host) (source : PurePath) (parsed : Parsed) (lineNo : ℕ)
    (line : List Char) : Except Rejection (Parsed × Option Block) :=
  if isComment line then .ok (parsed, none)
  else
    let directive := (partition line).1
    if directive = "name".toList then
      (parseName parsed lineNo line).map fun parsed => (parsed, none)
    else if directive = "description".toList then
      (parseDescription parsed lineNo line).map fun parsed => (parsed, none)
    else if directive = "context".toList then
      (parseContext parsed lineNo line).map fun block => (parsed, some block)
    else if directive = "team".toList then
      (parseTeam host source parsed lineNo line).map fun parsed => (parsed, none)
    else if directive = "mount".toList then
      (parseMount host source parsed lineNo line).map fun parsed => (parsed, none)
    else if directive = "mcp".toList then .error (.mcpUnsupported lineNo)
    else .error (.unknownDirective directive lineNo)

/-- The loop over the lines, inside a context block or outside. -/
def parseLines (host : Host) (source : PurePath) :
    ℕ → Parsed → Option Block → List (List Char) → Except Rejection Parsed
  | _, parsed, none, [] => .ok parsed
  | _, _, some block, [] => .error (.unterminatedContext block.marker block.line)
  | lineNo, parsed, none, raw :: lines => do
    let (parsed, block) ← parseLine host source parsed lineNo (strip raw)
    parseLines host source (lineNo + 1) parsed block lines
  | lineNo, parsed, some block, raw :: lines =>
    if raw = block.marker then do
      let parsed ← closeBlock parsed block
      parseLines host source (lineNo + 1) parsed none lines
    else
      parseLines host source (lineNo + 1) parsed
        (some { block with lines := block.lines ++ [raw] }) lines

/-- No root overlaps one declared before it. -/
def checkOverlaps : List (PurePath × ℕ) → List (PurePath × ℕ) → Except Rejection Unit
  | _, [] => .ok ()
  | earlier, root :: roots =>
    match earlier.find? fun other => pathsOverlap root.1 other.1 with
    | some other => .error (.overlap root.1 other.1 root.2 other.2)
    | none => checkOverlaps (earlier ++ [root]) roots

def Parsed.roots (parsed : Parsed) : List (PurePath × ℕ) :=
  (parsed.teams.map fun team => (team.path, team.line)) ++
    parsed.mounts.map fun mount => (mount.path, mount.line)

def Parsed.finish (parsed : Parsed) (source : PurePath) : Except Rejection ProjectDefinition :=
  match parsed.name, parsed.description with
  | none, _ => .error (.missing "name")
  | _, none => .error (.missing "description")
  | some name, some description => do
    demand (parsed.teams ≠ []) .noTeams
    demand (parsed.mounts ≠ []) .noMounts
    checkOverlaps [] parsed.roots
    return ⟨source, name, description, parsed.context.getD [], parsed.teams, parsed.mounts⟩

/-- `load_project` of a regular file. -/
def loadProject (host : Host) (source : PurePath) (content : List UInt8) :
    Except Rejection ProjectDefinition := do
  let content ← readRegularFile content "project definition"
  let text ← decodeTextFile content "project definition"
  let parsed ← parseLines host source 1 .empty none (splitlines text)
  parsed.finish source

end Cyclo.Project
