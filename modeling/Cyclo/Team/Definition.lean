import Cyclo.Team.Roster

/-! The definition of a team: the files that the host reads from a team directory and checks. -/
namespace Cyclo.Team
open Python

/-- A directory entry; what a symlink points to is never read. -/
inductive Entry where
  | file (content : List UInt8)
  | symlink
  | notRegular
  | unreadable

structure Directory where
  entries : List (List Char × Entry)
  nodup : (entries.map Prod.fst).Nodup
  names : ∀ entry ∈ entries, '/' ∉ entry.1 ∧ '\x00' ∉ entry.1

def Directory.read (directory : Directory) (name : List Char) : Option Entry :=
  directory.entries.lookup name

inductive RolesEntry where
  | missing
  | notDirectory
  | directory (roles : Directory)

/-- A team directory; `roles` is the one entry of it that is opened as a directory. -/
structure TeamDirectory where
  root : Directory
  roles : RolesEntry

inductive Label where
  | roster
  | role (name : List Char)
  | protocol
  | dockerfile
  deriving DecidableEq

/-- Why the host refuses a team directory. -/
inductive DefinitionRejection where
  | rosterNotFound
  | unsupportedRosterName (name : List Char)
  | notFound (label : Label)
  | symlink (label : Label)
  | cannotOpen (label : Label)
  | notRegular (label : Label)
  | tooLarge (label : Label)
  | rolesNotFound
  | rolesNotDirectory
  | notUtf8 (label : Label)
  | roster (reason : Rejection)
  | noFrom
  | noBaseArgument
  | otherFinalStage
  | protocolChanged
  | rosterChanged
  deriving DecidableEq

/-- A file of the snapshot, with its path below the team directory. -/
structure TeamFile where
  path : List Char
  label : Label
  content : List UInt8
  deriving DecidableEq

structure TeamSnapshot where
  roster : TeamFile
  roles : List TeamFile
  protocol : Option TeamFile
  dockerfile : TeamFile
  deriving DecidableEq

/-- The files in the order in which they are read. -/
def TeamSnapshot.files (snapshot : TeamSnapshot) : List TeamFile :=
  snapshot.roster :: snapshot.roles ++ snapshot.protocol.toList ++ [snapshot.dockerfile]

def TeamSnapshot.roleNames (snapshot : TeamSnapshot) : List (List Char) :=
  snapshot.roles.filterMap fun file =>
    match file.label with
    | .role name => some name
    | _ => none

def rosterNames : List (List Char) := ["team", "default.team"].map String.toList

def maxTeamFileBytes : ℕ := 1024 * 1024

def agentsFile : List Char := "AGENTS.md".toList

def dockerfileName : List Char := "Dockerfile".toList

def rolePath (name : List Char) : List Char := "roles/".toList ++ name

/-- `_read_regular_file_at` -/
def readRegularFileAt (directory : Directory) (name : List Char) (path : List Char)
    (label : Label) : Except DefinitionRejection TeamFile :=
  match directory.read name with
  | none => throw (.notFound label)
  | some .symlink => throw (.symlink label)
  | some .unreadable => throw (.cannotOpen label)
  | some .notRegular => throw (.notRegular label)
  | some (.file content) => do
    demand (content.length ≤ maxTeamFileBytes) (.tooLarge label)
    return ⟨path, label, content⟩

def openRolesDirectory (directory : TeamDirectory) : Except DefinitionRejection Directory :=
  match directory.roles with
  | .missing => throw .rolesNotFound
  | .notDirectory => throw .rolesNotDirectory
  | .directory roles => return roles

def isRoleName (name : List Char) : Bool := ".md".toList.isSuffixOf name

/-- The names of the role files, sorted. -/
def roleNamesOf (roles : Directory) : List (List Char) :=
  sortedBy id ((roles.entries.map Prod.fst).filter isRoleName)

def chooseRoster (directory : TeamDirectory) (rosterName : Option (List Char)) :
    Except DefinitionRejection (List Char) :=
  match rosterName <|> rosterNames.find? (fun name => (directory.root.read name).isSome) with
  | none => throw .rosterNotFound
  | some name => do
    demand (name ∈ rosterNames) (.unsupportedRosterName name)
    return name

def readProtocol (directory : TeamDirectory) : Except DefinitionRejection (Option TeamFile) :=
  if (directory.root.read agentsFile).isSome then
    some <$> readRegularFileAt directory.root agentsFile agentsFile .protocol
  else return none

/-- `_read_team_snapshot` -/
def readTeamSnapshot (directory : TeamDirectory) (rosterName : Option (List Char)) :
    Except DefinitionRejection TeamSnapshot := do
  let rosterName ← chooseRoster directory rosterName
  let roster ← readRegularFileAt directory.root rosterName rosterName .roster
  let rolesDirectory ← openRolesDirectory directory
  let roles ← (roleNamesOf rolesDirectory).mapM fun name =>
    readRegularFileAt rolesDirectory name (rolePath name) (.role name)
  let protocol ← readProtocol directory
  let dockerfile ← readRegularFileAt directory.root dockerfileName dockerfileName .dockerfile
  let snapshot : TeamSnapshot := ⟨roster, roles, protocol, dockerfile⟩
  snapshot.files.forM fun file => demand (decode file.content).isSome (.notUtf8 file.label)
  return snapshot

/-- `line.split(None, 1)` of a line without space around it: the first word, and the rest. -/
def splitFirst (line : List Char) : List Char × List Char :=
  (line.takeWhile fun c => !isSpace c, strip (line.dropWhile fun c => !isSpace c))

/-- The directive that a line begins with; only these letters become the capitals of `keyword`. -/
def hasKeyword (keyword : String) (line : List Char) : Bool :=
  (splitFirst line).1.map Char.toUpper = keyword.toList

/-- The lines with a directive. -/
def directives (content : List Char) : List (List Char) :=
  (splitlines content).map strip |>.filter fun line => line ≠ [] && line.head? ≠ some '#'

/-- The name that `ARG` declares, if a line is such a directive. -/
def argumentName (line : List Char) : Option (List Char) :=
  let rest := (splitFirst line).2
  if rest ≠ [] && hasKeyword "ARG" line then some (strip (rest.takeWhile fun c => c ≠ '='))
  else none

def teamBase : List Char := "CYCLO_TEAM_BASE".toList

def teamBaseReferences : List (List Char) :=
  ["$\x7bCYCLO_TEAM_BASE\x7d", "$CYCLO_TEAM_BASE"].map String.toList

/-- The image of a `FROM` line, behind a flag if there is one. -/
def fromImage (line : List Char) : Option (List Char) :=
  match split line with
  | _ :: flag :: fields =>
    if ['-', '-'].isPrefixOf flag then fields.head? else some flag
  | _ => none

/-- `_validate_team_dockerfile` -/
def validateTeamDockerfile (snapshot : TeamSnapshot) : Except DefinitionRejection Unit :=
  match decode snapshot.dockerfile.content with
  | none => throw (.notUtf8 .dockerfile)
  | some content =>
    let lines := directives content
    match (lines.filter (hasKeyword "FROM")).getLast? with
    | none => throw .noFrom
    | some lastFrom => do
      let before := lines.takeWhile fun line => !hasKeyword "FROM" line
      demand (teamBase ∈ before.filterMap argumentName) .noBaseArgument
      demand (∃ image, fromImage lastFrom = some image ∧ image ∈ teamBaseReferences)
        .otherFinalStage

set_option linter.dupNamespace false in
/-- What is kept of a loaded team, beside paths that follow from its directory. -/
structure Team where
  roster : List Char
  protocol : Option (List Char)
  agents : List Agent
  deriving DecidableEq

def parseSnapshotRoster (snapshot : TeamSnapshot) : Except DefinitionRejection (List Agent) :=
  (parseRoster snapshot.roleNames snapshot.roster.content).mapError .roster

/-- `load_team` -/
def loadTeam (directory : TeamDirectory) : Except DefinitionRejection Team := do
  let snapshot ← readTeamSnapshot directory none
  let agents ← parseSnapshotRoster snapshot
  validateTeamDockerfile snapshot
  return ⟨snapshot.roster.path, snapshot.protocol.map TeamFile.path, agents⟩

/-- The bytes that `team_generation` hashes. -/
def TeamSnapshot.stream (snapshot : TeamSnapshot) : List UInt8 :=
  snapshot.files.flatMap fun file => utf8 file.path ++ 0 :: (file.content ++ [0])

/-- `team_generation`, with `hashlib.sha256(…).hexdigest()` and the output of `git rev-parse HEAD`,
if it succeeds. -/
def teamGeneration (sha256 : List UInt8 → List Char) (head : Option (List Char))
    (directory : TeamDirectory) (team : Team) : Except DefinitionRejection (List Char) := do
  let commit := (head.map strip).getD "unborn".toList
  let snapshot ← readTeamSnapshot directory (some team.roster)
  demand (snapshot.protocol.isNone = team.protocol.isNone) .protocolChanged
  let agents ← parseSnapshotRoster snapshot
  demand (agents = team.agents) .rosterChanged
  validateTeamDockerfile snapshot
  let content := (sha256 snapshot.stream).take 16
  return commit ++ "-content-".toList ++ content

end Cyclo.Team
