import Cyclo.Posix.Resolution
import Cyclo.Python.Decoding
import Cyclo.Python.Text

/-! `ConfinedQueueReader`: reads of a queue within one directory and within limits. -/
namespace Cyclo.QueueReader
open Posix Python

/-- `QueueLimitError` is an OSError of its own. -/
inductive Failure where
  | os
  | queueLimit
  | value
  | type
  deriving DecidableEq, Repr

variable {ι : Type}

/-- A reader; it has no root once it is closed. -/
structure Reader (ι : Type) where
  maxEntries : ℕ
  maxFileBytes : ℕ
  maxReadBytes : ℕ
  entriesSeen : ℕ
  bytesRead : ℕ
  rootFd : Option ι

/-- A reader, and the nodes that were opened. -/
structure Session (ι : Type) where
  reader : Reader ι
  opened : List ι

abbrev Reading (ι α : Type) := ExceptT Failure (StateM (Session ι)) α

/-- `except (OSError, ValueError)` -/
def attempt {α : Type} (x : Reading ι α) : Reading ι (Option α) :=
  tryCatch (some <$> x) fun failure =>
    match failure with
    | .type => throw .type
    | _ => pure none

/-- A path as text, or its segments. -/
inductive Relative where
  | path (text : String)
  | segments (texts : List String)

def Relative.toPath : Relative → PurePath
  | .path text => .ofText text
  | .segments texts => texts.foldl (fun path text => path.join (.ofText text)) (.ofText "")

def parts (relative : Relative) : Except Failure (List String) :=
  let path := relative.toPath
  if path.isAbsolute || path.parts.any (· ∈ ["", ".", ".."]) then .error .value
  else .ok path.parts

section
variable (tree : FileTree ι)

/-- `os.open` relative to a directory; a name with NUL is no name. -/
def openAt (access : FileTree.Access) (directory : ι) (name : String) : Reading ι ι :=
  if '\x00' ∈ name.toList then throw .value
  else
    match tree.openAt access directory name with
    | none => throw .os
    | some node => do
      modify fun session => { session with opened := session.opened ++ [node] }
      return node

/-- `os.dup(self.root_fd)` -/
def dupRoot : Reading ι ι := do
  match (← get).reader.rootFd with
  | none => throw .type
  | some root => return root

def openParts (directory : ι) : List String → Reading ι ι
  | [] => return directory
  | part :: rest => do openParts (← openAt tree .readDirectory directory part) rest

def openDirectory (relative : Relative) : Reading ι ι := do
  let parts ← liftExcept (parts relative)
  openParts tree (← dupRoot) parts
where
  liftExcept {α : Type} : Except Failure α → Reading ι α
    | .ok a => return a
    | .error failure => throw failure

def openParent (relative : Relative) : Reading ι (ι × String) := do
  let parts ← openDirectory.liftExcept (parts relative)
  match parts.getLast? with
  | none => throw .value
  | some name => return (← openDirectory tree (.segments parts.dropLast), name)

/-- The content of a regular file. -/
def openRegular (relative : Relative) : Reading ι (List UInt8) := do
  let (parent, name) ← openParent tree relative
  match tree.kind (← openAt tree .read parent name) with
  | .regular content => return content
  | _ => throw .os

/-- One round of `_entries`. -/
def takeEntry : Reading ι Unit := do
  let reader := (← get).reader
  if reader.maxEntries ≤ reader.entriesSeen then throw .queueLimit
  else set { (← get) with reader := { reader with entriesSeen := reader.entriesSeen + 1 } }

def takeEntries : List (String × ι) → Reading ι Unit
  | [] => return ()
  | _ :: rest => do
    takeEntry
    takeEntries rest

def entriesOf (directory : ι) : List (String × ι) :=
  match tree.kind directory with
  | .directory entries _ => entries
  | _ => []

def isDirectory (node : ι) : Bool :=
  match tree.kind node with
  | .directory _ _ => true
  | _ => false

def isRegular (node : ι) : Bool :=
  match tree.kind node with
  | .regular _ => true
  | _ => false

/-- The names of the entries of a directory that are kept. -/
def listNames (relative : Relative) (keep : String × ι → Bool) : Reading ι (List String) := do
  match ← attempt (openDirectory tree relative) with
  | none => return []
  | some directory =>
    takeEntries (entriesOf tree directory)
    return sortedBy id (((entriesOf tree directory).filter keep).map Prod.fst)

def listDirectories (relative : Relative) (includeHidden : Bool) : Reading ι (List String) :=
  listNames tree relative fun entry =>
    (includeHidden || !entry.1.startsWith ".") && isDirectory tree entry.2

def listRegularFiles (relative : Relative) (suffix : String) : Reading ι (List String) :=
  listNames tree relative fun entry => entry.1.endsWith suffix && isRegular tree entry.2

def hasDirectory (relative : Relative) : Reading ι Bool :=
  Option.isSome <$> attempt (openDirectory tree relative)

def requireDirectory (relative : Relative) : Reading ι Unit := do
  let _ ← openDirectory tree relative

def hasRegularFile (relative : Relative) : Reading ι Bool :=
  Option.isSome <$> attempt (openRegular tree relative)

def directoryTimestamp (relative : Relative) : Reading ι (Option ℚ) :=
  Option.map tree.mtime <$> attempt (openDirectory tree relative)

def fileSize (relative : Relative) : Reading ι ℕ :=
  (fun content => (content.getD []).length) <$> attempt (openRegular tree relative)

structure FileText where
  text : List Char
  size : ℕ
  truncated : Bool

/-- What `read_file` reads of a content, whether more is there, and whether that is before it. -/
def readContent (content : List UInt8) (maxBytes remaining : ℕ) (tail : Bool) :
    List UInt8 × Bool × Bool :=
  let size := content.length
  if tail && maxBytes < size then
    ((content.drop (size - maxBytes)).take (min maxBytes (remaining + 1)), true, true)
  else
    let data := content.take (min (maxBytes + 1) (remaining + 1))
    (data, maxBytes < size || maxBytes < data.length, false)

def marked (text : List Char) (truncated earlier : Bool) : List Char :=
  if !truncated then text
  else if earlier then "\n[... earlier content truncated ...]\n".toList ++ text
  else text ++ "\n[... content truncated ...]\n".toList

/-- `read_file` once the file is open. -/
def readOpened (content : List UInt8) (maxBytes : ℕ) (tail : Bool) : Reading ι FileText := do
  let reader := (← get).reader
  let remaining := reader.maxReadBytes - reader.bytesRead
  let (data, truncated, earlier) := readContent content maxBytes remaining tail
  if remaining < data.length then throw .queueLimit
  else
    set { (← get) with reader := { reader with bytesRead := reader.bytesRead + data.length } }
    return {
      text := marked (decodeReplacing (data.take maxBytes)) truncated earlier
      size := content.length
      truncated := truncated }

def readFile (relative : Relative) (maxBytes : ℤ) (tail : Bool) : Reading ι FileText := do
  let reader := (← get).reader
  if maxBytes < 0 ∨ (reader.maxFileBytes : ℤ) < maxBytes then throw .value
  else readOpened (← openRegular tree relative) maxBytes.toNat tail

def readText (relative : Relative) (fallback : List Char) (maxBytes : ℤ) (tail : Bool) :
    Reading ι (List Char) :=
  tryCatch (FileText.text <$> readFile tree relative maxBytes tail) fun failure =>
    match failure with
    | .queueLimit => throw .queueLimit
    | .type => throw .type
    | _ => pure fallback

def isFifo (node : ι) : Bool :=
  match tree.kind node with
  | .fifo _ => true
  | _ => false

/-- `os.stat` of a name, not of what a link stands for. -/
def statAt (directory : ι) (name : String) : Except Failure ι :=
  if '\x00' ∈ name.toList then .error .value
  else
    match tree.resolve true directory name with
    | none => .error .os
    | some node => .ok node

/-- `except OSError` -/
def orFalse (x : Reading ι Bool) : Reading ι Bool :=
  tryCatch x fun failure =>
    match failure with
    | .os => return false
    | .queueLimit => return false
    | failure => throw failure

def fifoWritable (relative : Relative) : Reading ι Bool := do
  match ← attempt (openParent tree relative) with
  | none => return false
  | some (parent, name) => orFalse do
    let entry ← openDirectory.liftExcept (statAt tree parent name)
    if isFifo tree entry then
      return isFifo tree (← openAt tree .write parent name)
    else return false

def close : Reading ι Unit :=
  modify fun session => { session with reader := { session.reader with rootFd := none } }

inductive Call where
  | hasDirectory (relative : Relative)
  | requireDirectory (relative : Relative)
  | hasRegularFile (relative : Relative)
  | listDirectories (relative : Relative) (includeHidden : Bool)
  | listRegularFiles (relative : Relative) (suffix : String)
  | directoryTimestamp (relative : Relative)
  | fileSize (relative : Relative)
  | readFile (relative : Relative) (maxBytes : ℤ) (tail : Bool)
  | readText (relative : Relative) (fallback : List Char) (maxBytes : ℤ) (tail : Bool)
  | fifoWritable (relative : Relative)
  | close

inductive Value where
  | none
  | bool (value : Bool)
  | names (names : List String)
  | time (mtime : Option ℚ)
  | size (bytes : ℕ)
  | file (file : FileText)
  | text (text : List Char)

def Call.run : Call → Reading ι Value
  | .hasDirectory relative => Value.bool <$> QueueReader.hasDirectory tree relative
  | .requireDirectory relative => (fun _ => Value.none) <$> QueueReader.requireDirectory tree relative
  | .hasRegularFile relative => Value.bool <$> QueueReader.hasRegularFile tree relative
  | .listDirectories relative includeHidden =>
    Value.names <$> QueueReader.listDirectories tree relative includeHidden
  | .listRegularFiles relative suffix =>
    Value.names <$> QueueReader.listRegularFiles tree relative suffix
  | .directoryTimestamp relative => Value.time <$> QueueReader.directoryTimestamp tree relative
  | .fileSize relative => Value.size <$> QueueReader.fileSize tree relative
  | .readFile relative maxBytes tail => Value.file <$> QueueReader.readFile tree relative maxBytes tail
  | .readText relative fallback maxBytes tail =>
    Value.text <$> QueueReader.readText tree relative fallback maxBytes tail
  | .fifoWritable relative => Value.bool <$> QueueReader.fifoWritable tree relative
  | .close => (fun _ => Value.none) <$> QueueReader.close

end

/-- A call that was made, on a tree as it was then. -/
structure Made (ι : Type) where
  tree : FileTree ι
  call : Call
  before : Reader ι
  result : Except Failure Value
  after : Reader ι
  opened : List ι

def make (tree : FileTree ι) (call : Call) (before : Reader ι) : Made ι :=
  let (result, session) := (call.run tree).run ⟨before, []⟩
  ⟨tree, call, before, result, session.reader, session.opened⟩

/-- The calls of a sequence, each made on the reader as the one before left it. -/
def makeAll : Reader ι → List (FileTree ι × Call) → List (Made ι)
  | _, [] => []
  | reader, (tree, call) :: rest =>
    let made := make tree call reader
    made :: makeAll made.after rest

/-- `__init__`, with the root that `_open_absolute_directory` opens. -/
def openReader (tree : FileTree ι) (root : PurePath) (maxEntries maxFileBytes maxReadBytes : ℤ) :
    Except Failure (Reader ι) :=
  if maxEntries < 0 ∨ maxFileBytes < 0 ∨ maxReadBytes < 0 then .error .value
  else
    let reader := ⟨maxEntries.toNat, maxFileBytes.toNat, maxReadBytes.toNat, 0, 0, none⟩
    match ((openParts tree tree.root root.parts).run ⟨reader, []⟩).1 with
    | .error failure => .error failure
    | .ok directory => .ok { reader with rootFd := some directory }

end Cyclo.QueueReader
