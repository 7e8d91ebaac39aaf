import Cyclo.Dcomp.System
import Cyclo.Process.Exceptions
import Cyclo.Python.Encoding
import Mathlib.Data.List.AList

/-! The materializer: the directory of generated files, the operations on it, and the publication
of a composition's descriptors and of the selected system file. -/
namespace Cyclo.Dcomp
open Python Process

abbrev Bytes := List UInt8

/-- What a descriptor directory contains under one name. -/
inductive Item where
  | file (content : Bytes)
  | other
  deriving DecidableEq

/-- An entry of `descriptors/`. -/
inductive Entry where
  | directory (items : List (String × Item))
  | symlink (dangling : Bool)
  | other
  deriving DecidableEq

/-- The root of the generated files: `system.dcomp`, the temporary files beside it, and
`descriptors/`. -/
structure Root where
  made : Bool := false
  selected : Option Bytes := none
  staged : AList fun _ : String => Bytes := ∅
  descriptors : Option (AList fun _ : String => Entry) := none

/-- The name of a descriptor's only file. -/
def manifestName : String := "component.dcomp"

namespace Root

def entry (root : Root) (name : String) : Option Entry :=
  root.descriptors.bind fun entries => entries.lookup name

/-- Change one entry; without `descriptors/` there is none. -/
def setEntry (root : Root) (name : String) (entry : Entry) : Option Root :=
  root.descriptors.map fun entries =>
    { root with descriptors := some (entries.insert name entry) }

def removeEntry (root : Root) (name : String) : Option Root :=
  root.descriptors.map fun entries => { root with descriptors := some (entries.erase name) }

end Root

/-- The atomic changes below the root. A change of a descriptor is one of `descriptors/<name>` or
of the file `component.dcomp` in it. -/
inductive Change where
  | makeRoot
  | makeDescriptors
  | makeDirectory (name : String)
  | createManifest (name : String)
  | appendManifest (name : String) (byte : UInt8)
  | unlinkManifest (name : String)
  | renameDirectory (source target : String)
  | removeDirectory (name : String)
  | createStaged (name : String)
  | appendStaged (name : String) (byte : UInt8)
  | unlinkStaged (name : String)
  | selectStaged (name : String)
  | sync
  deriving DecidableEq

/-- The effect of a change; `none` when the file system refuses it. -/
def Change.apply (root : Root) : Change → Option Root
  | .makeRoot => some { root with made := true }
  | .makeDescriptors =>
    if root.made then some { root with descriptors := some (root.descriptors.getD ∅) } else none
  | .makeDirectory name =>
    if root.entry name = none then root.setEntry name (.directory []) else none
  | .createManifest name =>
    match root.entry name with
    | some (.directory items) =>
      if items.lookup manifestName = none then
        root.setEntry name (.directory (items ++ [(manifestName, .file [])]))
      else none
    | _ => none
  | .appendManifest name byte =>
    match root.entry name with
    | some (.directory items) =>
      root.setEntry name (.directory (items.map fun
        | (item, .file content) =>
          (item, .file (if item = manifestName then content ++ [byte] else content))
        | (item, .other) => (item, .other)))
    | _ => none
  | .unlinkManifest name =>
    match root.entry name with
    | some (.directory items) =>
      if (items.lookup manifestName).isSome then
        root.setEntry name (.directory (items.filter (·.1 ≠ manifestName)))
      else none
    | _ => none
  -- a directory replaces nothing but an empty directory
  | .renameDirectory source target =>
    match root.entry source with
    | some (.directory items) =>
      if root.entry target = none ∨ root.entry target = some (.directory []) then
        (root.removeEntry source).bind fun next => next.setEntry target (.directory items)
      else none
    | _ => none
  | .removeDirectory name =>
    if root.entry name = some (.directory []) then root.removeEntry name else none
  | .createStaged name =>
    if root.made ∧ root.staged.lookup name = none then
      some { root with staged := root.staged.insert name [] }
    else none
  | .appendStaged name byte =>
    (root.staged.lookup name).map fun content =>
      { root with staged := root.staged.insert name (content ++ [byte]) }
  | .unlinkStaged name =>
    (root.staged.lookup name).map fun _ => { root with staged := root.staged.erase name }
  | .selectStaged name =>
    (root.staged.lookup name).map fun content =>
      { root with selected := some content, staged := root.staged.erase name }
  | .sync => some root

/-- An exception on its way: the text of an `OSError`, a `CycloError`, or the `UnicodeEncodeError`
of a text. -/
inductive Failure where
  | os (text : String)
  | cyclo (message : String)
  | rejected (reason : Rejection)
  | unicode (text : String)
  deriving DecidableEq

/-- The operations of a call. `suffix` is the process id and the random part of a temporary
name. -/
inductive FileOp : Type → Type 1 where
  | get {β : Type} (read : Root → β) : FileOp (Except Failure β)
  | change (change : Change) : FileOp (Except Failure Unit)
  | list : FileOp (Except Failure (List String))
  | suffix : FileOp String

/-- `f".{name}.tmp.{os.getpid()}.{os.urandom(6).hex()}"` -/
def temporaryName (name suffix : String) : String := "." ++ name ++ ".tmp." ++ suffix

/-- A suffix that no temporary left over has. -/
def Root.Fresh (root : Root) (suffix : String) : Prop :=
  ∀ name, root.entry (temporaryName name suffix) = none ∧
    root.staged.lookup (temporaryName name suffix) = none

/-- The names in `descriptors/`, in any order. -/
def Root.Lists (root : Root) (names : List String) : Prop :=
  names.Nodup ∧ ∀ name, name ∈ names ↔ (root.entry name).isSome

/-- An operation takes effect or is refused. With `faulty`, it may also fail without an effect, and
a suffix may be one that was used before. -/
def exec (faulty : Prop) (root : Root) {β : Type} (op : FileOp β) (r : β) (next : Root) : Prop :=
  match op, r with
  | .get read, .ok value => value = read root ∧ next = root
  | .get _, .error failure => faulty ∧ next = root ∧ ∃ text, failure = .os text
  | .change change, .ok () => change.apply root = some next
  | .change change, .error failure =>
    (change.apply root = none ∨ faulty) ∧ next = root ∧ ∃ text, failure = .os text
  | .list, .ok names => root.descriptors.isSome ∧ root.Lists names ∧ next = root
  | .list, .error failure =>
    (root.descriptors = none ∨ faulty) ∧ next = root ∧ ∃ text, failure = .os text
  | .suffix, text => (faulty ∨ root.Fresh text) ∧ next = root

def fileKernel (faulty : Prop) : Kernel FileOp Root where
  exec _ _ op root r next := exec faulty root op r next
  quit _ root := root

abbrev Call := Raising FileOp Failure

def get {β : Type} (read : Root → β) : Call β := .perform (.get read)

def change (change : Change) : Call Unit := .perform (.change change)

def listDescriptors : Call (List String) := .perform .list

def suffix : Call String := .ask .suffix

def fail {α : Type} (message : String) : Call α := throw (.cyclo message)

/-- `except CycloError: raise`, `except OSError as exc: raise CycloError(...)` -/
def wrapping {α : Type} (label : String) (call : Call α) : Call α :=
  .mapError (fun
    | .os text => .cyclo (label ++ ": " ++ text)
    | failure => failure) call

/-- A materializer. The hash is one with digests of 64 hexadecimal digits. -/
structure Materializer where
  root : PurePath
  sha256 : Bytes → String
  length_sha256 : ∀ content, (sha256 content).length = 64
  ascii_sha256 : ∀ content, (sha256 content).toList.all isAscii = true
  surrogates : Surrogates

namespace Materializer

def prepareRoot (m : Materializer) : Call Unit :=
  wrapping s!"cannot prepare generated DComp directory {m.root.text}" do
    change .makeRoot
    change .makeDescriptors
    change .sync
    change .sync

/-- `text.encode("utf-8")` -/
def encodeText (m : Materializer) (text : String) : Except Failure Bytes :=
  match m.surrogates.encode? text with
  | some content => .ok content
  | none => .error (.unicode text)

def componentText (component : Component) : String :=
  let key := fun endpoint : Endpoint => toLex (endpoint.service, endpoint.name)
  let lines := s!"docker {component.image}" ::
    ((sortedBy key component.inputs).map fun endpoint =>
      s!"input {endpoint.service} {endpoint.name}") ++
    ((sortedBy key component.outputs).map fun endpoint =>
      s!"output {endpoint.service} {endpoint.name}")
  String.intercalate "\n" lines ++ "\n"

def componentContent (component : Component) : Bytes := encode (componentText component)

def renderComponent (m : Materializer) (component : Component) : Except Failure Bytes := do
  let _ ← (token component.image "Docker image").mapError .rejected
  m.encodeText (componentText component)

/-- The path of an entry of `descriptors/`. -/
def descriptorPath (m : Materializer) (name : String) : PurePath :=
  ⟨m.root.root, m.root.parts ++ ["descriptors", name]⟩

def manifestPath (m : Materializer) (name : String) : PurePath :=
  ⟨m.root.root, m.root.parts ++ ["descriptors", name, manifestName]⟩

/-- The name of a component's descriptor directory. -/
def descriptorName (m : Materializer) (component : Component) (content : Bytes) : String :=
  component.name ++ "-" ++ String.ofList ((m.sha256 content).toList.take 16)

def writeManifest (name : String) (content : Bytes) : Call Unit := do
  change (.createManifest name)
  content.forM fun byte => change (.appendManifest name byte)
  change .sync

def hasManifest : Entry → Bool
  | .directory items => (items.lookup manifestName).isSome
  | _ => false

/-- The cleanup after a descriptor: the temporary directory and its file are removed. -/
def discard (temporary : String) : Call Unit := do
  match ← get fun root => root.entry temporary with
  | none => pure ()
  | some entry =>
    if hasManifest entry then change (.unlinkManifest temporary) else pure ()
    change (.removeDirectory temporary)

def publishDescriptor (name temporary : String) (content : Bytes) : Call Unit :=
  .protect (do
    change (.makeDirectory temporary)
    writeManifest temporary content
    change .sync
    change (.renameDirectory temporary name)
    change .sync) (discard temporary)

def writeDescriptor (m : Materializer) (name : String) (content : Bytes) : Call Unit :=
  wrapping s!"cannot materialize DComp descriptor {(m.descriptorPath name).text}" do
    match ← get fun root => root.entry name with
    -- a dangling link does not exist
    | none | some (.symlink true) => publishDescriptor name (temporaryName name (← suffix)) content
    | some (.directory items) =>
      match items.lookup manifestName with
      | some (.file stored) =>
        if stored ≠ content then
          fail s!"generated DComp descriptor content mismatch: {(m.manifestPath name).text}"
      | _ => fail s!"invalid generated DComp descriptor: {(m.manifestPath name).text}"
    | some _ =>
      fail s!"invalid generated DComp descriptor directory: {(m.descriptorPath name).text}"

def reject {α : Type} (r : Except Rejection α) : Call α := .ofExcept (r.mapError .rejected)

/-- The loop over the sorted components: every descriptor is written, and its name kept. -/
def writeDescriptors (m : Materializer) : List Component → Call (List (String × String))
  | [] => pure []
  | component :: components => do
    let content ← .ofExcept (m.renderComponent component)
    let name := m.descriptorName component content
    m.writeDescriptor name content
    return (component.name, name) :: (← m.writeDescriptors components)

def sourceToken (m : Materializer) (host : HostPaths) (source : PurePath) : Except Failure String :=
  match host.resolve source with
  | none => .error (.os source.text)
  | some canonical =>
    let value := match canonical.relativeTo m.root with
      | some relative => relative.text
      | none => canonical.text
    (token value "bind source").mapError .rejected

def mode (readOnly : Bool) : String := if readOnly then "ro" else "rw"

def bindLine (m : Materializer) (host : HostPaths) (component : String) (bind : Bind) :
    Except Failure String := do
  let source ← m.sourceToken host bind.source
  return s!"bind {component} {source} {bind.target} {mode bind.readOnly}"

def argumentLines (component : Component) : Except Rejection (List String) := do
  let arguments ← component.arguments.mapM fun argument => token argument "component argument"
  return if component.arguments = [] then []
    else
      let words := String.intercalate " " arguments
      [s!"args {component.name} {words}"]

/-- The lines of one component of `system.dcomp`. -/
def systemLines (m : Materializer) (host : HostPaths) (descriptors : List (String × String))
    (component : Component) : Except Failure (List String) := do
  let name := component.name
  let descriptor := (descriptors.lookup name).getD ""
  let binds ← (sortedBy (fun bind : Bind => toLex ((toLex (bind.source.root, bind.source.parts)),
    toLex (bind.target, bind.readOnly))) component.binds).mapM (m.bindLine host name)
  let volumes := (sortedBy (fun volume : Volume => toLex (volume.name,
    toLex (volume.target, volume.readOnly))) component.volumes).map fun volume =>
      s!"volume {name} {volume.name} {volume.target} {mode volume.readOnly}"
  let arguments ← (argumentLines component).mapError .rejected
  let ports := (sortedBy (fun port : PublishedPort => toLex (port.hostIp, toLex (port.hostPort,
    toLex (port.containerPort, port.protocol)))) component.ports).map fun port =>
      s!"publish {name} {port.protocol} {port.hostIp} {port.hostPort} {port.containerPort}"
  return s!"component {name} descriptors/{descriptor}" :: binds ++ volumes ++ arguments ++ ports ++
    (if component.egress then [s!"egress {name}"] else []) ++ [""]

/-- `"\n".join(lines).rstrip()` -/
def stripEnd (text : String) : String :=
  String.ofList (text.toList.reverse.dropWhile isSpace).reverse

def renderSystem (m : Materializer) (host : HostPaths) (system : System)
    (descriptors : List (String × String)) : Except Failure Bytes := do
  let components ← (sortedBy Component.name system.components).mapM
    (m.systemLines host descriptors)
  let links := (sortedBy (fun link : Link => toLex (link.consumer, toLex (link.input,
    toLex (link.provider, link.output)))) system.links).map fun link =>
      s!"link {link.consumer}.{link.input} {link.provider}.{link.output}"
  let lines := [s!"# generated by Cyclo; composition {system.digest m.sha256}",
    s!"system {system.name}", ""] ++ components.flatten ++ links
  m.encodeText (stripEnd (String.intercalate "\n" lines) ++ "\n")

/-- `temporary.unlink(missing_ok=True)` -/
def unstage (temporary : String) : Call Unit := do
  match ← get fun root => root.staged.lookup temporary with
  | none => pure ()
  | some _ => change (.unlinkStaged temporary)

def replaceFile (m : Materializer) (content : Bytes) : Call Unit := do
  let temporary := temporaryName "system.dcomp" (← suffix)
  let selected : PurePath := ⟨m.root.root, m.root.parts ++ ["system.dcomp"]⟩
  .protect (wrapping s!"cannot select generated DComp system {selected.text}" do
    change (.createStaged temporary)
    content.forM fun byte => change (.appendStaged temporary byte)
    change .sync
    change (.selectStaged temporary)
    change .sync) (unstage temporary)

/-- One entry of `descriptors/` that is not kept. -/
def removeUnusedEntry (m : Materializer) (name : String) : Call Unit := do
  let path := (m.descriptorPath name).text
  match ← get fun root => root.entry name with
  | some (.directory []) => change (.removeDirectory name)
  | some (.directory [(item, .file _)]) =>
    if item = manifestName then do
      change (.unlinkManifest name)
      change (.removeDirectory name)
    else fail s!"unexpected generated DComp descriptor contents: {path}"
  | some (.directory _) => fail s!"unexpected generated DComp descriptor contents: {path}"
  | _ => fail s!"unexpected generated DComp descriptor entry: {path}"

/-- The loop over the entries of `descriptors/`. -/
def removeUnused (m : Materializer) (keep : List String) : List String → Call Unit
  | [] => pure ()
  | name :: names => do
    (if name ∈ keep then pure () else m.removeUnusedEntry name)
    m.removeUnused keep names

def removeUnusedDescriptors (m : Materializer) (keep : List String) : Call Unit :=
  wrapping "cannot remove obsolete DComp descriptors" do
    m.removeUnused keep (← listDescriptors)
    change .sync

structure MaterializedSystem where
  digest : String
  componentNames : List String
  deriving DecidableEq

def materialize (m : Materializer) (host : HostPaths) (system : System) : Call MaterializedSystem := do
  reject (system.validate host)
  m.prepareRoot
  let descriptors ← m.writeDescriptors (sortedBy Component.name system.components)
  let content ← .ofExcept (m.renderSystem host system descriptors)
  m.replaceFile content
  m.removeUnusedDescriptors (descriptors.map Prod.snd)
  return ⟨system.digest m.sha256, (sortedBy id (system.components.map Component.name))⟩

end Materializer

end Cyclo.Dcomp
