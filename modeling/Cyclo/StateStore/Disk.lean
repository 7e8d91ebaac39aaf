import Cyclo.Process.Storage
import Cyclo.StateStore.Instance
import Mathlib.Data.List.AList

/-! The files of a host realm: the pending batch and the entries of `instances/`. -/
namespace Cyclo.StateStore
open Python Process

/-- What `json.load` makes of a file. -/
inductive Content where
  | parsed (value : Value)
  | malformed
  | tooDeep

/-- What stands at the path of a document. -/
inductive File where
  | regular (content : Content)
  | symlink (dangling : Bool)
  | directory
  | special

/-- An entry of `instances/`: a directory has the metadata `run.json` and other names. -/
inductive Entry where
  | directory (metadata : Option File) (others : List String)
  | file (content : Content)
  | symlink
  | special

/-- The pending batch, and `instances/` with the temporary files and the quarantined directories
in it. -/
structure Realm where
  journal : Option File := none
  instances : AList fun _ : String => Entry := ∅

namespace Realm

def entry (realm : Realm) (name : String) : Option Entry := realm.instances.lookup name

def setEntry (realm : Realm) (name : String) (entry : Entry) : Realm :=
  { realm with instances := realm.instances.insert name entry }

def removeEntry (realm : Realm) (name : String) : Realm :=
  { realm with instances := realm.instances.erase name }

end Realm

/-- The atomic changes. A temporary file is renamed to its place; the removal of a quarantined tree
is one change, since nothing looks into it. -/
inductive Change where
  | createTemporary (name : String)
  | writeTemporary (name : String) (document : Value)
  | unlinkTemporary (name : String)
  | renameToJournal (name : String)
  | unlinkJournal
  | makeDirectory (name : String)
  | renameToMetadata (name directory : String)
  | renameDirectory (source target : String)
  | removeTree (name : String)
  | sync

/-- The effect of a change; `none` when the file system refuses it. -/
def Change.apply (realm : Realm) : Change → Option Realm
  | .createTemporary name =>
    match realm.entry name with
    | none => some (realm.setEntry name (.file .malformed))
    | some _ => none
  | .writeTemporary name document =>
    match realm.entry name with
    | some (.file _) => some (realm.setEntry name (.file (.parsed document)))
    | _ => none
  | .unlinkTemporary name =>
    match realm.entry name with
    | some (.file _) => some (realm.removeEntry name)
    | _ => none
  | .renameToJournal name =>
    match realm.entry name, realm.journal with
    | _, some .directory => none
    | some (.file content), _ => some { realm.removeEntry name with
      journal := some (.regular content) }
    | _, _ => none
  | .unlinkJournal =>
    match realm.journal with
    | none => none
    | some .directory => none
    | some _ => some { realm with journal := none }
  | .makeDirectory name =>
    match realm.entry name with
    | none => some (realm.setEntry name (.directory none []))
    | some (.directory _ _) => some realm
    | some _ => none
  | .renameToMetadata name directory =>
    match realm.entry name, realm.entry directory with
    | _, some (.directory (some .directory) _) => none
    | some (.file content), some (.directory _ others) =>
      some ((realm.removeEntry name).setEntry directory (.directory (some (.regular content)) others))
    | _, _ => none
  | .renameDirectory source target =>
    match realm.entry source, realm.entry target with
    | some entry, none => some ((realm.removeEntry source).setEntry target entry)
    | _, _ => none
  | .removeTree name =>
    match realm.entry name with
    | some (.directory _ _) => some (realm.removeEntry name)
    | _ => none
  | .sync => some realm

/-- The listing of `instances/`, and the process id with the random part of a temporary name. -/
inductive Question : Type → Type where
  | names : Question (List String)
  | suffix : Question String

/-- `f".{path.parent.name}.{path.name}.tmp.{os.getpid()}.{os.urandom(6).hex()}"` -/
def temporaryName (parent name suffix : String) : String :=
  "." ++ parent ++ "." ++ name ++ ".tmp." ++ suffix

def quarantineName (identifier suffix : String) : String := ".deleted-" ++ identifier ++ "-" ++ suffix

/-- Names are listed in any order; a suffix is one that no name in use has. -/
def Question.answers : {β : Type} → Question β → Realm → β → Prop
  | _, .names, realm, listed => listed.Nodup ∧ ∀ name, name ∈ listed ↔ (realm.entry name).isSome
  | _, .suffix, realm, ending => ∀ base, realm.entry (base ++ ending) = none

def realmStorage : Storage Realm Change Failure Question where
  apply change realm := change.apply realm
  answers := Question.answers
  fault e := ∃ text, e = .os text
  refusal := .os "refused"
  fault_refusal := ⟨_, rfl⟩
  surfaces _ := True
  surfaces_fault _ _ := trivial

/-- A computed answer to each question. -/
def Question.answer : {β : Type} → Question β → Realm → β
  | _, .names, realm => realm.instances.keys
  | _, .suffix, realm => unusedSuffix realm.instances.keys

theorem Question.answers_answer {β : Type} (question : Question β) (realm : Realm) :
    question.answers realm (question.answer realm) := by
  cases question with
  | names =>
    refine ⟨realm.instances.keys_nodup, fun name => ?_⟩
    rw [Realm.entry, AList.lookup_isSome, AList.mem_keys, Question.answer]
  | suffix =>
    intro base
    rw [Realm.entry, AList.lookup_eq_none, AList.mem_keys]
    exact append_unusedSuffix_notMem base _

end Cyclo.StateStore
