import Cyclo.Text.Splitting
import Mathlib.Data.Rat.Defs
import Mathlib.Data.String.Basic
import Mathlib.Logic.Relation

/-! Trees of files with links, and how a name is resolved from a directory in them. -/
namespace Cyclo.Posix

/-- What a node is. A FIFO says whether something reads from it. -/
inductive Kind (ι : Type) where
  | directory (entries : List (String × ι)) (parent : ι)
  | regular (content : List UInt8)
  | symlink (target : String)
  | fifo (read : Bool)
  | other

structure FileTree (ι : Type) where
  root : ι
  kind : ι → Kind ι
  /-- Whether a node may be opened. -/
  accessible : ι → Bool
  mtime : ι → ℚ
  /-- How many links one resolution follows. -/
  maxLinks : ℕ

/-- The components of a path; a slash at its end stands for one more, the directory itself. -/
def components (path : String) : List String :=
  let names := ((path.toList.splitOn '/').map String.ofList).filter (· ≠ "")
  if path.toList.getLast? = some '/' then names ++ ["."] else names

/-- A name of one component that is an entry, not the directory or its parent. -/
structure Proper (name : String) : Prop where
  nonempty : name ≠ ""
  noSlash : '/' ∉ name.toList
  notSelf : name ≠ "."
  notParent : name ≠ ".."

theorem components_of_proper {name : String} (h : Proper name) : components name = [name] := by
  have hlast : ¬ name.toList.getLast? = some '/' := by
    intro hlast
    exact h.noSlash (List.mem_of_getLast? hlast)
  have hsplit : name.toList.splitOn '/' = [name.toList] := by
    apply List.splitOnP_eq_singleton
    intro c hc
    rw [beq_eq_false_iff_ne]
    rintro rfl
    exact h.noSlash hc
  unfold components
  dsimp only
  rw [if_neg hlast, hsplit, List.map_singleton, String.ofList_toList, List.filter_singleton,
    decide_eq_true h.nonempty]
  rfl

variable {ι : Type} (tree : FileTree ι)

namespace FileTree

def child (directory : ι) (name : String) : Option ι :=
  match tree.kind directory with
  | .directory entries parent =>
    if name = "." then some directory
    else if name = ".." then some parent
    else entries.lookup name
  | _ => none

/-- Where the resolution of a path starts. -/
def start (directory : ι) (path : String) : ι :=
  if path.toList.head? = some '/' then tree.root else directory

/-- The node of some components. What a link stands for is resolved by `follow`. -/
def walkWith (follow : ι → List String → Option ι) (nofollow : Bool) : ι → List String → Option ι
  | directory, [] => some directory
  | directory, name :: rest =>
    match tree.child directory name with
    | none => none
    | some node =>
      match tree.kind node with
      | .symlink target =>
        if rest = [] ∧ nofollow = true then none
        else if target = "" then none
        else follow (tree.start directory target) (components target ++ rest)
      | _ => walkWith follow nofollow node rest

/-- The resolution of components through a number of links. -/
def walk (nofollow : Bool) : ℕ → ι → List String → Option ι
  | 0 => tree.walkWith (fun _ _ => none) nofollow
  | links + 1 => tree.walkWith (walk nofollow links) nofollow

def resolve (nofollow : Bool) (directory : ι) (path : String) : Option ι :=
  if path = "" then none
  else tree.walk nofollow tree.maxLinks (tree.start directory path) (components path)

inductive Access where
  | read
  | readDirectory
  | write
  deriving DecidableEq

/-- `open` with O_NOFOLLOW and O_NONBLOCK, relative to a directory. -/
def openAt (access : Access) (directory : ι) (path : String) : Option ι :=
  match tree.resolve true directory path with
  | none => none
  | some node =>
    if !tree.accessible node then none
    else
      match tree.kind node, access with
      | .directory _ _, .write => none
      | .directory _ _, _ => some node
      | _, .readDirectory => none
      | .fifo read, .write => if read then some node else none
      | _, _ => some node

/-- A node is an entry of a directory. -/
def IsEntry (directory node : ι) : Prop :=
  ∃ entries parent name, tree.kind directory = .directory entries parent ∧ (name, node) ∈ entries

/-- A node is the top or reached from it through entries of directories, never through a link or to a
parent. -/
def Below (top node : ι) : Prop := Relation.ReflTransGen tree.IsEntry top node

variable {tree}

theorem Below.self (top : ι) : tree.Below top top := Relation.ReflTransGen.refl

theorem Below.entry {top directory node : ι} (h : tree.Below top directory)
    (hentry : tree.IsEntry directory node) : tree.Below top node := h.tail hentry

theorem child_isEntry {directory node : ι} {name : String} (hname : Proper name)
    (h : tree.child directory name = some node) : tree.IsEntry directory node := by
  unfold child at h
  cases hkind : tree.kind directory with
  | directory entries parent =>
    rw [hkind] at h
    dsimp only at h
    rw [if_neg hname.notSelf, if_neg hname.notParent] at h
    obtain ⟨before, after, hentries, -⟩ := List.lookup_eq_some_iff.mp h
    refine ⟨entries, parent, name, hkind, ?_⟩
    rw [hentries]
    exact List.mem_append_right _ List.mem_cons_self
  | _ =>
    rw [hkind] at h
    cases h

/-- A proper name that is resolved without links at its end is an entry. -/
theorem resolve_isEntry {directory node : ι} {name : String} (hname : Proper name)
    (h : tree.resolve true directory name = some node) : tree.IsEntry directory node := by
  have hstart : tree.start directory name = directory := by
    unfold start
    refine if_neg fun hhead => hname.noSlash (List.mem_of_mem_head? hhead)
  have hone : ∀ follow, tree.walkWith follow true directory [name] = some node →
      tree.IsEntry directory node := by
    intro follow hwalk
    unfold walkWith at hwalk
    cases hchild : tree.child directory name with
    | none =>
      rw [hchild] at hwalk
      cases hwalk
    | some found =>
      rw [hchild] at hwalk
      dsimp only at hwalk
      cases hkind : tree.kind found with
      | symlink target =>
        rw [hkind] at hwalk
        dsimp only at hwalk
        rw [if_pos ⟨rfl, rfl⟩] at hwalk
        cases hwalk
      | _ =>
        rw [hkind] at hwalk
        cases hwalk
        exact child_isEntry hname hchild
  unfold resolve at h
  rw [if_neg hname.nonempty, components_of_proper hname, hstart] at h
  cases hlinks : tree.maxLinks with
  | zero =>
    rw [hlinks] at h
    exact hone _ h
  | succ links =>
    rw [hlinks] at h
    exact hone _ h

theorem openAt_resolve {access : Access} {directory node : ι} {path : String}
    (h : tree.openAt access directory path = some node) :
    tree.resolve true directory path = some node := by
  unfold openAt at h
  cases hresolve : tree.resolve true directory path with
  | none =>
    rw [hresolve] at h
    cases h
  | some found =>
    rw [hresolve] at h
    dsimp only at h
    split_ifs at h
    split at h
    · cases h
    · exact h
    · cases h
    · split_ifs at h
      exact h
    · exact h

/-- What is opened under a proper name below the top is below the top. -/
theorem Below.openAt {access : Access} {top directory node : ι} {name : String}
    (hbelow : tree.Below top directory) (hname : Proper name)
    (h : tree.openAt access directory name = some node) : tree.Below top node :=
  hbelow.entry (resolve_isEntry hname (openAt_resolve h))

end FileTree
end Cyclo.Posix
