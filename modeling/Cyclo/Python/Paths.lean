import Cyclo.Python.Text
import Mathlib.Data.Set.Lattice
import Mathlib.Order.CompletePartialOrder

/-! Trees of paths, and what `os.path` makes of a path without the host. -/
namespace Cyclo.Python.PurePath

/-- `path == other or other in path.parents` -/
def isRelativeTo (path other : PurePath) : Bool :=
  path.root = other.root && other.parts.isPrefixOf path.parts

def overlap (left right : PurePath) : Bool :=
  left = right || left.isRelativeTo right || right.isRelativeTo left

/-- A path and all that it is a parent of. -/
def tree (path : PurePath) : Set PurePath := {other | other.isRelativeTo path = true}

theorem isRelativeTo_iff {path other : PurePath} :
    path.isRelativeTo other = true ↔ path.root = other.root ∧ other.parts <+: path.parts := by
  unfold isRelativeTo
  rw [Bool.and_eq_true, decide_eq_true_iff, List.isPrefixOf_iff_prefix]

theorem isRelativeTo_self (path : PurePath) : path.isRelativeTo path = true :=
  isRelativeTo_iff.mpr ⟨rfl, List.prefix_rfl⟩

theorem isRelativeTo_trans {path middle other : PurePath} (h : path.isRelativeTo middle = true)
    (h' : middle.isRelativeTo other = true) : path.isRelativeTo other = true := by
  rw [isRelativeTo_iff] at h h' ⊢
  exact ⟨h.1.trans h'.1, h'.2.trans h.2⟩

theorem mem_tree {path other : PurePath} : other ∈ path.tree ↔ other.isRelativeTo path = true :=
  Iff.rfl

theorem self_mem_tree (path : PurePath) : path ∈ path.tree := isRelativeTo_self path

theorem overlap_iff {left right : PurePath} :
    overlap left right = true ↔ left.isRelativeTo right = true ∨ right.isRelativeTo left = true := by
  unfold overlap
  rw [Bool.or_eq_true, Bool.or_eq_true, decide_eq_true_iff]
  constructor
  · rintro ((rfl | h) | h)
    · exact Or.inl (isRelativeTo_self left)
    · exact Or.inl h
    · exact Or.inr h
  · rintro (h | h)
    · exact Or.inl (Or.inr h)
    · exact Or.inr h

/-- Paths overlap exactly when their trees have a path in common. -/
theorem overlap_eq_false_iff {left right : PurePath} :
    overlap left right = false ↔ Disjoint left.tree right.tree := by
  rw [Set.disjoint_left, ← Bool.not_eq_true, overlap_iff]
  constructor
  · intro h path hleft hright
    rw [mem_tree, isRelativeTo_iff] at hleft hright
    have hroot : left.root = right.root := hleft.1.symm.trans hright.1
    rcases List.prefix_or_prefix_of_prefix hleft.2 hright.2 with hprefix | hprefix
    · exact h (Or.inr (isRelativeTo_iff.mpr ⟨hroot.symm, hprefix⟩))
    · exact h (Or.inl (isRelativeTo_iff.mpr ⟨hroot, hprefix⟩))
  · rintro h (hover | hover)
    · exact h (self_mem_tree left) hover
    · exact h hover (self_mem_tree right)

/-- One component of `normpath`, behind those that are kept so far, the last one first. -/
def pushPart (root : String) (kept : List String) (part : String) : List String :=
  if part ≠ ".." then part :: kept
  else
    match kept with
    | [] => if root = "" then [part] else []
    | last :: before => if last = ".." then part :: kept else before

/-- `os.path.normpath` -/
def normpath (path : PurePath) : PurePath :=
  ⟨path.root, (path.parts.foldl (pushPart path.root) []).reverse⟩

/-- `os.path.abspath`, in a working directory. -/
def abspath (cwd path : PurePath) : PurePath := normpath (cwd.join path)

/-- `path.expanduser()`, where `home` gives what a first component such as `~name` stands for. It
raises where that is not known. -/
def expanduser (home : String → Option PurePath) (path : PurePath) : Option PurePath :=
  match path.parts with
  | first :: rest =>
    if path.root = "" ∧ first.startsWith "~" then
      (home first).map fun directory => ⟨directory.root, directory.parts ++ rest⟩
    else some path
  | [] => some path

theorem normpath_of_plain {path : PurePath} (h : ".." ∉ path.parts) : normpath path = path := by
  have hkept : ∀ (parts kept : List String), ".." ∉ parts →
      parts.foldl (pushPart path.root) kept = parts.reverse ++ kept := by
    intro parts
    induction parts with
    | nil => exact fun kept _ => rfl
    | cons part parts ih =>
      intro kept hparts
      rw [List.mem_cons, not_or] at hparts
      have hpush : pushPart path.root kept part = part :: kept := if_pos (Ne.symm hparts.1)
      rw [List.foldl_cons, hpush, ih _ hparts.2, List.reverse_cons, List.append_assoc]
      rfl
  unfold normpath
  rw [hkept _ _ h, List.append_nil, List.reverse_reverse]

end Cyclo.Python.PurePath
