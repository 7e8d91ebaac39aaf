import Cyclo.Process.Stateful
import Cyclo.QueueReader.Calls

/-! The calls of a queue reader open nothing outside its root. -/
namespace Cyclo.QueueReader
open Posix Process.Stateful Python

variable {ι : Type} {tree : FileTree ι} {α β : Type} {s t u : Session ι}

theorem noSlash_ofText {text part : String} (h : part ∈ (PurePath.ofText text).parts) :
    part ≠ "" ∧ '/' ∉ part.toList := by
  unfold PurePath.ofText at h
  obtain ⟨hpart, hkept⟩ := List.mem_filter.mp h
  obtain ⟨piece, hpiece, rfl⟩ := List.mem_map.mp hpart
  refine ⟨?_, ?_⟩
  · intro hempty
    rw [hempty] at hkept
    exact absurd hkept (by decide)
  · rw [String.toList_ofList]
    intro hslash
    exact absurd (Text.mem_splitOnP hpiece '/' hslash) (by decide)

theorem mem_join {path other : PurePath} {part : String} (h : part ∈ (path.join other).parts) :
    part ∈ path.parts ∨ part ∈ other.parts := by
  unfold PurePath.join at h
  split_ifs at h
  · exact Or.inr h
  · exact List.mem_append.mp h

theorem noSlash_toPath {relative : Relative} {part : String} (h : part ∈ relative.toPath.parts) :
    part ≠ "" ∧ '/' ∉ part.toList := by
  cases relative with
  | path text => exact noSlash_ofText h
  | segments texts =>
    have hfold : ∀ (texts : List String) (path : PurePath),
        (∀ part ∈ path.parts, part ≠ "" ∧ '/' ∉ part.toList) →
        ∀ part ∈ (texts.foldl (fun path text => path.join (.ofText text)) path).parts,
          part ≠ "" ∧ '/' ∉ part.toList := by
      intro texts
      induction texts with
      | nil => exact fun _ hpath => hpath
      | cons text rest ih =>
        intro path hpath
        refine ih _ ?_
        intro part hpart
        rcases mem_join hpart with hpart | hpart
        · exact hpath part hpart
        · exact noSlash_ofText hpart
    exact hfold texts (.ofText "") (fun part hpart => noSlash_ofText hpart) part h

/-- Every accepted part is a name of its own: no separator, not the directory, not its parent. -/
theorem parts_proper {relative : Relative} {names : List String} (h : parts relative = .ok names) :
    ∀ name ∈ names, Proper name := by
  unfold parts at h
  dsimp only at h
  split_ifs at h with hrefused
  cases h
  intro name hname
  obtain ⟨hnonempty, hslash⟩ := noSlash_toPath hname
  rw [Bool.or_eq_true, not_or, List.any_eq_true] at hrefused
  have hnot : name ∉ ["", ".", ".."] := fun hmem => hrefused.2 ⟨name, hname, decide_eq_true hmem⟩
  simp only [List.mem_cons, List.not_mem_nil, or_false, not_or] at hnot
  exact ⟨hnonempty, hslash, hnot.2.1, hnot.2.2⟩

/-- The node is below the root of the reader. -/
def Session.Under (tree : FileTree ι) (s : Session ι) (node : ι) : Prop :=
  ∃ root, s.reader.rootFd = some root ∧ tree.Below root node

/-- Nothing is accounted, and only nodes below the root are opened. -/
structure Kept (tree : FileTree ι) (s t : Session ι) : Prop where
  bytesRead : t.reader.bytesRead = s.reader.bytesRead
  maxReadBytes : t.reader.maxReadBytes = s.reader.maxReadBytes
  maxFileBytes : t.reader.maxFileBytes = s.reader.maxFileBytes
  rootFd : t.reader.rootFd = s.reader.rootFd
  opened : ∃ new, t.opened = s.opened ++ new ∧ ∀ node ∈ new, s.Under tree node

theorem Kept.refl (s : Session ι) : Kept tree s s :=
  ⟨rfl, rfl, rfl, rfl, [], (List.append_nil _).symm, List.forall_mem_nil _⟩

theorem Kept.under (h : Kept tree s t) (node : ι) : t.Under tree node ↔ s.Under tree node := by
  unfold Session.Under
  rw [h.rootFd]

theorem Kept.trans (h : Kept tree s t) (h' : Kept tree t u) : Kept tree s u := by
  obtain ⟨new, hnew, hunder⟩ := h.opened
  obtain ⟨new', hnew', hunder'⟩ := h'.opened
  refine ⟨h'.bytesRead.trans h.bytesRead, h'.maxReadBytes.trans h.maxReadBytes,
    h'.maxFileBytes.trans h.maxFileBytes, h'.rootFd.trans h.rootFd, new ++ new', ?_, ?_⟩
  · rw [hnew', hnew, List.append_assoc]
  · rw [List.forall_mem_append]
    exact ⟨hunder, fun node hnode => (h.under node).mp (hunder' node hnode)⟩

/-- A call from a session leaves the accounting alone, and its value has a property. -/
def Keeps (tree : FileTree ι) (s : Session ι) (x : Reading ι α) (Q : α → Prop) : Prop :=
  Kept tree s (x.run s).2 ∧ ∀ a, (x.run s).1 = .ok a → Q a

theorem keeps_pure {a : α} {Q : α → Prop} (h : Q a) : Keeps tree s (pure a) Q := by
  refine ⟨Kept.refl s, ?_⟩
  intro b hb
  cases hb
  exact h

theorem keeps_throw {failure : Failure} {Q : α → Prop} : Keeps tree s (throw failure) Q :=
  ⟨Kept.refl s, nofun⟩

theorem Keeps.bind {x : Reading ι α} {f : α → Reading ι β} {Q : α → Prop} {R : β → Prop}
    (hx : Keeps tree s x Q) (hf : ∀ a t, Kept tree s t → Q a → Keeps tree t (f a) R) :
    Keeps tree s (x >>= f) R := by
  unfold Keeps at hx ⊢
  rw [run_bind]
  rcases hrun : x.run s with ⟨result, t⟩
  rw [hrun] at hx
  cases result with
  | error failure => exact ⟨hx.1, nofun⟩
  | ok a =>
    have hnext := hf a t hx.1 (hx.2 a rfl)
    exact ⟨hx.1.trans hnext.1, hnext.2⟩

theorem Keeps.weaken {x : Reading ι α} {Q R : α → Prop} (h : Keeps tree s x Q)
    (himp : ∀ a, Q a → R a) : Keeps tree s x R :=
  ⟨h.1, fun a ha => himp a (h.2 a ha)⟩

theorem Keeps.map {x : Reading ι α} {Q : α → Prop} {R : β → Prop} (f : α → β)
    (h : Keeps tree s x Q) (himp : ∀ a, Q a → R (f a)) : Keeps tree s (f <$> x) R :=
  h.bind fun a _ _ ha => keeps_pure (himp a ha)

theorem Keeps.value {x : Reading ι α} {Q : α → Prop} (f : α → β) (h : Keeps tree s x Q) :
    Keeps tree s (f <$> x) fun _ => True :=
  h.map f fun _ _ => trivial

theorem Keeps.tryCatch {x : Reading ι α} {f : Failure → Reading ι α} {Q : α → Prop}
    (hx : Keeps tree s x Q) (hf : ∀ failure t, Kept tree s t → Keeps tree t (f failure) Q) :
    Keeps tree s (tryCatch x f) Q := by
  unfold Keeps at hx ⊢
  rw [run_tryCatch]
  rcases hrun : x.run s with ⟨result, t⟩
  rw [hrun] at hx
  cases result with
  | ok a => exact hx
  | error failure =>
    have hnext := hf failure t hx.1
    exact ⟨hx.1.trans hnext.1, hnext.2⟩

theorem Keeps.attempt {x : Reading ι α} {Q : α → Prop} (h : Keeps tree s x Q) :
    Keeps tree s (attempt x) fun value => ∀ a ∈ value, Q a := by
  refine (h.map some ?_).tryCatch ?_
  · intro a ha b hb
    cases hb
    exact ha
  · intro failure t _
    cases failure with
    | type => exact keeps_throw
    | _ => exact keeps_pure nofun

theorem openAt_run {access : FileTree.Access} {directory : ι} {name : String}
    {result : Except Failure ι} (h : (openAt tree access directory name).run s = (result, t)) :
    (∃ failure, result = .error failure ∧ t = s) ∨
    ∃ node, result = .ok node ∧ tree.openAt access directory name = some node ∧
      t = { s with opened := s.opened ++ [node] } := by
  unfold openAt at h
  split_ifs at h
  · cases h
    exact Or.inl ⟨.value, rfl, rfl⟩
  · cases hopen : tree.openAt access directory name with
    | none =>
      rw [hopen] at h
      cases h
      exact Or.inl ⟨.os, rfl, rfl⟩
    | some node =>
      rw [hopen] at h
      cases h
      exact Or.inr ⟨node, rfl, rfl, rfl⟩

/-- The single step of every walk: a proper name in a directory below the root. -/
theorem keeps_openAt {access : FileTree.Access} {directory : ι} {name : String}
    (hdirectory : s.Under tree directory) (hname : Proper name) :
    Keeps tree s (openAt tree access directory name) (s.Under tree) := by
  rcases hrun : (openAt tree access directory name).run s with ⟨result, t⟩
  unfold Keeps
  rw [hrun]
  obtain ⟨failure, rfl, rfl⟩ | ⟨node, rfl, hopen, rfl⟩ := openAt_run hrun
  · exact ⟨Kept.refl _, nofun⟩
  · obtain ⟨root, hroot, hbelow⟩ := hdirectory
    have hnode : s.Under tree node := ⟨root, hroot, hbelow.openAt hname hopen⟩
    refine ⟨⟨rfl, rfl, rfl, rfl, [node], rfl, List.forall_mem_singleton.mpr hnode⟩, ?_⟩
    intro found hfound
    cases hfound
    exact hnode

theorem keeps_openParts {directory : ι} {names : List String} (hnames : ∀ name ∈ names, Proper name)
    (hdirectory : s.Under tree directory) :
    Keeps tree s (openParts tree directory names) (s.Under tree) := by
  induction names generalizing s directory with
  | nil => exact keeps_pure hdirectory
  | cons name rest ih =>
    obtain ⟨hname, hrest⟩ := List.forall_mem_cons.mp hnames
    refine (keeps_openAt hdirectory hname).bind ?_
    intro node t hkept hnode
    have hwalk := ih hrest ((hkept.under node).mpr hnode)
    exact hwalk.weaken fun found hfound => (hkept.under found).mp hfound

theorem keeps_liftExcept {x : Except Failure α} {Q : α → Prop} (h : ∀ a, x = .ok a → Q a) :
    Keeps tree s (openDirectory.liftExcept x) Q := by
  cases x with
  | ok a => exact keeps_pure (h a rfl)
  | error failure => exact keeps_throw

theorem keeps_dupRoot : Keeps tree s dupRoot (s.Under tree) := by
  unfold dupRoot
  refine Keeps.bind (Q := fun session => session = s) ⟨Kept.refl s, ?_⟩ ?_
  · intro session hsession
    cases hsession
    rfl
  rintro session t hkept rfl
  cases hroot : session.reader.rootFd with
  | none => exact keeps_throw
  | some root => exact keeps_pure ⟨root, hroot, FileTree.Below.self root⟩

theorem keeps_openDirectory (relative : Relative) :
    Keeps tree s (openDirectory tree relative) (s.Under tree) := by
  unfold openDirectory
  refine (keeps_liftExcept fun _ => parts_proper).bind ?_
  intro names t hkept hnames
  refine keeps_dupRoot.bind ?_
  intro root u hkept' hroot
  have hwalk := keeps_openParts hnames ((hkept'.under root).mpr hroot)
  exact hwalk.weaken fun node hnode => (hkept.under node).mp ((hkept'.under node).mp hnode)

theorem keeps_openParent (relative : Relative) :
    Keeps tree s (openParent tree relative) fun found => s.Under tree found.1 ∧ Proper found.2 := by
  unfold openParent
  refine (keeps_liftExcept fun _ => parts_proper).bind ?_
  intro names t hkept hnames
  cases hlast : names.getLast? with
  | none => exact keeps_throw
  | some name =>
    have hname : Proper name := hnames name (List.mem_of_getLast? hlast)
    refine (keeps_openDirectory _).bind ?_
    intro parent u _ hparent
    exact keeps_pure ⟨(hkept.under parent).mp hparent, hname⟩

theorem keeps_openRegular (relative : Relative) :
    Keeps tree s (openRegular tree relative) fun _ => True := by
  unfold openRegular
  refine (keeps_openParent relative).bind ?_
  rintro ⟨parent, name⟩ t hkept ⟨hparent, hname⟩
  refine (keeps_openAt ((hkept.under parent).mpr hparent) hname).bind ?_
  intro node u _ _
  cases tree.kind node with
  | regular content => exact keeps_pure trivial
  | _ => exact keeps_throw

theorem takeEntry_run (s : Session ι) :
    takeEntry.run s =
      if s.reader.maxEntries ≤ s.reader.entriesSeen then (.error .queueLimit, s)
      else (.ok (), { s with
        reader := { s.reader with entriesSeen := s.reader.entriesSeen + 1 } }) := by
  unfold takeEntry
  rw [run_bind]
  change ExceptT.run (m := StateM (Session ι)) (ite _ _ _) s = _
  split_ifs <;> rfl

theorem keeps_takeEntries (entries : List (String × ι)) :
    Keeps tree s (takeEntries entries) fun _ => True := by
  induction entries generalizing s with
  | nil => exact keeps_pure trivial
  | cons entry rest ih =>
    have hone : Keeps tree s (takeEntry : Reading ι Unit) fun _ => True := by
      unfold Keeps
      rw [takeEntry_run]
      split_ifs
      · exact ⟨Kept.refl s, fun _ _ => trivial⟩
      · exact ⟨⟨rfl, rfl, rfl, rfl, [], (List.append_nil _).symm, List.forall_mem_nil _⟩,
          fun _ _ => trivial⟩
    exact hone.bind fun _ _ _ _ => ih

theorem keeps_listNames (relative : Relative) (keep : String × ι → Bool) :
    Keeps tree s (listNames tree relative keep) fun _ => True := by
  unfold listNames
  refine (keeps_openDirectory relative).attempt.bind ?_
  intro found t _ _
  cases found with
  | none => exact keeps_pure trivial
  | some directory => exact (keeps_takeEntries _).bind fun _ _ _ _ => keeps_pure trivial

theorem keeps_statAt {directory : ι} {name : String} :
    Keeps tree s (openDirectory.liftExcept (statAt tree directory name)) fun _ => True :=
  keeps_liftExcept fun _ _ => trivial

theorem keeps_orFalse {x : Reading ι Bool} {Q : Bool → Prop} (h : Keeps tree s x Q) :
    Keeps tree s (orFalse x) fun _ => True := by
  refine (h.weaken fun _ _ => trivial).tryCatch ?_
  intro failure t _
  cases failure with
  | os => exact keeps_pure trivial
  | queueLimit => exact keeps_pure trivial
  | value => exact keeps_throw
  | type => exact keeps_throw

theorem keeps_fifoWritable (relative : Relative) :
    Keeps tree s (fifoWritable tree relative) fun _ => True := by
  unfold fifoWritable
  refine (keeps_openParent relative).attempt.bind ?_
  intro found t hkept hfound
  cases found with
  | none => exact keeps_pure trivial
  | some found =>
    obtain ⟨hparent, hname⟩ := hfound found rfl
    refine keeps_orFalse (Q := fun _ => True) (keeps_statAt.bind ?_)
    intro entry u hkept' _
    split_ifs
    · have hparent' := (hkept'.under found.1).mpr ((hkept.under found.1).mpr hparent)
      exact (keeps_openAt hparent' hname).bind fun _ _ _ _ => keeps_pure trivial
    · exact keeps_pure trivial

end Cyclo.QueueReader
