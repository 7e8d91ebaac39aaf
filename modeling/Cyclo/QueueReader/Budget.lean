import Cyclo.QueueReader.Confinement

/-! What the calls of a queue reader read: never more than its limit together, and of every file
exactly its beginning or its end. -/
namespace Cyclo.QueueReader
open Posix Process.Stateful Python

variable {ι : Type} {tree : FileTree ι} {α β : Type} {s t u : Session ι}

/-- How many bytes a read takes of a content when nothing else bounds it. -/
def wanted (content : List UInt8) (maxBytes : ℕ) (tail : Bool) : ℕ :=
  if tail = true ∧ maxBytes < content.length then maxBytes
  else min content.length (maxBytes + 1)

/-- The text that is returned is of the beginning or the end of the content, as long as it may be, and
is marked where that is not all of it. -/
structure Decoded (content : List UInt8) (maxBytes : ℕ) (tail : Bool) (data : List UInt8)
    (file : FileText) : Prop where
  part : if tail then data <:+ content else data <+: content
  length : data.length = min maxBytes content.length
  truncated : file.truncated = true ↔ data ≠ content
  size : file.size = content.length
  text : file.text = marked (decodeReplacing data) file.truncated tail

theorem readContent_exceeds (content : List UInt8) (maxBytes remaining : ℕ) (tail : Bool)
    (h : remaining < wanted content maxBytes tail) :
    remaining < (readContent content maxBytes remaining tail).1.length := by
  unfold wanted at h
  unfold readContent
  dsimp only
  by_cases htail : tail = true ∧ maxBytes < content.length
  · rw [if_pos htail] at h
    rw [if_pos (by rw [htail.1, decide_eq_true htail.2]; rfl)]
    dsimp only
    rw [List.length_take, List.length_drop]
    omega
  · rw [if_neg htail] at h
    rw [if_neg (by rwa [Bool.and_eq_true, decide_eq_true_iff])]
    dsimp only
    rw [List.length_take]
    omega

/-- Within the limit a read takes what it wants, and from that the part that it decodes. -/
theorem readContent_within (content : List UInt8) (maxBytes remaining : ℕ) (tail : Bool)
    (h : wanted content maxBytes tail ≤ remaining) :
    (readContent content maxBytes remaining tail).1.length = wanted content maxBytes tail ∧
    Decoded content maxBytes tail ((readContent content maxBytes remaining tail).1.take maxBytes)
      ⟨marked (decodeReplacing ((readContent content maxBytes remaining tail).1.take maxBytes))
          (readContent content maxBytes remaining tail).2.1
          (readContent content maxBytes remaining tail).2.2,
        content.length, (readContent content maxBytes remaining tail).2.1⟩ := by
  unfold wanted at h ⊢
  by_cases htail : tail = true ∧ maxBytes < content.length
  · obtain ⟨rfl, hlonger⟩ := htail
    rw [if_pos ⟨rfl, hlonger⟩] at h ⊢
    have hlength : (content.drop (content.length - maxBytes)).length = maxBytes := by
      rw [List.length_drop]
      omega
    have hread : readContent content maxBytes remaining true =
        (content.drop (content.length - maxBytes), true, true) := by
      unfold readContent
      dsimp only
      rw [if_pos (by rw [decide_eq_true hlonger]; rfl), List.take_of_length_le (by omega)]
    rw [hread]
    dsimp only
    rw [List.take_of_length_le hlength.le]
    refine ⟨hlength, List.drop_suffix _ _, ?_, ?_, rfl, rfl⟩
    · rw [hlength]
      omega
    · refine iff_of_true rfl fun hall => ?_
      rw [hall] at hlength
      omega
  · rw [if_neg htail] at h ⊢
    have hread : readContent content maxBytes remaining tail =
        (content.take (maxBytes + 1), decide (maxBytes < content.length), false) := by
      have hdata : content.take (min (maxBytes + 1) (remaining + 1)) =
          content.take (maxBytes + 1) := by
        by_cases hbound : maxBytes ≤ remaining
        · rw [min_eq_left (by omega)]
        · rw [List.take_of_length_le (by omega), List.take_of_length_le (by omega)]
      have hlonger : (decide (maxBytes < content.length) ||
          decide (maxBytes < (content.take (maxBytes + 1)).length)) =
          decide (maxBytes < content.length) := by
        rw [List.length_take, ← Bool.decide_or]
        exact decide_eq_decide.mpr (by omega)
      unfold readContent
      dsimp only
      rw [if_neg (by rwa [Bool.and_eq_true, decide_eq_true_iff]), hdata, hlonger]
    rw [hread]
    dsimp only
    have htake : (content.take (maxBytes + 1)).take maxBytes = content.take maxBytes := by
      rw [List.take_take, min_eq_left (by omega)]
    rw [htake]
    refine ⟨?_, ?_, List.length_take, ?_, rfl, ?_⟩
    · rw [List.length_take, min_comm]
    · split_ifs with htrue
      · have hshort : content.length ≤ maxBytes := by
          by_contra hlonger
          exact htail ⟨htrue, by omega⟩
        simp only [List.take_of_length_le hshort, List.suffix_refl]
      · exact List.take_prefix _ _
    · rw [decide_eq_true_iff, Ne, List.take_eq_self_iff]
      omega
    · dsimp only
      by_cases hlonger : maxBytes < content.length
      · have hfalse : tail = false := by
          by_contra htrue
          exact htail ⟨Bool.eq_true_of_not_eq_false htrue, hlonger⟩
        rw [hfalse]
      · rw [decide_eq_false hlonger]
        rfl

/-- A read of a content within the limit accounts for what it wants; any other reads nothing. -/
theorem readOpened_run (content : List UInt8) (maxBytes : ℕ) (tail : Bool) (s : Session ι) :
    if s.reader.maxReadBytes - s.reader.bytesRead < wanted content maxBytes tail then
      (readOpened content maxBytes tail).run s = (.error .queueLimit, s)
    else
      ∃ data file, Decoded content maxBytes tail data file ∧
        (readOpened content maxBytes tail).run s =
          (.ok file, { s with reader := { s.reader with
            bytesRead := s.reader.bytesRead + wanted content maxBytes tail } }) := by
  have hexceeds := readContent_exceeds content maxBytes
    (s.reader.maxReadBytes - s.reader.bytesRead) tail
  have hwithin := readContent_within content maxBytes (s.reader.maxReadBytes - s.reader.bytesRead) tail
  unfold readOpened
  rw [run_bind, run_get]
  dsimp only
  revert hexceeds hwithin
  rcases readContent content maxBytes (s.reader.maxReadBytes - s.reader.bytesRead) tail with
    ⟨data, truncated, earlier⟩
  dsimp only
  intro hexceeds hwithin
  split_ifs with hwanted hdata hdata
  · rfl
  · exact absurd (hexceeds hwanted) hdata
  · exact absurd hdata (by rw [(hwithin (not_lt.mp hwanted)).1]; exact hwanted)
  · obtain ⟨hlength, hdecoded⟩ := hwithin (not_lt.mp hwanted)
    refine ⟨_, _, hdecoded, ?_⟩
    rw [← hlength]
    rfl

theorem openRegular_opened {relative : Relative} {content : List UInt8}
    (h : (openRegular tree relative).run s = (.ok content, t)) :
    ∃ node ∈ t.opened, tree.kind node = .regular content := by
  unfold openRegular at h
  obtain ⟨⟨parent, name⟩, u, -, hname⟩ := run_bind_ok h
  obtain ⟨node, v, hopen, hkind⟩ := run_bind_ok hname
  obtain ⟨failure, hfailure, -⟩ | ⟨found, hfound, -, rfl⟩ := openAt_run hopen
  · cases hfailure
  · cases hfound
    cases hregular : tree.kind node with
    | regular found =>
      rw [hregular] at hkind
      cases hkind
      exact ⟨node, List.mem_append_right _ (List.mem_singleton_self node), hregular⟩
    | _ =>
      rw [hregular] at hkind
      cases hkind

/-- A call may read a content: the amount is allowed, and the path is that of a regular file. -/
def CanRead (tree : FileTree ι) (s : Session ι) (relative : Relative) (maxBytes : ℤ)
    (content : List UInt8) : Prop :=
  0 ≤ maxBytes ∧ maxBytes ≤ s.reader.maxFileBytes ∧
    ((openRegular tree relative).run s).1 = .ok content

def Session.accounted (s : Session ι) (bytes : ℕ) : Session ι :=
  { s with reader := { s.reader with bytesRead := s.reader.bytesRead + bytes } }

/-- A regular file of a content is opened, and nothing is accounted. -/
structure Opened (tree : FileTree ι) (s t : Session ι) (content : List UInt8) : Prop where
  kept : Kept tree s t
  regular : ∃ node ∈ t.opened, tree.kind node = .regular content

/-- What a call that reads a file does: nothing where it cannot read, nothing but raise where it would
exceed the limit, and otherwise it accounts for what it wants. -/
structure ReadsAs (tree : FileTree ι) (s : Session ι) (relative : Relative)
    (maxBytes : ℤ) (tail : Bool) (returned : FileText → β) (refused : Except Failure β → Prop)
    (x : Reading ι β) : Prop where
  refused : (∀ content, ¬ CanRead tree s relative maxBytes content) →
    refused (x.run s).1 ∧ Kept tree s (x.run s).2
  exceeds : ∀ content, CanRead tree s relative maxBytes content →
    s.reader.maxReadBytes < s.reader.bytesRead + wanted content maxBytes.toNat tail →
    ∃ t, Opened tree s t content ∧ x.run s = (.error .queueLimit, t)
  within : ∀ content, CanRead tree s relative maxBytes content →
    s.reader.bytesRead + wanted content maxBytes.toNat tail ≤ s.reader.maxReadBytes →
    ∃ t data file, Opened tree s t content ∧ Decoded content maxBytes.toNat tail data file ∧
      x.run s = (.ok (returned file), t.accounted (wanted content maxBytes.toNat tail))

theorem readFile_readsAs (relative : Relative) (maxBytes : ℤ) (tail : Bool)
    (hwithin : s.reader.bytesRead ≤ s.reader.maxReadBytes) :
    ReadsAs tree s relative maxBytes tail id (fun result => ∃ failure, result = .error failure)
      (readFile tree relative maxBytes tail) := by
  have hrun : (readFile tree relative maxBytes tail).run s =
      if maxBytes < 0 ∨ (s.reader.maxFileBytes : ℤ) < maxBytes then (.error .value, s)
      else (openRegular tree relative >>= fun content =>
        readOpened content maxBytes.toNat tail).run s := by
    unfold readFile
    rw [run_bind, run_get]
    dsimp only
    split_ifs <;> rfl
  have hcan : ∀ content, CanRead tree s relative maxBytes content →
      ∃ t, Opened tree s t content ∧ (readFile tree relative maxBytes tail).run s =
        (readOpened content maxBytes.toNat tail).run t := by
    rintro content ⟨hnonnegative, hallowed, hopen⟩
    rcases hopened : (openRegular tree relative).run s with ⟨result, t⟩
    rw [hopened] at hopen
    dsimp only at hopen
    rw [hopen] at hopened
    have hkept : Kept tree s ((openRegular tree relative).run s).2 := (keeps_openRegular relative).1
    rw [hopened] at hkept
    refine ⟨t, ⟨hkept, openRegular_opened hopened⟩, ?_⟩
    rw [hrun, if_neg (by omega), run_bind, hopened]
  constructor
  · intro hcannot
    rw [hrun]
    split_ifs with hrefused
    · exact ⟨⟨_, rfl⟩, Kept.refl s⟩
    · have hkept : Kept tree s ((openRegular tree relative).run s).2 := (keeps_openRegular relative).1
      rw [run_bind]
      rcases hopened : (openRegular tree relative).run s with ⟨result, t⟩
      rw [hopened] at hkept
      cases result with
      | error failure => exact ⟨⟨failure, rfl⟩, hkept⟩
      | ok content =>
        refine absurd ⟨by omega, by omega, ?_⟩ (hcannot content)
        rw [hopened]
  · intro content hread hexceeds
    obtain ⟨t, hopened, hreads⟩ := hcan content hread
    have hread := readOpened_run content maxBytes.toNat tail t
    rw [if_pos (by rw [hopened.kept.maxReadBytes, hopened.kept.bytesRead]; omega)] at hread
    exact ⟨t, hopened, hreads.trans hread⟩
  · intro content hread hbound
    obtain ⟨t, hopened, hreads⟩ := hcan content hread
    have hread := readOpened_run content maxBytes.toNat tail t
    rw [if_neg (by rw [hopened.kept.maxReadBytes, hopened.kept.bytesRead]; omega)] at hread
    obtain ⟨data, file, hdecoded, hread⟩ := hread
    exact ⟨t, data, file, hopened, hdecoded, hreads.trans hread⟩

theorem ReadsAs.map {γ : Type} {relative : Relative} {maxBytes : ℤ} {tail : Bool}
    {returned : FileText → β} {refused : Except Failure β → Prop} {refused' : Except Failure γ → Prop}
    {x : Reading ι β} (f : β → γ) (h : ReadsAs tree s relative maxBytes tail returned refused x)
    (himp : ∀ result, refused result → refused' (result.map f)) :
    ReadsAs tree s relative maxBytes tail (f ∘ returned) refused' (f <$> x) := by
  constructor
  · intro hcannot
    obtain ⟨hrefused, hkept⟩ := h.refused hcannot
    rw [run_map]
    exact ⟨himp _ hrefused, hkept⟩
  · intro content hread hexceeds
    obtain ⟨t, hopened, hrun⟩ := h.exceeds content hread hexceeds
    refine ⟨t, hopened, ?_⟩
    rw [run_map, hrun]
    rfl
  · intro content hread hbound
    obtain ⟨t, data, file, hopened, hdecoded, hrun⟩ := h.within content hread hbound
    refine ⟨t, data, file, hopened, hdecoded, ?_⟩
    rw [run_map, hrun]
    rfl

theorem readText_readsAs (relative : Relative) (fallback : List Char) (maxBytes : ℤ) (tail : Bool)
    (hwithin : s.reader.bytesRead ≤ s.reader.maxReadBytes) :
    ReadsAs tree s relative maxBytes tail FileText.text
      (fun result => result = .ok fallback ∨ ∃ failure, result = .error failure)
      (readText tree relative fallback maxBytes tail) := by
  have htext : ReadsAs tree s relative maxBytes tail FileText.text
      (fun result => ∃ failure, result = .error failure)
      (FileText.text <$> readFile tree relative maxBytes tail) := by
    refine (readFile_readsAs relative maxBytes tail hwithin).map FileText.text ?_
    rintro result ⟨failure, rfl⟩
    exact ⟨failure, rfl⟩
  unfold readText
  constructor
  · intro hcannot
    obtain ⟨⟨failure, hfailure⟩, hkept⟩ := htext.refused hcannot
    rw [run_tryCatch]
    rcases hrun : (FileText.text <$> readFile tree relative maxBytes tail).run s with ⟨result, t⟩
    rw [hrun] at hfailure hkept
    cases hfailure
    cases failure with
    | os => exact ⟨Or.inl rfl, hkept⟩
    | value => exact ⟨Or.inl rfl, hkept⟩
    | queueLimit => exact ⟨Or.inr ⟨_, rfl⟩, hkept⟩
    | type => exact ⟨Or.inr ⟨_, rfl⟩, hkept⟩
  · intro content hread hexceeds
    obtain ⟨t, hopened, hrun⟩ := htext.exceeds content hread hexceeds
    refine ⟨t, hopened, ?_⟩
    rw [run_tryCatch, hrun]
    rfl
  · intro content hread hbound
    obtain ⟨t, data, file, hopened, hdecoded, hrun⟩ := htext.within content hread hbound
    refine ⟨t, data, file, hopened, hdecoded, ?_⟩
    rw [run_tryCatch, hrun]

/-- A reader as `__init__` leaves it. -/
def Reader.fresh (root : ι) (maxEntries maxFileBytes maxReadBytes : ℕ) : Reader ι :=
  ⟨maxEntries, maxFileBytes, maxReadBytes, 0, 0, some root⟩

theorem openReader_fresh {path : PurePath} {maxEntries maxFileBytes maxReadBytes : ℤ}
    {reader : Reader ι} (h : openReader tree path maxEntries maxFileBytes maxReadBytes =
      .ok reader) :
    ∃ root, reader = .fresh root maxEntries.toNat maxFileBytes.toNat maxReadBytes.toNat := by
  unfold openReader at h
  split_ifs at h
  dsimp only at h
  split at h
  · cases h
  · rename_i directory _
    cases h
    exact ⟨directory, rfl⟩

def Made.start (made : Made ι) : Session ι := ⟨made.before, []⟩

/-- What was made of a call that reads a file: of a regular file that was opened it returns the part
that it wants and accounts for that, unless this exceeds the limit. -/
structure Made.Reads (made : Made ι) (relative : Relative) (maxBytes : ℤ) (tail : Bool)
    (returned : FileText → Value) (refused : Except Failure Value → Prop) : Prop where
  within : ∀ content, CanRead made.tree made.start relative maxBytes content →
    made.before.bytesRead + wanted content maxBytes.toNat tail ≤ made.before.maxReadBytes →
    ∃ node data file, node ∈ made.opened ∧ made.tree.kind node = .regular content ∧
      Decoded content maxBytes.toNat tail data file ∧ made.result = .ok (returned file) ∧
      made.after.bytesRead = made.before.bytesRead + wanted content maxBytes.toNat tail
  exceeds : ∀ content, CanRead made.tree made.start relative maxBytes content →
    made.before.maxReadBytes < made.before.bytesRead + wanted content maxBytes.toNat tail →
    made.result = .error .queueLimit ∧ made.after.bytesRead = made.before.bytesRead
  refused : (∀ content, ¬ CanRead made.tree made.start relative maxBytes content) →
    refused made.result ∧ made.after.bytesRead = made.before.bytesRead

/-- What was made of a call: only one that reads a file accounts for anything. -/
def Made.Accounted (made : Made ι) : Prop :=
  match made.call with
  | .readFile relative maxBytes tail =>
    made.Reads relative maxBytes tail Value.file fun result => ∃ failure, result = .error failure
  | .readText relative fallback maxBytes tail =>
    made.Reads relative maxBytes tail (fun file => Value.text file.text) fun result =>
      result = .ok (.text fallback) ∨ ∃ failure, result = .error failure
  | _ => made.after.bytesRead = made.before.bytesRead

/-- The limits stay, the root stays or is closed, and only nodes below it are opened. -/
structure Confined (tree : FileTree ι) (s t : Session ι) : Prop where
  maxReadBytes : t.reader.maxReadBytes = s.reader.maxReadBytes
  maxFileBytes : t.reader.maxFileBytes = s.reader.maxFileBytes
  rootFd : t.reader.rootFd = s.reader.rootFd ∨ t.reader.rootFd = none
  opened : ∃ new, t.opened = s.opened ++ new ∧ ∀ node ∈ new, s.Under tree node

theorem Kept.confined (h : Kept tree s t) : Confined tree s t :=
  ⟨h.maxReadBytes, h.maxFileBytes, Or.inl h.rootFd, h.opened⟩

theorem Confined.accounted (h : Confined tree s t) (bytes : ℕ) : Confined tree s (t.accounted bytes) :=
  ⟨h.maxReadBytes, h.maxFileBytes, h.rootFd, h.opened⟩

def Made.finish (made : Made ι) : Session ι := ⟨made.after, made.opened⟩

theorem confined_of_keeps {call : Call} {before : Reader ι} {Q : Value → Prop}
    (h : Keeps tree ⟨before, []⟩ (call.run tree) Q) :
    Confined tree (make tree call before).start (make tree call before).finish ∧
      (make tree call before).after.bytesRead = before.bytesRead :=
  ⟨h.1.confined, h.1.bytesRead⟩

theorem confined_of_readsAs {call : Call} {before : Reader ι} {relative : Relative} {maxBytes : ℤ}
    {tail : Bool} {returned : FileText → Value} {refused : Except Failure Value → Prop}
    (h : ReadsAs tree ⟨before, []⟩ relative maxBytes tail returned refused (call.run tree)) :
    Confined tree (make tree call before).start (make tree call before).finish ∧
      (make tree call before).Reads relative maxBytes tail returned refused := by
  have hfinish : ∀ result t, (call.run tree).run ⟨before, []⟩ = (result, t) →
      (make tree call before).result = result ∧ (make tree call before).finish = t :=
    fun result t hrun => ⟨congrArg Prod.fst hrun, congrArg Prod.snd hrun⟩
  constructor
  · by_cases hcan : ∃ content, CanRead tree ⟨before, []⟩ relative maxBytes content
    · obtain ⟨content, hread⟩ := hcan
      rcases le_or_gt (before.bytesRead + wanted content maxBytes.toNat tail) before.maxReadBytes with
        hbound | hover
      · obtain ⟨t, data, file, hopened, -, hrun⟩ := h.within content hread hbound
        rw [(hfinish _ _ hrun).2]
        exact hopened.kept.confined.accounted _
      · obtain ⟨t, hopened, hrun⟩ := h.exceeds content hread hover
        rw [(hfinish _ _ hrun).2]
        exact hopened.kept.confined
    · exact (h.refused (not_exists.mp hcan)).2.confined
  · constructor
    · intro content hread hbound
      obtain ⟨t, data, file, hopened, hdecoded, hrun⟩ := h.within content hread hbound
      obtain ⟨hresult, hafter⟩ := hfinish _ _ hrun
      obtain ⟨node, hnode, hkind⟩ := hopened.regular
      have hmade : (make tree call before).finish.opened = t.opened := by
        rw [hafter]
        rfl
      have hbytes : (make tree call before).finish.reader.bytesRead =
          t.reader.bytesRead + wanted content maxBytes.toNat tail := by
        rw [hafter]
        rfl
      refine ⟨node, data, file, ?_, hkind, hdecoded, hresult, ?_⟩
      · change node ∈ (make tree call before).finish.opened
        rw [hmade]
        exact hnode
      · exact hbytes.trans (congrArg (· + _) hopened.kept.bytesRead)
    · intro content hread hover
      obtain ⟨t, hopened, hrun⟩ := h.exceeds content hread hover
      obtain ⟨hresult, rfl⟩ := hfinish _ _ hrun
      exact ⟨hresult, hopened.kept.bytesRead⟩
    · intro hcannot
      obtain ⟨hrefused, hkept⟩ := h.refused hcannot
      exact ⟨hrefused, hkept.bytesRead⟩

/-- Every call accounts as its kind says, and stays within the root. -/
theorem make_accounted (tree : FileTree ι) (call : Call) {before : Reader ι}
    (hwithin : before.bytesRead ≤ before.maxReadBytes) :
    Confined tree (make tree call before).start (make tree call before).finish ∧
      (make tree call before).Accounted := by
  cases call with
  | hasDirectory relative =>
    exact confined_of_keeps (((keeps_openDirectory relative).attempt.value _).value _)
  | requireDirectory relative =>
    exact confined_of_keeps (((keeps_openDirectory relative).bind fun _ _ _ _ =>
      keeps_pure (Q := fun _ => True) trivial).value _)
  | hasRegularFile relative =>
    exact confined_of_keeps (((keeps_openRegular relative).attempt.value _).value _)
  | listDirectories relative includeHidden =>
    exact confined_of_keeps ((keeps_listNames relative _).value _)
  | listRegularFiles relative suffix => exact confined_of_keeps ((keeps_listNames relative _).value _)
  | directoryTimestamp relative =>
    exact confined_of_keeps (((keeps_openDirectory relative).attempt.value _).value _)
  | fileSize relative =>
    exact confined_of_keeps (((keeps_openRegular relative).attempt.value _).value _)
  | readFile relative maxBytes tail =>
    exact confined_of_readsAs ((readFile_readsAs relative maxBytes tail hwithin).map _ (by
      rintro result ⟨failure, rfl⟩
      exact ⟨failure, rfl⟩))
  | readText relative fallback maxBytes tail =>
    exact confined_of_readsAs ((readText_readsAs relative fallback maxBytes tail hwithin).map _ (by
      rintro result (rfl | ⟨failure, rfl⟩)
      · exact Or.inl rfl
      · exact Or.inr ⟨failure, rfl⟩))
  | fifoWritable relative => exact confined_of_keeps ((keeps_fifoWritable relative).value _)
  | close => exact ⟨⟨rfl, rfl, Or.inr rfl, [], rfl, List.forall_mem_nil _⟩, rfl⟩

/-- A reader of a root with limits it stays within. -/
structure Reader.Limited (root : ι) (maxFileBytes maxReadBytes : ℕ) (reader : Reader ι) : Prop where
  fileBytes : reader.maxFileBytes = maxFileBytes
  readBytes : reader.maxReadBytes = maxReadBytes
  accounted : reader.bytesRead ≤ maxReadBytes
  rootFd : reader.rootFd = some root ∨ reader.rootFd = none

theorem fresh_limited (root : ι) (maxEntries maxFileBytes maxReadBytes : ℕ) :
    (Reader.fresh root maxEntries maxFileBytes maxReadBytes).Limited root maxFileBytes maxReadBytes :=
  ⟨rfl, rfl, Nat.zero_le _, Or.inl rfl⟩

theorem Made.Reads.bounded {made : Made ι} {relative : Relative} {maxBytes : ℤ} {tail : Bool}
    {returned : FileText → Value} {refused : Except Failure Value → Prop}
    (h : made.Reads relative maxBytes tail returned refused)
    (hbefore : made.before.bytesRead ≤ made.before.maxReadBytes) :
    made.after.bytesRead ≤ made.before.maxReadBytes := by
  by_cases hcan : ∃ content, CanRead made.tree made.start relative maxBytes content
  · obtain ⟨content, hread⟩ := hcan
    rcases le_or_gt (made.before.bytesRead + wanted content maxBytes.toNat tail)
      made.before.maxReadBytes with hbound | hover
    · obtain ⟨-, -, -, -, -, -, -, hafter⟩ := h.within content hread hbound
      rw [hafter]
      exact hbound
    · rw [(h.exceeds content hread hover).2]
      exact hbefore
  · rw [(h.refused (not_exists.mp hcan)).2]
    exact hbefore

theorem Made.Accounted.bounded {made : Made ι} (h : made.Accounted)
    (hbefore : made.before.bytesRead ≤ made.before.maxReadBytes) :
    made.after.bytesRead ≤ made.before.maxReadBytes := by
  unfold Made.Accounted at h
  split at h
  · exact h.bounded hbefore
  · exact h.bounded hbefore
  · rw [h]
    exact hbefore

/-- A call leaves the reader within its limits, and opens only what is below its root. -/
theorem make_limited {root : ι} {maxFileBytes maxReadBytes : ℕ} {before : Reader ι}
    (tree : FileTree ι) (call : Call) (h : before.Limited root maxFileBytes maxReadBytes) :
    (make tree call before).after.Limited root maxFileBytes maxReadBytes ∧
      (∀ node ∈ (make tree call before).opened, tree.Below root node) ∧
      (make tree call before).Accounted := by
  have hwithin : before.bytesRead ≤ before.maxReadBytes := h.accounted.trans h.readBytes.ge
  obtain ⟨hconfined, haccounted⟩ := make_accounted tree call hwithin
  refine ⟨⟨?_, ?_, ?_, ?_⟩, ?_, haccounted⟩
  · exact hconfined.maxFileBytes.trans h.fileBytes
  · exact hconfined.maxReadBytes.trans h.readBytes
  · exact (haccounted.bounded hwithin).trans h.readBytes.le
  · rcases hconfined.rootFd with hroot | hclosed
    · change (make tree call before).after.rootFd = before.rootFd at hroot
      rw [hroot]
      exact h.rootFd
    · exact Or.inr hclosed
  · obtain ⟨new, hnew, hunder⟩ := hconfined.opened
    change (make tree call before).opened = [] ++ new at hnew
    rw [hnew]
    intro node hnode
    obtain ⟨top, htop, hbelow⟩ := hunder node hnode
    rcases h.rootFd with hroot | hclosed
    · cases hroot.symm.trans htop
      exact hbelow
    · cases hclosed.symm.trans htop

theorem makeAll_limited {root : ι} {maxFileBytes maxReadBytes : ℕ} (calls : List (FileTree ι × Call))
    {reader : Reader ι} (hreader : reader.Limited root maxFileBytes maxReadBytes) :
    ∀ made ∈ makeAll reader calls, made.before.Limited root maxFileBytes maxReadBytes ∧
      made.after.Limited root maxFileBytes maxReadBytes ∧
      (∀ node ∈ made.opened, made.tree.Below root node) ∧ made.Accounted := by
  induction calls generalizing reader with
  | nil => exact List.forall_mem_nil _
  | cons head rest ih =>
    obtain ⟨tree, call⟩ := head
    have hstep := make_limited tree call hreader
    exact List.forall_mem_cons.mpr ⟨⟨hreader, hstep⟩, ih hstep.1⟩

/-- In every sequence of calls on a reader that was opened, on a tree that may change from one to
the next, nothing outside the root is opened, no more than the limit is accounted, every read
returns the beginning or the end of a file, and one that would exceed the limit is refused without
being accounted. -/
theorem makeAll_confined {path : PurePath} {maxEntries maxFileBytes maxReadBytes : ℤ}
    {reader : Reader ι} (h : openReader tree path maxEntries maxFileBytes maxReadBytes = .ok reader)
    (calls : List (FileTree ι × Call)) :
    ∃ root, reader.rootFd = some root ∧ reader.bytesRead = 0 ∧ ∀ made ∈ makeAll reader calls,
      made.before.Limited root maxFileBytes.toNat maxReadBytes.toNat ∧
      made.after.Limited root maxFileBytes.toNat maxReadBytes.toNat ∧
      (∀ node ∈ made.opened, made.tree.Below root node) ∧ made.Accounted := by
  obtain ⟨root, rfl⟩ := openReader_fresh h
  exact ⟨root, rfl, rfl, makeAll_limited calls (fresh_limited root _ _ _)⟩

/-- A queue with a log of three bytes and a link out of it. -/
def queueTree : FileTree ℕ where
  root := 0
  kind node :=
    match node with
    | 0 => .directory [("log", 1), ("out", 2)] 0
    | 1 => .regular [97, 98, 99]
    | _ => .symlink "/etc"
  accessible _ := true
  mtime _ := 0
  maxLinks := 40

example : (make queueTree (.readFile (.segments ["out", "passwd"]) 2 true)
    (.fresh 0 9 9 2)).opened = [] := by
  decide +kernel

def queueReader : Reader ℕ := .fresh 0 9 9 2

/-- The end of the log that is as long as the limit. -/
theorem queueTree_confined :
    (make queueTree (.readFile (.path "log") 2 true) queueReader).after.bytesRead = 2 ∧
    ∃ root, queueReader.rootFd = some root ∧ queueReader.bytesRead = 0 ∧
      ∀ made ∈ makeAll queueReader [(queueTree, .readFile (.path "log") 2 true)],
        made.before.Limited root 9 2 ∧ made.after.Limited root 9 2 ∧
        (∀ node ∈ made.opened, made.tree.Below root node) ∧ made.Accounted := by
  have hopen : openReader queueTree ⟨"/", []⟩ 9 9 2 = .ok queueReader := rfl
  exact ⟨by decide +kernel, makeAll_confined hopen [(queueTree, .readFile (.path "log") 2 true)]⟩

end Cyclo.QueueReader
