import Cyclo.Project.Parsing

/-! How the parser reads lines that were written for it. -/
namespace Cyclo.Project
open Python

variable {host : Host} {source : PurePath} {parsed parsed' : Parsed} {block : Option Block}
  {lineNo : ℕ} {line raw : List Char} {lines : List (List Char)}

/-- A word: the parser finds it as one between white space. -/
def IsWord (word : List Char) : Prop := word ≠ [] ∧ ∀ c ∈ word, isSpace c = false

theorem IsWord.head {word : List Char} (h : IsWord word) : ∃ c ∈ word.head?, isSpace c = false := by
  obtain ⟨c, rest, rfl⟩ := List.exists_cons_of_ne_nil h.1
  exact ⟨c, rfl, h.2 c List.mem_cons_self⟩

theorem IsWord.getLast {word : List Char} (h : IsWord word) :
    ∃ c ∈ word.getLast?, isSpace c = false :=
  ⟨word.getLast h.1, List.getLast?_eq_some_getLast h.1, h.2 _ (List.getLast_mem h.1)⟩

theorem partition_fst (line : List Char) :
    (partition line).1 = line.takeWhile fun c => decide (c ≠ ' ') := by
  unfold partition
  split
  · rename_i hdrop
    have h := List.takeWhile_append_dropWhile (p := fun c => decide (c ≠ ' ')) (l := line)
    rw [hdrop, List.append_nil] at h
    exact h.symm
  · rfl

theorem partition_append {word rest : List Char} (h : ' ' ∉ word) :
    partition (word ++ ' ' :: rest) = (word, true, rest) := by
  have hword : ∀ c ∈ word, decide (c ≠ ' ') = true := fun c hc =>
    decide_eq_true fun he => h (he ▸ hc)
  unfold partition
  rw [List.dropWhile_append_of_pos hword, List.takeWhile_append_of_pos hword]
  simp

theorem partition_of_not_mem (h : ' ' ∉ line) : partition line = (line, false, []) := by
  have hline : ∀ c ∈ line, decide (c ≠ ' ') = true := fun c hc =>
    decide_eq_true fun he => h (he ▸ hc)
  unfold partition
  rw [List.dropWhile_eq_nil_iff.mpr hline]

/-- White space behind a keyword stays inside the line, but for that at the end. -/
theorem strip_word {word : List Char} (h : IsWord word) (rest : List Char) :
    strip (word ++ rest) = word ++ rest.rdropWhile isSpace := by
  obtain ⟨c, hc, hspace⟩ := h.head
  obtain ⟨word, rfl⟩ := List.head?_eq_some_iff.mp hc
  unfold strip Text.strip
  rw [List.cons_append, List.dropWhile_cons_of_neg (by simp [hspace]), ← List.cons_append,
    Text.rdropWhile_append h.getLast]

/-- A line that starts with a keyword and a space is read as that directive. -/
theorem partition_word {word : List Char} (h : IsWord word) (rest : List Char) :
    partition (strip (word ++ ' ' :: rest)) =
      (word, decide (strip rest ≠ []), rest.rdropWhile isSpace) := by
  have hword : ' ' ∉ word := fun hmem => absurd (h.2 _ hmem) (by decide)
  rw [strip_word h]
  by_cases hrest : strip rest = []
  · have hall : ∀ c ∈ rest, isSpace c = true := Text.strip_eq_nil.mp hrest
    have hall' : ∀ c ∈ ' ' :: rest, isSpace c = true := List.forall_mem_cons.mpr ⟨rfl, hall⟩
    rw [List.rdropWhile_eq_nil_iff.mpr hall, List.rdropWhile_eq_nil_iff.mpr hall',
      List.append_nil, partition_of_not_mem hword, decide_eq_false (not_not.mpr hrest)]
  · have hcons : (' ' :: rest).rdropWhile isSpace = ' ' :: rest.rdropWhile isSpace := by
      obtain ⟨before, c, after, rfl, hc⟩ : ∃ before c after, rest = before ++ c :: after ∧
          isSpace c = false := by
        by_contra hno
        refine hrest (Text.strip_eq_nil.mpr fun c hc => ?_)
        obtain ⟨before, after, hsplit⟩ := List.append_of_mem hc
        by_contra hspace
        exact hno ⟨before, c, after, hsplit, by simpa using hspace⟩
      have hleft : ∃ d ∈ (before ++ [c]).getLast?, isSpace d = false := ⟨c, by simp, hc⟩
      have hleft' : ∃ d ∈ (' ' :: (before ++ [c])).getLast?, isSpace d = false :=
        ⟨c, by rw [← List.cons_append, List.getLast?_concat]; rfl, hc⟩
      have hassoc : before ++ c :: after = before ++ [c] ++ after := by simp
      rw [hassoc, ← List.cons_append, Text.rdropWhile_append hleft, Text.rdropWhile_append hleft']
      rfl
    rw [hcons, partition_append hword, decide_eq_true hrest]

theorem split_word {word : List Char} (h : IsWord word) (rest : List Char) :
    split (word ++ ' ' :: rest) = word :: split rest := by
  have hspace : isSpace ' ' = true := rfl
  have hword : Text.words isSpace word = [word] := Text.words_of_no_marks h.1 h.2
  unfold split
  rw [Text.words_append_mark hspace, hword, List.singleton_append]

/-- What has no white space is one word, or nothing. -/
theorem split_solid {word : List Char} (h : ∀ c ∈ word, isSpace c = false) (rest : List Char) :
    split (word ++ ' ' :: rest) = (if word = [] then [] else [word]) ++ split rest := by
  split_ifs with hnil
  · rw [hnil]
    exact Text.words_cons_mark (by rfl) rest
  · exact split_word ⟨hnil, h⟩ rest

theorem split_single {word : List Char} (h : IsWord word) : split word = [word] :=
  Text.words_of_no_marks h.1 h.2

theorem split_strip (line : List Char) : split (strip line) = split line := Text.words_strip ..

theorem AccessMode.isWord (mode : AccessMode) : IsWord mode.text := by
  cases mode <;> exact ⟨List.cons_ne_nil _ _, by decide⟩

theorem isComment_of_partition {c : Char} {word : List Char} (h : (partition line).1 = c :: word)
    (hc : c ≠ '#') : isComment line = false := by
  rw [partition_fst] at h
  cases line with
  | nil => cases h
  | cons d line =>
    have hd : d = c := by
      rw [List.takeWhile_cons] at h
      split at h
      · exact (List.cons.inj h).1
      · cases h
    subst hd
    simpa [isComment] using hc

theorem parseLine_name (h : (partition line).1 = "name".toList) :
    parseLine host source parsed lineNo line =
      (parseName parsed lineNo line).map fun parsed => (parsed, none) := by
  unfold parseLine
  rw [isComment_of_partition h (by decide), h]
  rfl

theorem parseLine_description (h : (partition line).1 = "description".toList) :
    parseLine host source parsed lineNo line =
      (parseDescription parsed lineNo line).map fun parsed => (parsed, none) := by
  unfold parseLine
  rw [isComment_of_partition h (by decide), h]
  rfl

theorem parseLine_context (h : (partition line).1 = "context".toList) :
    parseLine host source parsed lineNo line =
      (parseContext parsed lineNo line).map fun block => (parsed, some block) := by
  unfold parseLine
  rw [isComment_of_partition h (by decide), h]
  rfl

theorem parseLine_team (h : (partition line).1 = "team".toList) :
    parseLine host source parsed lineNo line =
      (parseTeam host source parsed lineNo line).map fun parsed => (parsed, none) := by
  unfold parseLine
  rw [isComment_of_partition h (by decide), h]
  rfl

theorem parseLine_mount (h : (partition line).1 = "mount".toList) :
    parseLine host source parsed lineNo line =
      (parseMount host source parsed lineNo line).map fun parsed => (parsed, none) := by
  unfold parseLine
  rw [isComment_of_partition h (by decide), h]
  rfl

theorem parseLine_comment (h : isComment line = true) :
    parseLine host source parsed lineNo line = .ok (parsed, none) := by
  unfold parseLine
  rw [if_pos h]

section
variable {path : PurePath} {name value : List Char} {mode : AccessMode}

theorem partition_directive {word : List Char} (h : IsWord word) (rest : List Char) :
    (partition (strip (word ++ ' ' :: rest))).1 = word := by rw [partition_word h]

theorem parseLine_nameItem (hvalid : matchesProjectName name = true) (hword : IsWord name)
    (hnew : parsed.name = none) :
    parseLine host source parsed lineNo (strip ("name".toList ++ ' ' :: name)) =
      .ok ({ parsed with name := some name }, none) := by
  have hkey : IsWord "name".toList := ⟨by decide, by decide⟩
  have hsplit : split (strip ("name".toList ++ ' ' :: name)) = ["name".toList, name] := by
    rw [split_strip, split_word hkey, split_single hword]
  rw [parseLine_name (partition_directive hkey name),
    parseName_eq_ok.mpr ⟨_, name, hsplit, hnew, hvalid, rfl⟩]
  rfl

theorem parseLine_descriptionItem {description : List Char} (hne : strip description ≠ [])
    (hnew : parsed.description = none) :
    parseLine host source parsed lineNo (strip ("description".toList ++ ' ' :: description)) =
      .ok ({ parsed with description := some (strip description) }, none) := by
  have hkey : IsWord "description".toList := ⟨by decide, by decide⟩
  have hpartition := partition_word hkey description
  have hstrip : strip (description.rdropWhile isSpace) = strip description :=
    Text.strip_rdropWhile isSpace description
  have hdescription : parseDescription parsed lineNo
      (strip ("description".toList ++ ' ' :: description)) =
        .ok { parsed with description := some (strip description) } := by
    rw [parseDescription_eq_ok, hpartition, hstrip]
    exact ⟨decide_eq_true hne, hne, hnew, rfl⟩
  rw [parseLine_description (partition_directive hkey description), hdescription]
  rfl

theorem parseLine_contextItem {marker : List Char} (hvalid : matchesContextMarker marker = true)
    (hword : IsWord ('<' :: '<' :: marker)) (hnew : parsed.context = none) :
    parseLine host source parsed lineNo (strip ("context".toList ++ ' ' :: '<' :: '<' :: marker)) =
      .ok (parsed, some ⟨marker, lineNo, []⟩) := by
  have hkey : IsWord "context".toList := ⟨by decide, by decide⟩
  have hsplit : split (strip ("context".toList ++ ' ' :: '<' :: '<' :: marker)) =
      ["context".toList, '<' :: '<' :: marker] := by
    rw [split_strip, split_word hkey, split_single hword]
  rw [parseLine_context (partition_directive hkey _),
    parseContext_eq_ok.mpr ⟨_, marker, hsplit, hvalid, hnew, rfl⟩]
  rfl

theorem split_teamItem (hvalue : IsWord value) (mode : AccessMode) :
    split (strip ("team".toList ++ ' ' :: (value ++ ' ' :: mode.text))) =
      ["team".toList, value, mode.text] := by
  have hkey : IsWord "team".toList := ⟨by decide, by decide⟩
  rw [split_strip, split_word hkey, split_word hvalue, split_single mode.isWord]

theorem split_mountItem (hname : IsWord name) (hvalue : IsWord value) (mode : AccessMode) :
    split (strip ("mount".toList ++ ' ' :: (name ++ ' ' :: (value ++ ' ' :: mode.text)))) =
      ["mount".toList, name, value, mode.text] := by
  have hkey : IsWord "mount".toList := ⟨by decide, by decide⟩
  rw [split_strip, split_word hkey, split_word hname, split_word hvalue, split_single mode.isWord]

theorem parseLine_teamItem (hvalue : IsWord value)
    (hresolve : resolveDirectory host source value lineNo "team" = .ok path)
    (hvalid : path.name.toList ∉ [['.'], ['.', '.']] ∧ matchesTeamName path.name.toList = true)
    (hpaths : ∀ team ∈ parsed.teams, team.path ≠ path)
    (hnames : ∀ team ∈ parsed.teams, foldedName team.path ≠ foldedName path) :
    parseLine host source parsed lineNo
        (strip ("team".toList ++ ' ' :: (value ++ ' ' :: mode.text))) =
      .ok ({ parsed with teams := parsed.teams ++ [⟨path, mode, lineNo⟩] }, none) := by
  have hkey : IsWord "team".toList := ⟨by decide, by decide⟩
  rw [parseLine_team (partition_directive hkey _), parseTeam_eq_ok.mpr ⟨_, value, mode, path,
    split_teamItem hvalue mode, hresolve, hvalid.1, hvalid.2, hpaths, hnames, rfl⟩]
  rfl

theorem parseLine_mountItem (hname : IsWord name) (hvalue : IsWord value)
    (hvalid : matchesProjectName name = true)
    (hresolve : resolveDirectory host source value lineNo "mount" = .ok path)
    (hnames : ∀ mount ∈ parsed.mounts, mount.name ≠ name)
    (hpaths : ∀ mount ∈ parsed.mounts, mount.path ≠ path) :
    parseLine host source parsed lineNo
        (strip ("mount".toList ++ ' ' :: (name ++ ' ' :: (value ++ ' ' :: mode.text)))) =
      .ok ({ parsed with mounts := parsed.mounts ++ [⟨name, path, mode, lineNo⟩] }, none) := by
  have hkey : IsWord "mount".toList := ⟨by decide, by decide⟩
  rw [parseLine_mount (partition_directive hkey _), parseMount_eq_ok.mpr ⟨_, name, value, mode, path,
    split_mountItem hname hvalue mode, hvalid, hresolve, hnames, hpaths, rfl⟩]
  rfl

end

theorem parseLines_step (h : parseLine host source parsed lineNo (strip raw) = .ok (parsed', block)) :
    parseLines host source lineNo parsed none (raw :: lines) =
      parseLines host source (lineNo + 1) parsed' block lines := by
  rw [parseLines, h]
  rfl

theorem parseLines_cons_eq_ok {final : Parsed} :
    parseLines host source lineNo parsed none (raw :: lines) = .ok final ↔
      ∃ next opened, parseLine host source parsed lineNo (strip raw) = .ok (next, opened) ∧
        parseLines host source (lineNo + 1) next opened lines = .ok final := by
  rw [parseLines, bind_eq_ok, Prod.exists]

/-- Blank lines outside a block are left out. -/
theorem parseLines_blank {blanks : List (List Char)} (h : ∀ line ∈ blanks, strip line = []) :
    parseLines host source lineNo parsed none (blanks ++ lines) =
      parseLines host source (lineNo + blanks.length) parsed none lines := by
  induction blanks generalizing lineNo with
  | nil => rfl
  | cons blank blanks ih =>
    rw [List.forall_mem_cons] at h
    have hline : parseLine host source parsed lineNo (strip blank) = .ok (parsed, none) := by
      rw [h.1]
      exact parseLine_comment rfl
    rw [List.cons_append, parseLines_step hline, ih h.2, List.length_cons, Nat.add_right_comm,
      Nat.add_assoc]

/-- A block reads its lines as they are, up to its marker. -/
theorem parseLines_block {marker : List Char} {opened : ℕ} {before context : List (List Char)}
    (h : marker ∉ context) :
    parseLines host source lineNo parsed (some ⟨marker, opened, before⟩)
        (context ++ marker :: lines) =
      (closeBlock parsed ⟨marker, opened, before ++ context⟩ >>= fun parsed =>
        parseLines host source (lineNo + context.length + 1) parsed none lines) := by
  induction context generalizing before lineNo with
  | nil =>
    rw [List.nil_append, parseLines, if_pos rfl, List.append_nil]
    rfl
  | cons raw context ih =>
    rw [List.mem_cons, not_or] at h
    have hlength : lineNo + 1 + context.length + 1 = lineNo + (raw :: context).length + 1 := by
      rw [List.length_cons]
      omega
    rw [List.cons_append, parseLines, if_neg fun he => h.1 he.symm, ih h.2, List.append_assoc,
      List.singleton_append, hlength]

end Cyclo.Project
