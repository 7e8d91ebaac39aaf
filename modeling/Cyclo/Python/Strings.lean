import Cyclo.Python.Text
import Cyclo.Text.Splitting

/-! String methods of Python over lists of characters, and the bytes of UTF-8 text. -/
namespace Cyclo.Python

/-- `text.encode("utf-8")` -/
def utf8 (text : List Char) : List UInt8 := text.flatMap String.utf8EncodeChar

/-- `content.decode("utf-8")`, nothing for malformed content. -/
def decode (content : List UInt8) : Option (List Char) :=
  content.toByteArray.utf8Decode?.map Array.toList

/-- The characters that end a line for `str.splitlines`. -/
def isLineBreak (c : Char) : Bool :=
  let n := c.toNat
  0x0a ≤ n && n ≤ 0x0d || 0x1c ≤ n && n ≤ 0x1e || n = 0x85 || n = 0x2028 || n = 0x2029

def prependHead (c : Char) : List (List Char) → List (List Char)
  | [] => [[c]]
  | line :: lines => (c :: line) :: lines

/-- `text.splitlines()` -/
def splitlines : List Char → List (List Char)
  | [] => []
  | '\r' :: '\n' :: text => [] :: splitlines text
  | c :: text => if isLineBreak c then [] :: splitlines text else prependHead c (splitlines text)

/-- `text.strip()` -/
def strip (text : List Char) : List Char := Text.strip isSpace text

/-- `text.split()` -/
def split (text : List Char) : List (List Char) := Text.words isSpace text

theorem isSpace_of_isLineBreak {c : Char} (h : isLineBreak c = true) : isSpace c = true := by
  simp only [isLineBreak, isSpace, Bool.or_eq_true, Bool.and_eq_true, decide_eq_true_eq] at h ⊢
  omega

theorem decode_utf8 (text : List Char) : decode (utf8 text) = some text := by
  have hdecode : (text.flatMap String.utf8EncodeChar).toByteArray.utf8Decode? =
      some text.toArray := List.utf8Decode?_utf8Encode
  rw [decode, utf8, hdecode]
  rfl

theorem decode_eq_some {content : List UInt8} {text : List Char} :
    decode content = some text ↔ content = utf8 text := by
  constructor
  · intro h
    unfold decode at h
    obtain ⟨chars, hchars, rfl⟩ := Option.map_eq_some_iff.mp h
    have hsome : content.toByteArray.utf8Decode?.isSome := by
      rw [hchars]
      rfl
    have hencode := ByteArray.utf8Encode_get_utf8Decode? (b := content.toByteArray) (h := hsome)
    simp only [hchars, Option.get_some] at hencode
    have hbytes := congrArg (fun b : ByteArray => b.data.toList) hencode
    simpa [utf8, List.utf8Encode] using hbytes.symm
  · intro h
    rw [h, decode_utf8]

/-- A character is one byte below 128, or bytes from 128 on. -/
theorem utf8EncodeChar_cases (c : Char) :
    (c.toNat < 0x80 ∧ String.utf8EncodeChar c = [c.toNat.toUInt8]) ∨
      (0x80 ≤ c.toNat ∧ String.utf8EncodeChar c ≠ [] ∧
        ∀ b ∈ String.utf8EncodeChar c, 0x80 ≤ b.toNat) := by
  have hmax : c.val.toNat < 0x110000 := by
    have h := c.valid
    unfold UInt32.isValidChar Nat.isValidChar at h
    omega
  have hbyte : ∀ n : ℕ, 0x80 ≤ n → n < 256 → 0x80 ≤ (UInt8.ofNat n).toNat := by
    intro n hlo hhi
    rw [UInt8.toNat_ofNat']
    omega
  unfold String.utf8EncodeChar Char.toNat
  dsimp only
  split_ifs with h1 h2 h3
  · left
    exact ⟨by omega, rfl⟩
  all_goals
    right
    refine ⟨by omega, List.cons_ne_nil _ _, ?_⟩
    simp only [List.forall_mem_cons]
  · exact ⟨hbyte _ (by omega) (by omega), hbyte _ (by omega) (by omega), List.forall_mem_nil _⟩
  · exact ⟨hbyte _ (by omega) (by omega), hbyte _ (by omega) (by omega),
      hbyte _ (by omega) (by omega), List.forall_mem_nil _⟩
  · exact ⟨hbyte _ (by omega) (by omega), hbyte _ (by omega) (by omega),
      hbyte _ (by omega) (by omega), hbyte _ (by omega) (by omega), List.forall_mem_nil _⟩

theorem utf8_injective {s t : List Char} (h : utf8 s = utf8 t) : s = t := by
  have hs := decode_utf8 s
  rw [h, decode_utf8] at hs
  exact (Option.some.inj hs).symm

/-- The characters that a class of bytes below 128 stands for. -/
def asciiClass (q : UInt8 → Bool) (c : Char) : Bool := c.toNat < 0x80 && q c.toNat.toUInt8

theorem keepsMarks_utf8 {q : UInt8 → Bool} (hq : ∀ b : UInt8, 0x80 ≤ b.toNat → q b = false) :
    Text.KeepsMarks String.utf8EncodeChar (asciiClass q) q where
  mark := by
    intro c hc
    rw [asciiClass, Bool.and_eq_true, decide_eq_true_eq] at hc
    rcases utf8EncodeChar_cases c with ⟨-, hbytes⟩ | ⟨hlarge, -, -⟩
    · exact ⟨_, hbytes, hc.2⟩
    · omega
  other := by
    intro c hc
    rw [asciiClass, Bool.and_eq_false_iff, decide_eq_false_iff_not] at hc
    rcases utf8EncodeChar_cases c with ⟨hsmall, hbytes⟩ | ⟨-, hne, hhigh⟩
    · have hno := hc.resolve_left (fun h => h hsmall)
      rw [hbytes]
      exact ⟨List.cons_ne_nil _ _, List.forall_mem_singleton.mpr hno⟩
    · exact ⟨hne, fun b hb => hq b (hhigh b hb)⟩

/-- The lines and the pieces between the line breaks start alike, and differ in empty ones only. -/
theorem splitlines_cases {β : Type} {f : List Char → Option β} (hf : f [] = none)
    (text : List Char) : text = [] ∨ ∃ line lines pieces, splitlines text = line :: lines ∧
      text.splitOnP isLineBreak = line :: pieces ∧ lines.filterMap f = pieces.filterMap f := by
  -- behind a line break the rest starts anew
  have hrest : ∀ text : List Char, (text = [] ∨ ∃ line lines pieces,
      splitlines text = line :: lines ∧ text.splitOnP isLineBreak = line :: pieces ∧
        lines.filterMap f = pieces.filterMap f) →
      (splitlines text).filterMap f = (text.splitOnP isLineBreak).filterMap f := by
    intro text h
    rcases h with rfl | ⟨line, lines, pieces, hl, hp, heq⟩
    · simp [splitlines, hf]
    · rw [hl, hp, List.filterMap_cons, List.filterMap_cons, heq]
  induction text using splitlines.induct with
  | case1 => exact .inl rfl
  | case2 text ih =>
    right
    have hr : isLineBreak '\r' = true := rfl
    have hn : isLineBreak '\n' = true := rfl
    refine ⟨[], splitlines text, _, rfl, Text.splitOnP_cons_of_pos _ hr, ?_⟩
    rw [Text.splitOnP_cons_of_pos _ hn, List.filterMap_cons_none hf, hrest text ih]
  | case3 c text hno hb ih =>
    right
    refine ⟨[], splitlines text, _, ?_, Text.splitOnP_cons_of_pos _ hb, hrest text ih⟩
    rw [splitlines, if_pos hb]
    exact hno
  | case4 c text hno hb ih =>
    right
    rw [splitlines, if_neg hb, Text.splitOnP_cons_of_neg _ (by simpa using hb)]
    · rcases ih with rfl | ⟨line, lines, pieces, hl, hp, heq⟩
      · exact ⟨[c], [], [], rfl, rfl, rfl⟩
      · rw [hl, hp]
        exact ⟨c :: line, lines, pieces, rfl, rfl, heq⟩
    · exact hno

/-- Where empty lines do not count, the lines are the pieces between the line breaks. -/
theorem filterMap_splitlines {β : Type} {f : List Char → Option β} (hf : f [] = none)
    (text : List Char) :
    (splitlines text).filterMap f = (text.splitOnP isLineBreak).filterMap f := by
  rcases splitlines_cases hf text with rfl | ⟨line, lines, pieces, hl, hp, heq⟩
  · simp [splitlines, hf]
  · rw [hl, hp, List.filterMap_cons, List.filterMap_cons, heq]

/-- Text up to a newline, without carriage returns, ends a line at each of its line breaks. -/
theorem splitlines_append_newline {text : List Char} (h : '\r' ∉ text) (rest : List Char) :
    splitlines (text ++ '\n' :: rest) = text.splitOnP isLineBreak ++ splitlines rest := by
  have hn : isLineBreak '\n' = true := rfl
  induction text with
  | nil =>
    rw [List.nil_append, splitlines, if_pos hn, List.splitOnP_nil]
    · rfl
    · intro _ hc
      exact absurd hc (by decide)
  | cons c text ih =>
    rw [List.mem_cons, not_or] at h
    rw [List.cons_append, splitlines, ih h.2]
    · cases hb : isLineBreak c with
      | true =>
        rw [if_pos rfl, Text.splitOnP_cons_of_pos _ hb]
        rfl
      | false =>
        obtain ⟨piece, pieces, hs⟩ :=
          List.exists_cons_of_ne_nil (List.splitOnP_ne_nil isLineBreak text)
        rw [if_neg (by simp), Text.splitOnP_cons_of_neg _ hb, hs]
        rfl
    · intro _ hc
      exact absurd hc.symm h.1

/-- The lines of items that each end with a newline. -/
theorem splitlines_items {items : List (List Char)} (h : ∀ item ∈ items, '\r' ∉ item) :
    splitlines (items.flatMap (· ++ ['\n'])) = items.flatMap (List.splitOnP isLineBreak) := by
  induction items with
  | nil => rfl
  | cons item items ih =>
    rw [List.forall_mem_cons] at h
    rw [List.flatMap_cons, List.append_assoc, List.singleton_append,
      splitlines_append_newline h.1, ih h.2, List.flatMap_cons]

theorem mem_splitlines {text line : List Char} (h : line ∈ splitlines text) :
    ∀ c ∈ line, c ∈ text ∧ isLineBreak c = false := by
  induction text using splitlines.induct generalizing line with
  | case1 => cases h
  | case2 text ih =>
    rcases List.mem_cons.mp h with rfl | h
    · exact List.forall_mem_nil _
    · intro c hc
      exact ⟨List.mem_cons_of_mem _ (List.mem_cons_of_mem _ (ih h c hc).1), (ih h c hc).2⟩
  | case3 c text hno hb ih =>
    rw [splitlines, if_pos hb] at h
    · rcases List.mem_cons.mp h with rfl | h
      · exact List.forall_mem_nil _
      · intro d hd
        exact ⟨List.mem_cons_of_mem _ (ih h d hd).1, (ih h d hd).2⟩
    · exact hno
  | case4 c text hno hb ih =>
    rw [splitlines, if_neg hb] at h
    · have hc : c ∈ c :: text ∧ isLineBreak c = false := ⟨List.mem_cons_self, by simpa using hb⟩
      have hrest : ∀ line ∈ splitlines text, ∀ d ∈ line, d ∈ c :: text ∧ isLineBreak d = false :=
        fun line hline d hd => ⟨List.mem_cons_of_mem _ (ih hline d hd).1, (ih hline d hd).2⟩
      cases hs : splitlines text with
      | nil =>
        rw [hs, prependHead, List.mem_singleton] at h
        rw [h, List.forall_mem_singleton]
        exact hc
      | cons first others =>
        rw [hs, prependHead] at h
        rw [hs] at hrest
        rcases List.mem_cons.mp h with rfl | h
        · exact List.forall_mem_cons.mpr ⟨hc, hrest first List.mem_cons_self⟩
        · exact hrest line (List.mem_cons_of_mem _ h)
    · exact hno

theorem length_splitlines_le (text : List Char) : (splitlines text).length ≤ text.length := by
  induction text using splitlines.induct with
  | case1 => exact le_rfl
  | case2 text ih =>
    rw [splitlines]
    simp only [List.length_cons]
    omega
  | case3 c text hno hb ih =>
    rw [splitlines, if_pos hb]
    · simp only [List.length_cons]
      omega
    · exact hno
  | case4 c text hno hb ih =>
    rw [splitlines, if_neg hb]
    · cases hs : splitlines text with
      | nil => simp [prependHead]
      | cons line lines =>
        rw [hs] at ih
        simp only [prependHead, List.length_cons] at ih ⊢
        omega
    · exact hno

theorem length_le_length_utf8 (text : List Char) : text.length ≤ (utf8 text).length := by
  unfold utf8
  induction text with
  | nil => exact le_rfl
  | cons c text ih =>
    have hpos : 0 < (String.utf8EncodeChar c).length := by
      rw [List.length_pos_iff]
      rcases utf8EncodeChar_cases c with ⟨-, hc⟩ | ⟨-, hc, -⟩
      · simp [hc]
      · exact hc
    rw [List.flatMap_cons, List.length_append, List.length_cons]
    omega

end Cyclo.Python
