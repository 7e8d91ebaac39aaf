import Cyclo.Gateway.UsageReport
import Cyclo.Process.Machine
import Cyclo.Text.Lines
import Mathlib.Data.List.TakeWhile

/-! The usage ledger: appends of one gateway process at a time, the repair of an incomplete tail at
its start, and the agreement of both with a reading line by line. -/
namespace Cyclo.Gateway
open Js Process Text

/-- `block.lastIndexOf(0x0a, count - 1)` -/
def lastNewline (block : Bytes) : ℕ → Option ℕ
  | 0 => none
  | i + 1 => if block[i]? = some newline then some i else lastNewline block i

/-- The scan for the last newline from the end of the file, one block before the other. A read at
a position of the file fills the whole block. -/
def repairLoop (block : ℕ) (hblock : 0 < block) (file : Bytes) (cursor : ℕ) : Bytes :=
  if 0 < cursor then
    let length := min block cursor
    let start := cursor - length
    match lastNewline ((file.drop start).take length) length with
    | some i => file.take (start + i + 1)
    | none => repairLoop block hblock file start
  else []
termination_by cursor
decreasing_by omega

/-- What `repairIncompleteTail` leaves of the file. -/
def repairIncompleteTail (file : Bytes) : Bytes :=
  if hsize : 0 < file.length then
    repairLoop (min (64 * 1024) file.length) (by omega) file file.length
  else file

/-- A gateway process with the ledger open: the records that wait behind the chain of promises, what
is left of the append in progress, and whether an append has failed. -/
structure Writer where
  waiting : List Bytes
  writing : Option Bytes
  failure : Bool

structure Ledger where
  file : Bytes
  process : Option Writer

/-- `record` is called with the encoded text of a record; the chain then begins its append, which
ends after the last byte or fails after any of them. -/
inductive LedgerStep where
  | start
  | record (text : Bytes)
  | begin
  | write (count : ℕ)
  | finish
  | fail
  | crash

def ledgerStep (ledger : Ledger) (label : LedgerStep) : Option Ledger :=
  match label, ledger.process with
  | .start, none => some ⟨repairIncompleteTail ledger.file, some ⟨[], none, false⟩⟩
  | .record text, some writer =>
    some { ledger with process := some { writer with waiting := writer.waiting ++ [text] } }
  | .begin, some ⟨text :: waiting, none, failure⟩ =>
    -- After a failure the record is rejected without a write.
    if failure then some { ledger with process := some ⟨waiting, none, true⟩ }
    else some { ledger with process := some ⟨waiting, some (text ++ [newline]), false⟩ }
  | .write count, some ⟨waiting, some bytes, failure⟩ =>
    some ⟨ledger.file ++ bytes.take count, some ⟨waiting, some (bytes.drop count), failure⟩⟩
  | .finish, some ⟨waiting, some [], failure⟩ =>
    some { ledger with process := some ⟨waiting, none, failure⟩ }
  | .fail, some ⟨waiting, some _, _⟩ =>
    some { ledger with process := some ⟨waiting, none, true⟩ }
  | .crash, some _ => some { ledger with process := none }
  | _, _ => none

section
variable (dateParse : Str → Option TimeValue) (decodeText : Bytes → Option Str)
  (jsonParse : Str → Option Json) (maxRecordBytes : ℕ) (localeLe : Str → Str → Bool)

/-- The lines of a ledger from a line number on, added to a report one after the other. -/
def addLines (report : UsageReport) : ℕ → List Bytes → Except String UsageReport
  | _, [] => .ok report
  | line, bytes :: lines => do
    let report ← addUsageLine dateParse decodeText jsonParse maxRecordBytes report
      (stripReturn bytes) line
    addLines report (line + 1) lines

/-- The report of the newline-terminated lines of a file. -/
def lineReport (file : Bytes) : Except String UsageReport := do
  let report ← addLines dateParse decodeText jsonParse maxRecordBytes emptyUsageReport 1
    (pieces newline file)
  return finishUsageReport localeLe report

end

theorem lastNewline_eq_some {block : Bytes} {count i : ℕ} (h : lastNewline block count = some i) :
    i < count ∧ block[i]? = some newline ∧
      ∀ j, i < j → j < count → block[j]? ≠ some newline := by
  induction count with
  | zero => cases h
  | succ count ih =>
    rw [lastNewline] at h
    split_ifs at h with hlast
    · cases h
      exact ⟨by omega, hlast, fun j hlo hhi => by omega⟩
    · obtain ⟨hlt, hi, hbetween⟩ := ih h
      refine ⟨by omega, hi, fun j hlo hhi => ?_⟩
      rcases Nat.lt_succ_iff_lt_or_eq.mp hhi with hj | rfl
      · exact hbetween j hlo hj
      · exact hlast

theorem lastNewline_eq_none {block : Bytes} {count : ℕ} (h : lastNewline block count = none) :
    ∀ j < count, block[j]? ≠ some newline := by
  induction count with
  | zero =>
    intro j hj
    omega
  | succ count ih =>
    rw [lastNewline] at h
    split_ifs at h with hlast
    intro j hj
    rcases Nat.lt_succ_iff_lt_or_eq.mp hj with hj | rfl
    · exact ih h j hj
    · exact hlast

theorem not_mem_drop {file : Bytes} {cursor : ℕ} :
    newline ∉ file.drop cursor ↔ ∀ j, cursor ≤ j → file[j]? ≠ some newline := by
  rw [List.mem_iff_getElem?]
  simp only [List.getElem?_drop, not_exists]
  constructor
  · intro h j hj
    have := h (j - cursor)
    rwa [Nat.add_sub_cancel' hj] at this
  · intro h i
    exact h (cursor + i) (by omega)

/-- One block of the file, by positions of the file. -/
theorem getElem?_block (file : Bytes) (start length i : ℕ) (hi : i < length) :
    ((file.drop start).take length)[i]? = file[start + i]? := by
  rw [List.getElem?_take_of_lt hi, List.getElem?_drop]

/-- No newline of the file is at or after the cursor. -/
theorem repairLoop_eq (block : ℕ) (hblock : 0 < block) {file : Bytes} (cursor : ℕ)
    (hrest : ∀ j, cursor ≤ j → file[j]? ≠ some newline) :
    repairLoop block hblock file cursor = terminated newline file := by
  induction cursor using Nat.strongRecOn with
  | ind cursor ih =>
  unfold repairLoop
  split_ifs with hcursor
  · dsimp only
    split
    · rename_i i hi
      obtain ⟨hlt, hat, hafter⟩ := lastNewline_eq_some hi
      rw [getElem?_block _ _ _ _ hlt] at hat
      have hno : newline ∉ file.drop (cursor - min block cursor + i + 1) := by
        rw [not_mem_drop]
        intro j hj
        by_cases hjc : cursor ≤ j
        · exact hrest j hjc
        · have hb := hafter (j - (cursor - min block cursor)) (by omega) (by omega)
          rw [getElem?_block _ _ _ _ (by omega)] at hb
          rwa [show cursor - min block cursor + (j - (cursor - min block cursor)) = j by omega]
            at hb
      have hterm : Terminated newline (file.take (cursor - min block cursor + i + 1)) := by
        right
        rw [List.take_add_one, hat]
        simp
      have h := terminated_append newline hterm hno
      rw [List.take_append_drop] at h
      exact h.symm
    · rename_i hi
      refine ih _ (by omega) fun j hj => ?_
      by_cases hjc : cursor ≤ j
      · exact hrest j hjc
      · have hb := lastNewline_eq_none hi (j - (cursor - min block cursor)) (by omega)
        rw [getElem?_block _ _ _ _ (by omega)] at hb
        rwa [show cursor - min block cursor + (j - (cursor - min block cursor)) = j by omega]
          at hb
  · have hno : newline ∉ file := by
      have h : newline ∉ file.drop 0 ↔ _ := not_mem_drop
      rw [List.drop_zero] at h
      exact h.mpr fun j _ => hrest j (by omega)
    rw [terminated, (pieces_eq_nil newline hno).1]
    rfl

theorem repairIncompleteTail_eq (file : Bytes) :
    repairIncompleteTail file = terminated newline file := by
  unfold repairIncompleteTail
  split_ifs with hsize
  · refine repairLoop_eq _ _ file.length fun j hj => ?_
    rw [List.getElem?_eq_none hj]
    simp
  · have hnil : file = [] := List.length_eq_zero_iff.mp (by omega)
    rw [hnil]
    rfl

section
variable (dateParse : Str → Option TimeValue) (decodeText : Bytes → Option Str)
  (jsonParse : Str → Option Json) (maxRecordBytes : ℕ) (localeLe : Str → Str → Bool)

theorem addLines_append (report : UsageReport) (line : ℕ) (lines more : List Bytes) :
    addLines dateParse decodeText jsonParse maxRecordBytes report line (lines ++ more) =
      (addLines dateParse decodeText jsonParse maxRecordBytes report line lines).bind fun report =>
        addLines dateParse decodeText jsonParse maxRecordBytes report (line + lines.length) more := by
  induction lines generalizing report line with
  | nil => rfl
  | cons bytes lines ih =>
    rw [List.cons_append, addLines, addLines]
    cases addUsageLine dateParse decodeText jsonParse maxRecordBytes report (stripReturn bytes)
        line with
    | error message => rfl
    | ok report =>
      change addLines _ _ _ _ report (line + 1) (lines ++ more) = _
      rw [ih, List.length_cons, Nat.add_right_comm, Nat.add_assoc]
      rfl

/-- The reader has seen `text` of an unfinished line. -/
structure Carries (reader : Reader) (text : Bytes) : Prop where
  unfinished : newline ∉ text
  pending : reader.oversized = false → reader.pending = text ∧ text.length ≤ maxRecordBytes + 1
  oversized : reader.oversized = true → maxRecordBytes + 1 < text.length

variable {maxRecordBytes}

theorem Carries.extend {reader : Reader} {text fragment : Bytes}
    (h : Carries maxRecordBytes reader text) (hf : newline ∉ fragment) :
    Carries maxRecordBytes (reader.extend maxRecordBytes fragment) (text ++ fragment) := by
  have hclean : newline ∉ text ++ fragment := by simp [h.unfinished, hf]
  unfold Reader.extend
  split_ifs with hover hlong
  · have hlt := h.oversized hover
    refine ⟨hclean, fun hfalse => ?_, fun _ => ?_⟩
    · rw [hover] at hfalse
      cases hfalse
    · rw [List.length_append]
      omega
  · obtain ⟨hp, -⟩ := h.pending (by simpa using hover)
    rw [hp] at hlong
    rw [← List.length_append] at hlong
    exact ⟨hclean, nofun, fun _ => hlong⟩
  · obtain ⟨hp, -⟩ := h.pending (by simpa using hover)
    rw [hp] at hlong
    refine ⟨hclean, fun _ => ⟨?_, ?_⟩, fun htrue => absurd htrue hover⟩
    · rw [hp]
    · rw [List.length_append]
      omega

@[simp] theorem extend_report (reader : Reader) (fragment : Bytes) :
    (reader.extend maxRecordBytes fragment).report = reader.report := by
  unfold Reader.extend
  split_ifs <;> rfl

@[simp] theorem extend_line (reader : Reader) (fragment : Bytes) :
    (reader.extend maxRecordBytes fragment).line = reader.line := by
  unfold Reader.extend
  split_ifs <;> rfl

theorem length_stripReturn (text : Bytes) : text.length ≤ (stripReturn text).length + 1 := by
  unfold stripReturn
  split_ifs
  · rw [List.length_dropLast]
    omega
  · omega

/-- The end of a line does what the plain reading does with the whole line, also when the reader
has dropped an overlong one. -/
theorem Carries.endLine {reader : Reader} {text : Bytes} (h : Carries maxRecordBytes reader text) :
    reader.endLine dateParse decodeText jsonParse maxRecordBytes =
      (addUsageLine dateParse decodeText jsonParse maxRecordBytes reader.report (stripReturn text)
        (reader.line + 1)).bind fun report => .ok ⟨report, [], false, reader.line + 1⟩ := by
  unfold Reader.endLine
  cases hover : reader.oversized with
  | false =>
    rw [(h.pending hover).1]
    rfl
  | true =>
    have hlong := h.oversized hover
    have hstrip := length_stripReturn text
    have hne : stripReturn text ≠ [] := by
      intro he
      rw [he, List.length_nil] at hstrip
      omega
    have hlt : maxRecordBytes < (stripReturn text).length := by omega
    unfold addUsageLine
    rw [if_pos rfl, if_neg hne, if_pos hlt]
    rfl

variable (maxRecordBytes) in
/-- What reading bytes gives: the report of their lines, with the rest carried. -/
def Agrees (result : Except String Reader) (reader : Reader) (text : Bytes) : Prop :=
  match addLines dateParse decodeText jsonParse maxRecordBytes reader.report (reader.line + 1)
    (pieces newline text) with
  | .error message => result = .error message
  | .ok report => ∃ next, result = .ok next ∧ next.report = report ∧
      next.line = reader.line + (pieces newline text).length ∧
      Carries maxRecordBytes next (tail newline text)

theorem readChunk_of_not_mem {reader : Reader} {chunk : Bytes} (h : newline ∉ chunk) :
    readChunk dateParse decodeText jsonParse maxRecordBytes reader chunk =
      .ok (if chunk = [] then reader else reader.extend maxRecordBytes chunk) := by
  have hall : ∀ b ∈ chunk, decide (b ≠ newline) = true := by
    intro b hb
    rw [decide_eq_true_iff]
    rintro rfl
    exact h hb
  unfold readChunk
  split_ifs
  · rfl
  · rw [List.takeWhile_eq_self_iff.mpr hall]
    dsimp only
    split
    · rfl
    · rename_i hdrop
      rw [List.dropWhile_eq_nil_iff.mpr hall] at hdrop
      cases hdrop

theorem readChunk_append_newline {reader : Reader} {piece : Bytes} (rest : Bytes)
    (h : newline ∉ piece) :
    readChunk dateParse decodeText jsonParse maxRecordBytes reader (piece ++ newline :: rest) =
      ((reader.extend maxRecordBytes piece).endLine dateParse decodeText jsonParse
        maxRecordBytes).bind fun reader =>
          readChunk dateParse decodeText jsonParse maxRecordBytes reader rest := by
  have hall : ∀ b ∈ piece, decide (b ≠ newline) = true := by
    intro b hb
    rw [decide_eq_true_iff]
    rintro rfl
    exact h hb
  have htake : (piece ++ newline :: rest).takeWhile (· ≠ newline) = piece := by
    rw [List.takeWhile_append_of_pos hall]
    simp
  have hdrop : (piece ++ newline :: rest).dropWhile (· ≠ newline) = newline :: rest := by
    rw [List.dropWhile_append_of_pos hall]
    simp
  rw [readChunk, if_neg (by simp), htake]
  dsimp only
  split
  · rename_i hnil
    rw [hdrop] at hnil
    cases hnil
  · rename_i hcons
    rw [hdrop] at hcons
    cases hcons
    rfl

/-- A chunk is read as its lines, the first one with what was carried before it. -/
theorem readChunk_agrees {reader : Reader} {text : Bytes} (chunk : Bytes)
    (h : Carries maxRecordBytes reader text) :
    Agrees dateParse decodeText jsonParse maxRecordBytes
      (readChunk dateParse decodeText jsonParse maxRecordBytes reader chunk) reader
      (text ++ chunk) := by
  induction chunk using piece_induction newline generalizing reader text with
  | htail chunk hchunk =>
    have hboth : newline ∉ text ++ chunk := by simp [h.unfinished, hchunk]
    unfold Agrees
    rw [readChunk_of_not_mem dateParse decodeText jsonParse hchunk,
      (pieces_eq_nil newline hboth).1, (pieces_eq_nil newline hboth).2]
    split_ifs with hnil
    · refine ⟨reader, rfl, rfl, rfl, ?_⟩
      rwa [hnil, List.append_nil]
    · exact ⟨_, rfl, extend_report reader chunk, extend_line reader chunk, h.extend hchunk⟩
  | hpiece piece rest hpiece ih =>
    have hcarries := h.extend hpiece
    unfold Agrees
    rw [readChunk_append_newline dateParse decodeText jsonParse rest hpiece,
      hcarries.endLine dateParse decodeText jsonParse, extend_report, extend_line,
      ← List.append_assoc, pieces_append_sep newline hcarries.unfinished,
      tail_append_sep newline hcarries.unfinished, addLines]
    cases addUsageLine dateParse decodeText jsonParse maxRecordBytes reader.report
        (stripReturn (text ++ piece)) (reader.line + 1) with
    | error message => rfl
    | ok report =>
      have hnext : Carries maxRecordBytes ⟨report, [], false, reader.line + 1⟩ [] :=
        ⟨List.not_mem_nil, fun _ => ⟨rfl, by simp⟩, nofun⟩
      have hih := ih hnext
      unfold Agrees at hih
      rw [List.nil_append] at hih
      change match addLines _ _ _ _ report (reader.line + 1 + 1) (pieces newline rest) with
        | .error message => readChunk dateParse decodeText jsonParse maxRecordBytes
            ⟨report, [], false, reader.line + 1⟩ rest = .error message
        | .ok report' => _
      split at hih
      · rename_i message hlines
        rw [hlines]
        exact hih
      · rename_i final hlines
        obtain ⟨next, hread, hreport, hline, htail⟩ := hih
        rw [hlines]
        refine ⟨next, hread, hreport, ?_, htail⟩
        rw [hline, List.length_cons]
        dsimp only
        omega

theorem foldlM_readChunk_agrees {reader : Reader} {text : Bytes} (chunks : List Bytes)
    (h : Carries maxRecordBytes reader text) :
    Agrees dateParse decodeText jsonParse maxRecordBytes
      (chunks.foldlM (readChunk dateParse decodeText jsonParse maxRecordBytes) reader) reader
      (text ++ chunks.flatten) := by
  induction chunks generalizing reader text with
  | nil =>
    have hnone := pieces_eq_nil newline h.unfinished
    unfold Agrees
    rw [List.flatten_nil, List.append_nil, hnone.1, hnone.2]
    exact ⟨reader, rfl, rfl, rfl, h⟩
  | cons chunk chunks ih =>
    have hchunk := readChunk_agrees dateParse decodeText jsonParse chunk h
    unfold Agrees at hchunk ⊢
    rw [List.flatten_cons, ← List.append_assoc, pieces_append newline (text ++ chunk),
      tail_append newline (text ++ chunk), addLines_append, List.foldlM_cons]
    split at hchunk
    · rename_i message hlines
      rw [hlines, hchunk]
      rfl
    · rename_i report hlines
      obtain ⟨next, hread, hreport, hline, hcarries⟩ := hchunk
      have hih := ih hcarries
      unfold Agrees at hih
      rw [hreport, hline] at hih
      rw [hlines, hread, List.length_append]
      change match addLines _ _ _ _ report _ _ with
        | .error message => chunks.foldlM (readChunk dateParse decodeText jsonParse maxRecordBytes)
            next = .error message
        | .ok report => _
      rw [show reader.line + 1 + (pieces newline (text ++ chunk)).length =
        reader.line + (pieces newline (text ++ chunk)).length + 1 by omega]
      split at hih
      · rename_i message hrest
        rw [hrest]
        exact hih
      · rename_i final hrest
        obtain ⟨last, hlast, hfinal, hlastLine, htail⟩ := hih
        rw [hrest]
        refine ⟨last, hlast, hfinal, ?_, htail⟩
        omega

theorem finishUsageReport_empty : finishUsageReport localeLe emptyUsageReport = emptyUsageReport := by
  simp [finishUsageReport, sortedGroups, emptyUsageReport]

/-- Every division into chunks gives the report of the plain reading. -/
theorem aggregateUsageFile_eq (chunks : List Bytes) :
    aggregateUsageFile dateParse decodeText jsonParse maxRecordBytes localeLe (some chunks) =
      lineReport dateParse decodeText jsonParse maxRecordBytes localeLe chunks.flatten := by
  have hinitial : Carries maxRecordBytes Reader.initial [] :=
    ⟨List.not_mem_nil, fun _ => ⟨rfl, by simp⟩, nofun⟩
  have hread := foldlM_readChunk_agrees dateParse decodeText jsonParse chunks hinitial
  unfold Agrees at hread
  rw [List.nil_append] at hread
  unfold aggregateUsageFile lineReport
  dsimp only
  split_ifs with hnil
  · rw [hnil, pieces_nil, addLines]
    exact congrArg Except.ok (finishUsageReport_empty localeLe).symm
  · change match addLines _ _ _ _ emptyUsageReport 1 (pieces newline chunks.flatten) with
      | .error message => chunks.foldlM (readChunk dateParse decodeText jsonParse maxRecordBytes)
          Reader.initial = .error message
      | .ok report => _ at hread
    split at hread
    · rename_i message hlines
      rw [hlines, hread]
      rfl
    · rename_i report hlines
      obtain ⟨next, hnext, hreport, -⟩ := hread
      rw [hlines, hnext, ← hreport]
      rfl

theorem lineReport_repair (file : Bytes) :
    lineReport dateParse decodeText jsonParse maxRecordBytes localeLe (repairIncompleteTail file) =
      lineReport dateParse decodeText jsonParse maxRecordBytes localeLe file := by
  unfold lineReport
  rw [repairIncompleteTail_eq, pieces_terminated]

end

/-- The process has failed an append, and none is in progress. -/
def Failed (ledger : Ledger) : Prop :=
  ∃ waiting, ledger.process = some ⟨waiting, none, true⟩

/-- An append in progress belongs to a process in which none has failed. -/
def Writes (ledger : Ledger) : Prop :=
  ∀ writer bytes, ledger.process = some writer → writer.writing = some bytes →
    writer.failure = false

theorem writes_step {ledger t : Ledger} {label : LedgerStep} (hw : Writes ledger)
    (h : ledgerStep ledger label = some t) : Writes t := by
  intro writer bytes hprocess hwriting
  unfold ledgerStep at h
  split at h
  · cases h
    cases hprocess
    cases hwriting
  · rename_i before hbefore
    cases h
    cases hprocess
    exact hw before bytes hbefore hwriting
  · split_ifs at h with hfailure <;> cases h <;> cases hprocess
    · cases hwriting
    · rfl
  · rename_i waiting left failure hbefore
    cases h
    cases hprocess
    exact hw ⟨waiting, some left, failure⟩ left hbefore rfl
  · cases h
    cases hprocess
    cases hwriting
  · cases h
    cases hprocess
    cases hwriting
  · cases h
    cases hprocess
  · cases h

/-- No step of a process that has failed an append writes to the file. -/
theorem failed_step {ledger t : Ledger} {label : LedgerStep} (hf : Failed ledger)
    (hlabel : label ≠ .crash) (h : ledgerStep ledger label = some t) :
    Failed t ∧ t.file = ledger.file := by
  obtain ⟨waiting, hprocess⟩ := hf
  unfold ledgerStep at h
  rw [hprocess] at h
  cases label with
  | record text =>
    cases h
    exact ⟨⟨_, rfl⟩, rfl⟩
  | begin =>
    cases waiting with
    | nil => cases h
    | cons text waiting =>
      cases h
      exact ⟨⟨_, rfl⟩, rfl⟩
  | crash => exact absurd rfl hlabel
  | start | write _ | finish | fail => cases h

theorem failed_run {ledger t : Ledger} {labels : List LedgerStep} (hf : Failed ledger)
    (hlabels : .crash ∉ labels) (h : run ledgerStep ledger labels = some t) :
    t.file = ledger.file := by
  induction labels generalizing ledger with
  | nil =>
    cases h
    rfl
  | cons label labels ih =>
    rw [List.mem_cons, not_or] at hlabels
    obtain ⟨next, hnext, h⟩ := Option.bind_eq_some_iff.mp h
    obtain ⟨hfailed, hfile⟩ := failed_step hf (fun he => hlabels.1 he.symm) hnext
    rw [ih hfailed hlabels.2 h, hfile]

/-- A ledger that processes append to and crash at any byte of. A restart keeps exactly the longest
newline-terminated prefix and changes no report; every reading in chunks gives the report of the
plain reading; and a process that has failed an append writes no more. -/
theorem ledger_recovery (dateParse : Str → Option TimeValue) (decodeText : Bytes → Option Str)
    (jsonParse : Str → Option Json) (maxRecordBytes : ℕ) (localeLe : Str → Str → Bool)
    {file : Bytes} {labels : List LedgerStep} {ledger : Ledger}
    (h : run ledgerStep ⟨file, none⟩ labels = some ledger) :
    (∀ t, ledgerStep ledger .start = some t →
      (t.file <+: ledger.file ∧ Terminated newline t.file ∧
        ∀ part, part <+: ledger.file → Terminated newline part → part <+: t.file) ∧
      ∀ before after, before.flatten = ledger.file → after.flatten = t.file →
        aggregateUsageFile dateParse decodeText jsonParse maxRecordBytes localeLe (some before) =
          aggregateUsageFile dateParse decodeText jsonParse maxRecordBytes localeLe (some after)) ∧
    (∀ chunks, chunks.flatten = ledger.file →
      aggregateUsageFile dateParse decodeText jsonParse maxRecordBytes localeLe (some chunks) =
        lineReport dateParse decodeText jsonParse maxRecordBytes localeLe ledger.file) ∧
    ∀ writer, ledger.process = some writer → writer.failure = true →
      ∀ more t, .crash ∉ more → run ledgerStep ledger more = some t → t.file = ledger.file := by
  have hwrites : Writes ledger :=
    run_invariant (fun _ _ _ => writes_step) (fun _ _ hnone => by cases hnone) h
  refine ⟨fun t ht => ?_, fun chunks hchunks => ?_, fun writer hprocess hfailure more t => ?_⟩
  · have hfile : t.file = repairIncompleteTail ledger.file := by
      unfold ledgerStep at ht
      cases hprocess : ledger.process with
      | none =>
        rw [hprocess] at ht
        cases ht
        rfl
      | some writer =>
        rw [hprocess] at ht
        cases ht
    rw [hfile]
    constructor
    · rw [repairIncompleteTail_eq]
      exact ⟨terminated_isPrefix_self newline _, terminated_terminated newline _,
        fun part => prefix_terminated newline⟩
    · intro before after hbefore hafter
      rw [aggregateUsageFile_eq, aggregateUsageFile_eq, hbefore, hafter, lineReport_repair]
  · rw [aggregateUsageFile_eq, hchunks]
  · have hidle : writer.writing = none := by
      cases hwriting : writer.writing with
      | none => rfl
      | some bytes =>
        have hfalse := hwrites writer bytes hprocess hwriting
        rw [hfailure] at hfalse
        cases hfalse
    refine failed_run ⟨writer.waiting, ?_⟩
    rw [hprocess, ← hidle, ← hfailure]

/-- Two records are waiting, and the append of the first one fails after a byte. -/
def failedAppend : List LedgerStep :=
  [.start, .record [0x7b, 0x7d], .record [0x5b, 0x5d], .begin, .write 1, .fail]

def tornLedger : Ledger := ⟨[0x7b], some ⟨[[0x5b, 0x5d]], none, true⟩⟩

def rejectedLedger : Ledger := ⟨[0x7b], some ⟨[], none, true⟩⟩

theorem ledger_recovery_torn :
    rejectedLedger.file = tornLedger.file ∧
      aggregateUsageFile (fun _ => none) (fun _ => none) (fun _ => none) maxUsageRecordBytes
          (fun _ _ => true) (some [[0x7b]]) =
        lineReport (fun _ => none) (fun _ => none) (fun _ => none) maxUsageRecordBytes
          (fun _ _ => true) [0x7b] := by
  have hrun : run ledgerStep ⟨[], none⟩ failedAppend = some tornLedger := by rfl
  obtain ⟨-, hreport, hfailed⟩ := ledger_recovery (fun _ => none) (fun _ => none) (fun _ => none)
    maxUsageRecordBytes (fun _ _ => true) hrun
  exact ⟨hfailed ⟨[[0x5b, 0x5d]], none, true⟩ rfl rfl [.begin] rejectedLedger (by simp) rfl,
    hreport [[0x7b]] rfl⟩

end Cyclo.Gateway
