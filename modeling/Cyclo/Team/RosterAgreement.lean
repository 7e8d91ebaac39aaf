import Cyclo.Team.Roster
import Cyclo.Team.RunAgentws

/-! When the workers that `run_agentws` launches are the agents of the roster that the host
accepted. -/
namespace Cyclo.Team
open Python Shell

/-- The worker that the container has to launch for an agent. -/
def Agent.worker (agent : Agent) : RunAgentws.Worker :=
  ⟨utf8 agent.name, utf8 agent.role, utf8 agent.engine, utf8 agent.model⟩

/-- White space as the shell skips it at the beginning of a line. -/
def isShellSpace : Char → Bool := asciiClass RunAgentws.isSpace

def isNotNul (c : Char) : Bool := c ≠ '\x00'

/-- The lines between newlines, NUL characters left out. -/
def shellLines (text : List Char) : List (List Char) :=
  (text.filter isNotNul).splitOnP fun c => c = '\n'

variable (order : UInt8 → UInt8 → Bool)

/-- The line reads the same for the shell as for the host. A comment ends at the line breaks of the
host, a record has no white space but spaces and tabs, and no field that, as a file name pattern, has
a match other than itself. -/
def Plain (line : List Char) : Prop :=
  let rest := line.dropWhile isShellSpace
  if isComment rest then ∀ raw ∈ splitlines rest, isComment (strip raw) = true
  else (∀ c ∈ rest, isSpace c = true → c = ' ' ∨ c = '\t') ∧
    ∀ field ∈ split rest, Inert order (utf8 field)

variable {order}

/-- The words of the record that the shell finds on a line. -/
def shellEntry (line : List Char) : Option (List (List Char)) :=
  let rest := line.dropWhile isShellSpace
  if isComment rest then none else some (Text.words (asciiClass RunAgentws.isFieldSeparator) rest)

/-- The records that the host finds on a line of the shell. -/
def hostEntries (line : List Char) : List (List (List Char)) :=
  (line.splitOnP isLineBreak).filterMap entry

theorem isSpace_of_isShellSpace {c : Char} (h : isShellSpace c = true) : isSpace c = true := by
  simp [isShellSpace, asciiClass, RunAgentws.isSpace, UInt8.le_iff_toNat_le, ← UInt8.toNat_inj] at h
  simp [isSpace]
  omega

theorem keepsMarks_isSpace :
    Text.KeepsMarks String.utf8EncodeChar isShellSpace RunAgentws.isSpace := by
  apply keepsMarks_utf8
  intro b hb
  simp [RunAgentws.isSpace, UInt8.le_iff_toNat_le, ← UInt8.toNat_inj]
  omega

theorem keepsMarks_isFieldSeparator : Text.KeepsMarks String.utf8EncodeChar
    (asciiClass RunAgentws.isFieldSeparator) RunAgentws.isFieldSeparator := by
  apply keepsMarks_utf8
  intro b hb
  simp [RunAgentws.isFieldSeparator, ← UInt8.toNat_inj]
  omega

theorem keepsMarks_char (c : Char) (hc : c.toNat < 0x80) :
    Text.KeepsMarks String.utf8EncodeChar (fun d => decide (d = c))
      fun b => decide (b = c.toNat.toUInt8) := by
  have hclass : (fun d => decide (d = c)) = asciiClass fun b => decide (b = c.toNat.toUInt8) := by
    funext d
    rw [Bool.eq_iff_iff]
    simp [asciiClass, ← UInt8.toNat_inj, ← Char.toNat_inj]
    omega
  rw [hclass]
  apply keepsMarks_utf8
  intro b hb
  simp [← UInt8.toNat_inj]
  omega

theorem entry_nil : entry [] = none := rfl

theorem entry_eq_none {raw : List Char} : entry raw = none ↔ isComment (strip raw) = true := by
  unfold entry
  split_ifs with h
  · exact iff_of_true rfl h
  · exact iff_of_false nofun h

theorem isComment_eq {line : List Char} :
    isComment line = true ↔ line.head? = none ∨ line.head? = some '#' := by
  simp [isComment]

/-- White space before a line does not change its record. -/
theorem entry_cons_space {c : Char} (h : isSpace c = true) (raw : List Char) :
    entry (c :: raw) = entry raw := by
  have hstrip : strip (c :: raw) = strip raw := by
    unfold strip Text.strip
    rw [List.dropWhile_cons_of_pos h]
  have hsplit : split (c :: raw) = split raw := Text.words_cons_mark h raw
  unfold entry
  rw [hstrip, hsplit]

theorem hostEntries_cons_space {c : Char} (h : isSpace c = true) (line : List Char) :
    hostEntries (c :: line) = hostEntries line := by
  unfold hostEntries
  cases hb : isLineBreak c with
  | true => rw [Text.splitOnP_cons_of_pos _ hb, List.filterMap_cons_none entry_nil]
  | false =>
    obtain ⟨piece, pieces, hs⟩ := List.exists_cons_of_ne_nil (List.splitOnP_ne_nil isLineBreak line)
    rw [Text.splitOnP_cons_of_neg _ hb, hs, List.modifyHead_cons, List.filterMap_cons,
      List.filterMap_cons, entry_cons_space h]

theorem hostEntries_dropWhile (line : List Char) :
    hostEntries (line.dropWhile isShellSpace) = hostEntries line := by
  induction line with
  | nil => rfl
  | cons c line ih =>
    cases hc : isShellSpace c with
    | true =>
      rw [List.dropWhile_cons_of_pos hc, ih,
        hostEntries_cons_space (isSpace_of_isShellSpace hc)]
    | false => rw [List.dropWhile_cons_of_neg (by simp [hc])]

/-- A line that starts with neither white space nor a comment has a record. -/
theorem hostEntries_ne_nil {c : Char} (hspace : isSpace c = false) (hc : c ≠ '#')
    (line : List Char) : hostEntries (c :: line) ≠ [] := by
  have hb : isLineBreak c = false := by
    by_contra h
    rw [isSpace_of_isLineBreak (by simpa using h)] at hspace
    cases hspace
  obtain ⟨piece, pieces, hs⟩ := List.exists_cons_of_ne_nil (List.splitOnP_ne_nil isLineBreak line)
  have hentry : entry (c :: piece) = some (split (c :: piece)) := by
    unfold entry
    rw [if_neg]
    rw [isComment_eq, strip, Text.head?_strip, List.dropWhile_cons_of_neg (by simp [hspace])]
    simp [hc]
  unfold hostEntries
  rw [Text.splitOnP_cons_of_neg _ hb, hs, List.modifyHead_cons, List.filterMap_cons_some hentry]
  exact List.cons_ne_nil _ _

theorem hostEntries_eq_nil {line : List Char} :
    hostEntries line = [] ↔ ∀ raw ∈ splitlines line, isComment (strip raw) = true := by
  unfold hostEntries
  rw [← filterMap_splitlines entry_nil, List.filterMap_eq_nil_iff]
  exact forall₂_congr fun raw _ => entry_eq_none

theorem isNotNul_of_isSpace {c : Char} (h : isSpace c = true) : isNotNul c = true := by
  by_contra hno
  have hc : c = '\x00' := by simpa [isNotNul] using hno
  rw [hc] at h
  exact absurd h (by decide)

/-- NUL characters occur in comments only, so that no record changes without them. -/
theorem entry_filter {raw : List Char}
    (h : ∀ fields, entry raw = some fields → ∀ field ∈ fields, '\x00' ∉ field) :
    entry (raw.filter isNotNul) = entry raw := by
  have hnul : isSpace '\x00' = false := by decide
  by_cases hmem : '\x00' ∈ raw
  · cases hentry : entry raw with
    | some fields =>
      -- the NUL character would be part of a field
      have hfields : fields = split raw := by
        unfold entry at hentry
        split_ifs at hentry
        exact (Option.some.inj hentry).symm
      obtain ⟨field, hfield, hin⟩ := Text.exists_word hmem hnul
      have hin' : field ∈ fields := by
        rw [hfields]
        exact hfield
      exact absurd hin (h fields hentry field hin')
    | none =>
      rw [entry_eq_none, isComment_eq, strip, Text.head?_strip] at hentry
      rw [entry_eq_none, isComment_eq, strip, Text.head?_strip]
      rcases hentry with hnone | hhash
      · rw [List.head?_eq_none_iff, List.dropWhile_eq_nil_iff] at hnone
        rw [hnone _ hmem] at hnul
        cases hnul
      · right
        exact Text.head?_dropWhile_filter (fun c hc => isNotNul_of_isSpace hc) hhash (by decide)
  · have hself : raw.filter isNotNul = raw := by
      rw [List.filter_eq_self]
      intro c hc
      simp only [isNotNul, ne_eq, decide_not, Bool.not_eq_true', decide_eq_false_iff_not]
      intro he
      exact hmem (he ▸ hc)
    rw [hself]

/-- The records of an accepted text, line by line as the shell reads it. -/
theorem entries_eq {text : List Char}
    (h : ∀ fields ∈ (splitlines text).filterMap entry, ∀ field ∈ fields, '\x00' ∉ field) :
    (splitlines text).filterMap entry = (shellLines text).flatMap hostEntries := by
  have hbreak : ∀ c, isLineBreak c = true → isNotNul c = true := fun c hc =>
    isNotNul_of_isSpace (isSpace_of_isLineBreak hc)
  have hnewline : ∀ c : Char, decide (c = '\n') = true → isLineBreak c = true := by
    intro c hc
    rw [of_decide_eq_true hc]
    decide
  rw [filterMap_splitlines entry_nil] at h ⊢
  have hsame : (text.splitOnP isLineBreak).filterMap entry =
      ((text.filter isNotNul).splitOnP isLineBreak).filterMap entry := by
    rw [Text.splitOnP_filter hbreak, List.filterMap_map]
    apply List.filterMap_congr
    intro raw hraw
    rw [Function.comp_apply, entry_filter]
    intro fields hfields
    exact h fields (List.mem_filterMap.mpr ⟨raw, hraw, hfields⟩)
  rw [hsame, Text.splitOnP_splitOnP hnewline, List.filterMap_flatMap]
  rfl

theorem isComment_utf8 (rest : List Char) :
    RunAgentws.isComment (utf8 rest) = isComment rest := by
  cases rest with
  | nil => rfl
  | cons c rest =>
    have hhead : (utf8 (c :: rest)).head? = (String.utf8EncodeChar c).head? := by
      rcases utf8EncodeChar_cases c with ⟨-, hc⟩ | ⟨-, hc, -⟩
      · simp [utf8, hc]
      · obtain ⟨b, bytes, hb⟩ := List.exists_cons_of_ne_nil hc
        simp [utf8, hb]
    have hne : utf8 (c :: rest) ≠ [] := by
      intro h
      rw [h] at hhead
      rcases utf8EncodeChar_cases c with ⟨-, hc⟩ | ⟨-, hc, -⟩
      · simp [hc] at hhead
      · exact hc (List.head?_eq_none_iff.mp hhead.symm)
    rw [Bool.eq_iff_iff]
    unfold RunAgentws.isComment isComment
    simp only [hne, hhead, Bool.or_eq_true, decide_eq_true_eq, List.head?_cons, reduceCtorEq,
      false_or, Option.some.injEq]
    rcases utf8EncodeChar_cases c with ⟨hsmall, hc⟩ | ⟨hlarge, hc, hbytes⟩
    · rw [hc, List.head?_cons, Option.some.injEq, ← UInt8.toNat_inj, ← Char.toNat_inj]
      simp
      omega
    · obtain ⟨b, bytes, hb⟩ := List.exists_cons_of_ne_nil hc
      have hb' := hbytes b (by simp [hb])
      rw [hb, List.head?_cons, Option.some.injEq, ← UInt8.toNat_inj, ← Char.toNat_inj]
      simp
      omega

theorem stripped_utf8 (line : List Char) :
    RunAgentws.stripped (utf8 line) = utf8 (line.dropWhile isShellSpace) :=
  keepsMarks_isSpace.dropWhile line

/-- The records of the shell, as the words of the text. -/
theorem described_eq (directory : Shell.Directory order) (text : List Char) :
    RunAgentws.described directory (RunAgentws.readLines (utf8 text)) =
      ((shellLines text).filterMap shellEntry).map fun ws =>
        RunAgentws.workerOf ((ws.map utf8).flatMap (directory.expand)) := by
  have hnul : (utf8 text).filter (fun b => !RunAgentws.isNul b) = utf8 (text.filter isNotNul) := by
    have hfun : isNotNul = fun c => !decide (c = '\x00') := by
      funext c
      simp [isNotNul]
    rw [hfun]
    exact (keepsMarks_char '\x00' (by decide)).filter_not text
  have hlines : (utf8 (text.filter isNotNul)).splitOnP RunAgentws.isNewline =
      (shellLines text).map utf8 :=
    (keepsMarks_char '\n' (by decide)).splitOnP (text.filter isNotNul)
  rw [RunAgentws.described_readLines, hnul, hlines]
  unfold RunAgentws.described
  rw [List.filterMap_map, List.map_filterMap, List.map_filterMap]
  apply List.filterMap_congr
  intro line hline
  unfold RunAgentws.record shellEntry
  rw [Function.comp_apply, stripped_utf8, isComment_utf8]
  dsimp only
  split_ifs
  · rfl
  · have hwords := keepsMarks_isFieldSeparator.words (line.dropWhile isShellSpace)
    simp only [Option.map_some, RunAgentws.fields]
    change some (RunAgentws.workerOf ((Text.words RunAgentws.isFieldSeparator
      ((line.dropWhile isShellSpace).flatMap String.utf8EncodeChar)).flatMap _)) = _
    rw [hwords]
    rfl

theorem isSpace_of_separator {c : Char}
    (h : asciiClass RunAgentws.isFieldSeparator c = true) : isSpace c = true := by
  simp [asciiClass, RunAgentws.isFieldSeparator, ← UInt8.toNat_inj] at h
  simp [isSpace]
  omega

/-- Where spaces and tabs are the only white space, host and shell see the same words. -/
theorem words_eq_split {rest : List Char} (h : ∀ c ∈ rest, isSpace c = true → c = ' ' ∨ c = '\t') :
    Text.words (asciiClass RunAgentws.isFieldSeparator) rest = split rest := by
  apply Text.words_congr
  intro c hc
  cases hs : isSpace c with
  | true => rcases h c hc hs with rfl | rfl <;> decide
  | false =>
    by_contra hsep
    rw [isSpace_of_separator (by simpa using hsep)] at hs
    cases hs

theorem hostEntries_of_plain {line : List Char} (h : Plain order line) :
    hostEntries line = (shellEntry line).toList := by
  unfold Plain at h
  unfold shellEntry
  rw [← hostEntries_dropWhile line]
  dsimp only at h ⊢
  generalize hrest : line.dropWhile isShellSpace = rest at h ⊢
  split_ifs at h ⊢ with hcomment
  · exact hostEntries_eq_nil.mpr h
  · have hbreak : ∀ c ∈ rest, isLineBreak c = false := by
      intro c hc
      by_contra hb
      rw [Bool.not_eq_false] at hb
      rcases h.1 c hc (isSpace_of_isLineBreak hb) with rfl | rfl <;> exact absurd hb (by decide)
    have hhead : ∀ c ∈ rest.head?, isSpace c = false := by
      intro c hc
      by_contra hs
      rw [Bool.not_eq_false] at hs
      have hno := List.head?_dropWhile_not isShellSpace line
      rw [hrest, hc] at hno
      rcases h.1 c (List.mem_of_mem_head? hc) hs with rfl | rfl <;> exact absurd hno (by decide)
    have hentry : entry rest = some (split rest) := by
      unfold entry
      rw [if_neg]
      have hdrop : rest.dropWhile isSpace = rest := by
        cases rest with
        | nil => rfl
        | cons c rest => rw [List.dropWhile_cons_of_neg (by simp [hhead c (by simp)])]
      rw [isComment_eq, strip, Text.head?_strip, hdrop, ← isComment_eq]
      exact hcomment
    unfold hostEntries
    rw [List.splitOnP_eq_singleton hbreak, List.filterMap_cons_some hentry, List.filterMap_nil,
      words_eq_split h.1]
    rfl

/-- A line with the same records for both is plain, when no field stands for other names. -/
theorem plain_of_hostEntries {line : List Char} (hline : '\n' ∉ line)
    (h : hostEntries line = (shellEntry line).toList)
    (hfields : ∀ ws, shellEntry line = some ws → ∀ w ∈ ws,
      (∀ c ∈ w, isSpace c = false) ∧ Inert order (utf8 w)) : Plain order line := by
  rw [← hostEntries_dropWhile line] at h
  unfold shellEntry at h hfields
  unfold Plain
  dsimp only at h hfields ⊢
  have hnewline : '\n' ∉ line.dropWhile isShellSpace := fun hmem =>
    hline ((List.dropWhile_sublist isShellSpace).subset hmem)
  generalize line.dropWhile isShellSpace = rest at h hfields hnewline ⊢
  split_ifs at h hfields ⊢ with hcomment
  · exact hostEntries_eq_nil.mp h
  · have hspaces : ∀ c ∈ rest, isSpace c = true → c = ' ' ∨ c = '\t' := by
      intro c hc hs
      cases hsep : asciiClass RunAgentws.isFieldSeparator c with
      | false =>
        obtain ⟨w, hw, hin⟩ := Text.exists_word hc hsep
        rw [((hfields _ rfl w hw).1 c hin)] at hs
        cases hs
      | true =>
        have hne : c.toNat ≠ 0x0a := fun he =>
          hnewline ((Char.toNat_inj.mp he : c = '\n') ▸ hc)
        have hn : c.toNat = 0x20 ∨ c.toNat = 0x09 := by
          simp [asciiClass, RunAgentws.isFieldSeparator, ← UInt8.toNat_inj] at hsep
          omega
        exact hn.imp Char.toNat_inj.mp Char.toNat_inj.mp
    refine ⟨hspaces, fun field hfield => ?_⟩
    rw [← words_eq_split hspaces] at hfield
    exact (hfields _ rfl field hfield).2

/-- The characters of a name are bytes that the shell lets pass in a name. -/
theorem name_byte {c : Char} (h : (isAlphanumeric c || c = '.' || c = '_' || c = '-') = true) :
    String.utf8EncodeChar c = [c.toNat.toUInt8] ∧
      (RunAgentws.isAlphanumeric c.toNat.toUInt8 = isAlphanumeric c) ∧
      (RunAgentws.isAlphanumeric c.toNat.toUInt8 || c.toNat.toUInt8 = 0x2e ||
        c.toNat.toUInt8 = 0x5f || c.toNat.toUInt8 = 0x2d) = true := by
  simp only [isAlphanumeric, Char.le_def, UInt32.le_iff_toNat_le, ← Char.toNat_inj,
    Bool.or_eq_true, Bool.and_eq_true, decide_eq_true_eq] at h
  simp only [Char.toNat_val] at h
  have hsmall : c.toNat < 0x80 := by
    simp at h
    omega
  rcases utf8EncodeChar_cases c with ⟨-, hbytes⟩ | ⟨hlarge, -, -⟩
  · have hn : c.toNat.toUInt8.toNat = c.toNat := by
      rw [Nat.toUInt8_eq, UInt8.toNat_ofNat']
      omega
    refine ⟨hbytes, ?_, ?_⟩
    · rw [Bool.eq_iff_iff]
      simp only [RunAgentws.isAlphanumeric, isAlphanumeric, Char.le_def, UInt32.le_iff_toNat_le,
        UInt8.le_iff_toNat_le, hn, Bool.or_eq_true, Bool.and_eq_true, decide_eq_true_eq]
      rfl
    · simp only [RunAgentws.isAlphanumeric, UInt8.le_iff_toNat_le, ← UInt8.toNat_inj, hn,
        Bool.or_eq_true, Bool.and_eq_true, decide_eq_true_eq]
      simp at h ⊢
      omega
  · omega

theorem matchesName_utf8 {name : List Char} (h : matchesName name = true) :
    RunAgentws.matchesName (utf8 name) = true := by
  cases name with
  | nil => cases h
  | cons c rest =>
    rw [matchesName, Bool.and_eq_true] at h
    have hc := name_byte (c := c) (by simp [h.1])
    have hrest : (utf8 rest).all (fun b => RunAgentws.isAlphanumeric b || b = 0x2e || b = 0x5f ||
        b = 0x2d) = true := by
      unfold utf8
      rw [List.all_flatMap, List.all_eq_true]
      intro d hd
      have hbyte := name_byte (List.all_eq_true.mp h.2 d hd)
      rw [hbyte.1, List.all_cons, List.all_nil, Bool.and_true]
      exact hbyte.2.2
    have hcons : utf8 (c :: rest) = c.toNat.toUInt8 :: utf8 rest := by
      simp [utf8, hc.1]
    rw [hcons, RunAgentws.matchesName, hc.2.1, h.1, List.all_cons, hrest, Bool.true_and,
      Bool.and_true]
    exact hc.2.2

theorem valid_worker {roleNames : List (List Char)} {roleFiles : List Word}
    {agent : Agent} (h : agent.Valid roleNames)
    (hrole : utf8 (roleFile agent.role) ∈ roleFiles) : agent.worker.Valid roleFiles where
  name := matchesName_utf8 h.name
  role := matchesName_utf8 h.role
  roleFile := by
    have hfile : RunAgentws.roleFile (utf8 agent.role) = utf8 (roleFile agent.role) := by
      unfold RunAgentws.roleFile roleFile utf8
      rw [List.flatMap_append]
      congr 1
    rw [← hfile] at hrole
    exact hrole
  agent := by
    have hall : ∀ engine ∈ supportedEngines, utf8 engine ∈ RunAgentws.knownAgents := by
      decide +kernel
    exact hall agent.engine h.engine

theorem worker_model_ne_nil {agent : Agent} (h : agent.model ≠ []) : agent.worker.model ≠ [] := by
  intro hnil
  have hutf8 : utf8 agent.model = utf8 [] := hnil
  exact h (utf8_injective hutf8)

/-- Words that describe the worker of an agent are the agent's fields. -/
theorem workerOf_utf8 {agent : Agent} (h : agent.model ≠ []) (ws : List (List Char)) :
    RunAgentws.workerOf (ws.map utf8) = some agent.worker ↔ ws = agent.fields := by
  constructor
  · intro hworker
    have hfields := RunAgentws.fields_of_workerOf hworker (worker_model_ne_nil h)
    exact List.map_injective_iff.mpr (fun _ _ => utf8_injective) hfields
  · intro hws
    rw [hws]
    rfl

theorem model_ne_nil {roleNames : List (List Char)} {agent : Agent} (h : agent.Valid roleNames) :
    agent.model ≠ [] := by
  intro hnil
  have hmodel := h.model
  rw [hnil] at hmodel
  cases hmodel

theorem inert_of_plain {line : List Char} {ws : List (List Char)} (h : Plain order line)
    (hws : shellEntry line = some ws) : ∀ w ∈ ws, Inert order (utf8 w) := by
  unfold Plain at h
  unfold shellEntry at hws
  dsimp only at h hws
  split_ifs at h hws with hcomment
  cases hws
  rw [words_eq_split h.1]
  exact h.2

section
variable {roleNames : List (List Char)} {agents : List Agent} {text : List Char}

/-- Whatever file names there are, the records of plain lines describe the agents. -/
theorem described_of_plain (directory : Shell.Directory order)
    (hvalid : ∀ agent ∈ agents, agent.Valid roleNames)
    (hentries : (shellLines text).flatMap hostEntries = agents.map Agent.fields)
    (hplain : ∀ line ∈ shellLines text, Plain order line) :
    RunAgentws.described directory (RunAgentws.readLines (utf8 text)) =
      (agents.map Agent.worker).map some := by
  have hrecords : (shellLines text).filterMap shellEntry = agents.map Agent.fields := by
    rw [← hentries, List.filterMap_eq_flatMap_toList]
    exact List.flatMap_congr fun line hline => (hostEntries_of_plain (hplain line hline)).symm
  rw [described_eq, hrecords, List.map_map, List.map_map]
  apply List.map_congr_left
  intro agent hagent
  have hpattern : ∀ w ∈ agent.fields.map utf8, directory.expand w = [w] := by
    have hmem : agent.fields ∈ (shellLines text).filterMap shellEntry := by
      rw [hrecords]
      exact List.mem_map_of_mem hagent
    obtain ⟨line, hline, hws⟩ := List.mem_filterMap.mp hmem
    intro w hw
    obtain ⟨field, hfield, rfl⟩ := List.mem_map.mp hw
    exact inert_iff.mp (inert_of_plain (hplain line hline) hws field hfield) directory
  have hexpand : (agent.fields.map utf8).flatMap (directory.expand) =
      agent.fields.map utf8 := by
    rw [List.flatMap_congr hpattern, List.flatMap_singleton']
  rw [Function.comp_apply, Function.comp_apply, hexpand]
  exact (workerOf_utf8 (model_ne_nil (hvalid agent hagent)) _).mpr rfl

/-- A record of the shell, made of words, starts a record of the host. -/
theorem hostEntries_of_shellEntry {line : List Char} {ws : List (List Char)}
    (hws : shellEntry line = some ws) (hspace : ∀ w ∈ ws, ∀ c ∈ w, isSpace c = false) :
    hostEntries line ≠ [] := by
  rw [← hostEntries_dropWhile line]
  have hhead := List.head?_dropWhile_not isShellSpace line
  unfold shellEntry at hws
  dsimp only at hws
  generalize line.dropWhile isShellSpace = rest at hws hhead ⊢
  split_ifs at hws with hcomment
  cases hws
  rw [isComment_eq, not_or] at hcomment
  cases rest with
  | nil => exact absurd rfl hcomment.1
  | cons c rest =>
    have hsep : asciiClass RunAgentws.isFieldSeparator c = false := by
      by_contra hsep
      rw [Bool.not_eq_false] at hsep
      have hno : isShellSpace c = false := hhead
      simp [asciiClass, RunAgentws.isFieldSeparator, ← UInt8.toNat_inj] at hsep
      simp [isShellSpace, asciiClass, RunAgentws.isSpace, UInt8.le_iff_toNat_le,
        ← UInt8.toNat_inj] at hno
      omega
    obtain ⟨w, hw, hin⟩ := Text.exists_word List.mem_cons_self hsep
    exact hostEntries_ne_nil (hspace w hw c hin) (fun he => hcomment.2 (by rw [he]; rfl)) rest

/-- If the agents are launched whatever file names there are, every line is plain. -/
theorem plain_of_described (hvalid : ∀ agent ∈ agents, agent.Valid roleNames)
    (hentries : (shellLines text).flatMap hostEntries = agents.map Agent.fields)
    (hfields : ∀ agent ∈ agents, ∀ field ∈ agent.fields, ∀ c ∈ field, isSpace c = false)
    (h : ∀ directory : Shell.Directory order, RunAgentws.described directory
      (RunAgentws.readLines (utf8 text)) =
      (agents.map Agent.worker).map some) : ∀ line ∈ shellLines text, Plain order line := by
  -- where no file matches, the words are the agents' fields
  have hrecords : (shellLines text).filterMap shellEntry = agents.map Agent.fields := by
    have hnone := h .empty
    rw [described_eq, List.map_map] at hnone
    have hexpand : ∀ ws : List (List Char),
        (ws.map utf8).flatMap (Shell.Directory.empty : Shell.Directory order).expand =
          ws.map utf8 := by
      intro ws
      rw [List.flatMap_congr (fun w _ => Shell.Directory.expand_empty w), List.flatMap_singleton']
    simp only [hexpand] at hnone
    clear h hentries hfields
    revert hnone hvalid
    generalize (shellLines text).filterMap shellEntry = records
    intro hvalid hnone
    induction records generalizing agents with
    | nil =>
      rw [List.map_nil, eq_comm, List.map_eq_nil_iff] at hnone
      rw [hnone]
      rfl
    | cons ws records ih =>
      cases agents with
      | nil => cases hnone
      | cons agent agents =>
        rw [List.forall_mem_cons] at hvalid
        rw [List.map_cons, List.map_cons, List.cons.injEq, Function.comp_apply] at hnone
        rw [List.map_cons, (workerOf_utf8 (model_ne_nil hvalid.1) ws).mp hnone.1,
          ih hvalid.2 hnone.2]
  have hwords : ∀ ws, ws ∈ (shellLines text).filterMap shellEntry →
      ∃ agent ∈ agents, agent.fields = ws := by
    intro ws hws
    rw [hrecords] at hws
    exact List.mem_map.mp hws
  have hcount : ∀ line ∈ shellLines text,
      (shellEntry line).toList.length ≤ (hostEntries line).length := by
    intro line hline
    cases hws : shellEntry line with
    | none => exact Nat.zero_le _
    | some ws =>
      obtain ⟨agent, hagent, rfl⟩ := hwords ws (List.mem_filterMap.mpr ⟨line, hline, hws⟩)
      have hne := hostEntries_of_shellEntry hws (hfields agent hagent)
      exact List.length_pos_iff.mpr hne
  have hsame : ∀ line ∈ shellLines text, (shellEntry line).toList = hostEntries line := by
    apply Text.flatMap_eq hcount
    rw [← List.filterMap_eq_flatMap_toList, hrecords, hentries]
  intro line hline
  have hnewline : '\n' ∉ line := fun hmem =>
    absurd (Text.mem_splitOnP hline '\n' hmem) (by decide)
  apply plain_of_hostEntries hnewline (hsame line hline).symm
  intro ws hws w hw
  have hmem : ws ∈ (shellLines text).filterMap shellEntry :=
    List.mem_filterMap.mpr ⟨line, hline, hws⟩
  obtain ⟨agent, hagent, rfl⟩ := hwords ws hmem
  refine ⟨hfields agent hagent w hw, inert_iff.mpr fun directory => ?_⟩
  have hdescribed := h directory
  rw [described_eq, hrecords, List.map_map, List.map_map] at hdescribed
  have hworker := List.map_inj_left.mp hdescribed agent hagent
  have hmodel := worker_model_ne_nil (model_ne_nil (hvalid agent hagent))
  exact RunAgentws.expand_of_workerOf rfl hmodel hworker (utf8 w) (List.mem_map_of_mem hw)

end

theorem nul_not_mem_name {name : List Char} (h : matchesName name = true) : '\x00' ∉ name := by
  intro hmem
  cases name with
  | nil => cases hmem
  | cons c rest =>
    rw [matchesName, Bool.and_eq_true] at h
    rcases List.mem_cons.mp hmem with rfl | hmem
    · exact absurd h.1 (by decide)
    · exact absurd (List.all_eq_true.mp h.2 _ hmem) (by decide)

theorem nul_not_mem_field {roleNames : List (List Char)} {agent : Agent}
    (h : agent.Valid roleNames) : ∀ field ∈ agent.fields, '\x00' ∉ field := by
  have hengine : ∀ engine ∈ supportedEngines, '\x00' ∉ engine := by decide
  have hmodel : '\x00' ∉ agent.model := by
    intro hmem
    obtain ⟨parts, hparts⟩ := Option.isSome_iff_exists.mp h.model
    exact absurd (ModelIds.control_not_mem hparts _ (List.mem_map_of_mem hmem)) (by decide)
  simp only [Agent.fields, List.forall_mem_cons]
  exact ⟨nul_not_mem_name h.name, nul_not_mem_name h.role, hengine _ h.engine, hmodel,
    List.forall_mem_nil _⟩

/-- For an accepted roster whose role files are present, the container launches the agents of the
host, whatever files its working directory holds, exactly if every line is plain. -/
theorem roster_agreement {roleNames : List (List Char)} {content : List UInt8}
    {agents : List Agent} {roleFiles : List Word}
    (h : parseRoster roleNames content = .ok agents)
    (hroles : ∀ agent ∈ agents, utf8 (roleFile agent.role) ∈ roleFiles) :
    (∀ directory : Shell.Directory order, RunAgentws.run roleFiles directory content =
      .ok (agents.map Agent.worker)) ↔ ∀ text, decode content = some text →
      ∀ line ∈ shellLines text, Plain order line := by
  obtain ⟨text, htext, hentries, hvalid, hnames, hne⟩ := parseRoster_eq_ok h
  have hcontent := decode_eq_some.mp htext
  have hfields : ∀ agent ∈ agents, ∀ field ∈ agent.fields, ∀ c ∈ field, isSpace c = false := by
    intro agent hagent field hfield c hc
    have hmem : agent.fields ∈ (splitlines text).filterMap entry := by
      rw [hentries]
      exact List.mem_map_of_mem hagent
    obtain ⟨raw, -, hraw⟩ := List.mem_filterMap.mp hmem
    unfold entry at hraw
    split_ifs at hraw
    rw [← Option.some.inj hraw] at hfield
    exact (Text.mem_words hfield hc).2
  have hrecords : (shellLines text).flatMap hostEntries = agents.map Agent.fields := by
    rw [← hentries]
    refine (entries_eq fun fields hmem => ?_).symm
    rw [hentries] at hmem
    obtain ⟨agent, hagent, rfl⟩ := List.mem_map.mp hmem
    exact nul_not_mem_field (hvalid agent hagent)
  have hworkers : ∀ worker ∈ agents.map Agent.worker, worker.Valid roleFiles := by
    intro worker hworker
    obtain ⟨agent, hagent, rfl⟩ := List.mem_map.mp hworker
    exact valid_worker (hvalid agent hagent) (hroles agent hagent)
  have hnodup : ((agents.map Agent.worker).map RunAgentws.Worker.name).Nodup := by
    have hmap := hnames.map (fun _ _ => utf8_injective)
    rw [List.map_map] at hmap ⊢
    exact hmap
  have hsome : agents.map Agent.worker ≠ [] := by simpa using hne
  have hrun : ∀ directory : Shell.Directory order, RunAgentws.run roleFiles directory content =
      .ok (agents.map Agent.worker) ↔ RunAgentws.described directory
        (RunAgentws.readLines (utf8 text)) = (agents.map Agent.worker).map some := by
    intro directory
    rw [hcontent]
    exact RunAgentws.run_eq_ok hworkers hnodup hsome
  constructor
  · intro hall text' htext'
    rw [htext] at htext'
    cases htext'
    exact plain_of_described hvalid hrecords hfields fun directory =>
      (hrun directory).mp (hall directory)
  · intro hplain directory
    exact (hrun directory).mpr (described_of_plain directory hvalid hrecords (hplain text htext))

/-- One planner and its role file. -/
def plannerRoster : List UInt8 := utf8 "planner-1 planner pi work/m\n".toList

theorem roster_agreement_planner :
    (∀ directory : Shell.Directory signed,
      RunAgentws.run [utf8 "planner.md".toList] directory plannerRoster =
        .ok [⟨utf8 "planner-1".toList, utf8 "planner".toList, utf8 "pi".toList,
          utf8 "work/m".toList⟩]) ↔
      ∀ text, decode plannerRoster = some text → ∀ line ∈ shellLines text, Plain signed line := by
  have hparse : parseRoster ["planner.md".toList] plannerRoster =
      .ok [⟨"planner-1".toList, "planner".toList, "pi".toList, "work/m".toList⟩] := by
    decide +kernel
  exact roster_agreement hparse (by decide +kernel)

/-- The same roster with the line ending of another system. -/
def carriageRoster : List UInt8 := utf8 "planner-1 planner pi work/m\r\n".toList

/-- The host drops the carriage return, the shell makes it part of the model. -/
theorem roster_carriage_return :
    ¬ ∀ (order : UInt8 → UInt8 → Bool) (roleNames : List (List Char)) (content : List UInt8)
      (agents : List Agent) (roleFiles : List Word) (directory : Shell.Directory order),
      parseRoster roleNames content = .ok agents →
      (∀ agent ∈ agents, utf8 (roleFile agent.role) ∈ roleFiles) →
      RunAgentws.run roleFiles directory content = .ok (agents.map Agent.worker) := by
  intro h
  have hparse : parseRoster ["planner.md".toList] carriageRoster =
      .ok [⟨"planner-1".toList, "planner".toList, "pi".toList, "work/m".toList⟩] := by
    decide +kernel
  have hrun := h signed _ _ _ [utf8 "planner.md".toList] .empty hparse (by decide +kernel)
  exact absurd hrun (by decide +kernel)

end Cyclo.Team
