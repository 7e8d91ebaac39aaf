import Cyclo.Project.Reading
import Cyclo.Project.Rendering

/-! A rendered project definition is read back: the same name, description, context and mode, and
the mounts at their container paths. -/
namespace Cyclo.Project
open Python

variable {host : Host} {source : PurePath} {parsed : Parsed} {lineNo : ℕ}

/-- The characters of names and of container paths are visible ones that need no quoting. -/
theorem code_of_nameChar {c : Char} (h : (isLower c || isDigit c || isPunctuation c) = true) :
    45 ≤ c.toNat ∧ c.toNat ≤ 122 ∧ c.toNat ≠ 47 ∧ c.toNat ≠ 92 := by
  simp only [isLower, isDigit, isPunctuation, Bool.or_eq_true, Bool.and_eq_true, decide_eq_true_eq,
    Char.le_def, UInt32.le_iff_toNat_le] at h
  rcases h with (⟨hlo, hhi⟩ | ⟨hlo, hhi⟩) | (rfl | rfl) | rfl
  · change 97 ≤ c.toNat at hlo
    change c.toNat ≤ 122 at hhi
    omega
  · change 48 ≤ c.toNat at hlo
    change c.toNat ≤ 57 at hhi
    omega
  all_goals decide

theorem nameChars {name : List Char} (h : matchesProjectName name = true) :
    ∀ c ∈ name, 45 ≤ c.toNat ∧ c.toNat ≤ 122 ∧ c.toNat ≠ 47 ∧ c.toNat ≠ 92 := by
  intro c hc
  cases name with
  | nil => cases hc
  | cons d name =>
    rw [matchesProjectName, Bool.and_eq_true, Bool.and_eq_true, List.all_eq_true] at h
    apply code_of_nameChar
    rcases List.mem_cons.mp hc with rfl | hc
    · rw [h.1.1, Bool.true_or]
    · exact h.2 c hc

theorem isSpace_of_visible {c : Char} (hlo : 33 ≤ c.toNat) (hhi : c.toNat ≤ 126) :
    isSpace c = false := by
  simp only [isSpace, Bool.or_eq_false_iff, Bool.and_eq_false_iff, decide_eq_false_iff_not]
  omega

theorem isControl_of_visible {c : Char} (hlo : 33 ≤ c.toNat) (hhi : c.toNat ≤ 126) :
    isControl c = false := by
  simp only [isControl, Bool.or_eq_false_iff, decide_eq_false_iff_not]
  omega

theorem isWord_name {name : List Char} (h : matchesProjectName name = true) : IsWord name := by
  constructor
  · rintro rfl
    cases h
  · intro c hc
    obtain ⟨hlo, hhi, -⟩ := nameChars h c hc
    exact isSpace_of_visible (by omega) (by omega)

/-- What a container path is written as, up to the name. -/
def containerRoot : AccessMode → String
  | .rw => "workspace"
  | .ro => "readonly"

theorem mountContainerPath_eq (name : List Char) (mode : AccessMode) :
    mountContainerPath name mode = ⟨"/", [containerRoot mode, String.ofList name]⟩ := by
  cases mode <;> rfl

theorem text_containerPath (name : List Char) (mode : AccessMode) :
    (mountContainerPath name mode).text.toList =
      '/' :: (containerRoot mode).toList ++ '/' :: name := by
  rw [mountContainerPath_eq]
  unfold PurePath.text
  have hjoin : "/" ++ String.intercalate "/" [containerRoot mode, String.ofList name] =
      "/" ++ (containerRoot mode ++ "/" ++ String.ofList name) := rfl
  dsimp only
  rw [hjoin, if_neg]
  · simp
  · intro he
    have hlist := congrArg String.toList he
    simp at hlist

/-- The text of a container path is read as that path again. -/
theorem ofText_containerPath {name : List Char} {mode : AccessMode} (hne : name ≠ [])
    (hdot : name ≠ ['.']) (hslash : '/' ∉ name) :
    PurePath.ofText (String.ofList ('/' :: (containerRoot mode).toList ++ '/' :: name)) =
      mountContainerPath name mode := by
  set value := '/' :: (containerRoot mode).toList ++ '/' :: name with hvalue
  have hroot : '/' ∉ (containerRoot mode).toList := by cases mode <;> decide
  have hparts : value.splitOn '/' = [[], (containerRoot mode).toList, name] := by
    rw [hvalue, List.splitOn_eq_splitOnP, List.cons_append]
    have hname : ∀ c ∈ name, (c == '/') = false := fun c hc =>
      beq_eq_false_iff_ne.mpr fun he => hslash (he ▸ hc)
    have htop : ∀ c ∈ (containerRoot mode).toList, (c == '/') = false := fun c hc =>
      beq_eq_false_iff_ne.mpr fun he => hroot (he ▸ hc)
    rw [Text.splitOnP_cons_of_pos _ (by decide),
      List.splitOnP_append_cons_of_forall_mem htop _ (by decide), List.splitOnP_eq_singleton hname]
  have hdouble : (String.ofList value).startsWith "//" = false := by
    rw [Bool.eq_false_iff, ne_eq, String.startsWith_string_iff, String.toList_ofList, hvalue]
    cases mode <;> simp [containerRoot]
  have hsingle : (String.ofList value).startsWith "/" = true := by
    rw [String.startsWith_string_iff, String.toList_ofList, hvalue]
    simp
  have hkept : (String.ofList name ≠ "" ∧ String.ofList name ≠ ".") := by
    constructor <;> intro he <;> have hlist := congrArg String.toList he
    · simp only [String.toList_ofList] at hlist
      exact hne hlist
    · simp only [String.toList_ofList] at hlist
      exact hdot hlist
  unfold PurePath.ofText
  rw [hdouble, hsingle, String.toList_ofList, hparts, mountContainerPath_eq]
  have hroot' : containerRoot mode ≠ "" ∧ containerRoot mode ≠ "." := by cases mode <;> decide
  simp [hkept, hroot']

/-- A path that is read back from its text, and whose text is a token for a path. -/
structure Written (path : PurePath) : Prop where
  read : PurePath.ofText (String.ofList path.text.toList) = path
  absolute : path.isAbsolute = true
  nonempty : path.text.toList ≠ []
  visible : ∀ c ∈ path.text.toList, 45 ≤ c.toNat ∧ c.toNat ≤ 122 ∧ c.toNat ≠ 92

theorem written_teamDirectory : Written teamDirectory := by
  constructor <;> decide +kernel

theorem written_containerPath {name : List Char} (h : matchesProjectName name = true)
    (mode : AccessMode) : Written (mountContainerPath name mode) := by
  have hchars := nameChars h
  have hdots := matchesProjectName_not_dots h
  rw [List.mem_cons, List.mem_singleton, not_or] at hdots
  have hslash : '/' ∉ name := fun hmem => absurd rfl (hchars _ hmem).2.2.1
  have hvisible : ∀ c ∈ '/' :: (containerRoot mode).toList ++ '/' :: name,
      45 ≤ c.toNat ∧ c.toNat ≤ 122 ∧ c.toNat ≠ 92 := by
    rw [List.forall_mem_append, List.forall_mem_cons (a := '/') (l := name)]
    refine ⟨?_, by decide, fun c hc => ?_⟩
    · cases mode <;> decide
    · obtain ⟨hlo, hhi, -, hne⟩ := hchars c hc
      exact ⟨hlo, hhi, hne⟩
  constructor
  · rw [text_containerPath]
    exact ofText_containerPath (isWord_name h).1 hdots.1 hslash
  · rw [mountContainerPath_eq]
    rfl
  · rw [text_containerPath]
    exact List.cons_ne_nil _ _
  · rw [text_containerPath]
    exact hvisible

theorem Written.isWord {path : PurePath} (h : Written path) : IsWord path.text.toList := by
  refine ⟨h.nonempty, fun c hc => ?_⟩
  obtain ⟨hlo, hhi, -⟩ := h.visible c hc
  exact isSpace_of_visible (by omega) (by omega)

/-- Such a path resolves to itself where the directory is what it says. -/
theorem resolveDirectory_written {path : PurePath} {label : String} (h : Written path)
    (hresolve : host.resolve path = some path) (hdirectory : host.isDirectory path = true) :
    resolveDirectory host source path.text.toList lineNo label = .ok path := by
  have hselect : selectPath source path.text.toList = path := by
    unfold selectPath
    rw [h.read]
    exact if_pos h.absolute
  have hcontrol : path.text.toList.any isControl = false := by
    rw [List.any_eq_false]
    intro c hc
    obtain ⟨hlo, hhi, -⟩ := h.visible c hc
    rw [isControl_of_visible (by omega) (by omega)]
    exact Bool.false_ne_true
  have hspace : path.text.toList.any isSpace = false := by
    rw [List.any_eq_false]
    intro c hc
    rw [h.isWord.2 c hc]
    exact Bool.false_ne_true
  have hfree : ∀ c : Char, c.toNat < 45 ∨ 122 < c.toNat ∨ c.toNat = 92 → c ∉ path.text.toList := by
    intro c hc hmem
    obtain ⟨hlo, hhi, hne⟩ := h.visible c hmem
    omega
  have htoken : isPathToken path.text.toList = true := by
    unfold isPathToken
    rw [hspace, hcontrol, decide_eq_true h.nonempty, decide_eq_true (hfree '~' (by decide)),
      decide_eq_true (hfree ',' (by decide)), decide_eq_true (hfree '\'' (by decide)),
      decide_eq_true (hfree '"' (by decide)), decide_eq_true (hfree '\\' (by decide))]
    rfl
  unfold resolveDirectory
  rw [demand_eq_ok.mpr htoken]
  simp only [bind, Except.bind]
  rw [hselect, hresolve]
  dsimp only
  rw [demand_eq_ok.mpr hdirectory, demand_eq_ok.mpr ⟨hfree ',' (by decide), hcontrol⟩]
  rfl

theorem checkOverlaps_eq_ok {earlier roots : List (PurePath × ℕ)}
    (hearlier : ∀ root ∈ roots, ∀ other ∈ earlier, pathsOverlap root.1 other.1 = false)
    (hroots : roots.Pairwise fun other root => pathsOverlap root.1 other.1 = false) :
    checkOverlaps earlier roots = .ok () := by
  induction roots generalizing earlier with
  | nil => rfl
  | cons root roots ih =>
    rw [List.forall_mem_cons] at hearlier
    rw [List.pairwise_cons] at hroots
    have hnone : earlier.find? (fun other => pathsOverlap root.1 other.1) = none := by
      rw [List.find?_eq_none]
      intro other hother
      rw [hearlier.1 other hother]
      exact Bool.false_ne_true
    rw [checkOverlaps, hnone]
    apply ih _ hroots.2
    intro later hlater
    rw [List.forall_mem_append, List.forall_mem_singleton]
    exact ⟨hearlier.2 later hlater, hroots.1 later hlater⟩

theorem containerPath_injective {name name' : List Char} {mode mode' : AccessMode}
    (h : mountContainerPath name mode = mountContainerPath name' mode') : name = name' := by
  rw [mountContainerPath_eq, mountContainerPath_eq] at h
  simp only [PurePath.mk.injEq, List.cons.injEq] at h
  exact String.ofList_injective h.2.2.1

theorem pathsOverlap_containerPath {name name' : List Char} (mode mode' : AccessMode)
    (h : name ≠ name') :
    pathsOverlap (mountContainerPath name mode) (mountContainerPath name' mode') = false := by
  have hne : mountContainerPath name mode ≠ mountContainerPath name' mode' :=
    fun he => h (containerPath_injective he)
  have hname : String.ofList name ≠ String.ofList name' := fun he => h (String.ofList_injective he)
  unfold pathsOverlap
  rw [decide_eq_false hne, mountContainerPath_eq, mountContainerPath_eq]
  simp [PurePath.relativeTo, hname, hname.symm]

theorem pathsOverlap_teamDirectory (name : List Char) (mode : AccessMode) :
    pathsOverlap (mountContainerPath name mode) teamDirectory = false := by
  rw [mountContainerPath_eq]
  cases mode <;> simp [pathsOverlap, PurePath.relativeTo, teamDirectory, containerRoot]

theorem joinLines_append_newline {items : List (List Char)} (h : items ≠ []) :
    joinLines items ++ ['\n'] = items.flatMap (· ++ ['\n']) := by
  obtain ⟨item, items, rfl⟩ := List.exists_cons_of_ne_nil h
  unfold joinLines
  induction items generalizing item with
  | nil => simp
  | cons next items ih =>
    have hrest := ih next (List.cons_ne_nil _ _)
    rw [List.flatMap_cons, ← hrest]
    simp [List.intercalate]

theorem splitOnP_printable {line : List Char} (h : Printable line) :
    line.splitOnP isLineBreak = [line] :=
  List.splitOnP_eq_singleton fun c hc => (h c hc).1

/-- Printable lines are found again in the text that joins them. -/
theorem splitOnP_joinLines {lines : List (List Char)} (hne : lines ≠ [])
    (h : ∀ line ∈ lines, Printable line) : (joinLines lines).splitOnP isLineBreak = lines := by
  have hnewline : isLineBreak '\n' = true := rfl
  obtain ⟨line, lines, rfl⟩ := List.exists_cons_of_ne_nil hne
  unfold joinLines
  induction lines generalizing line with
  | nil =>
    rw [List.intercalate_singleton]
    exact splitOnP_printable (h line List.mem_cons_self)
  | cons next lines ih =>
    rw [List.forall_mem_cons] at h
    have hrest := ih next (List.cons_ne_nil _ _) h.2
    have hcons : ['\n'].intercalate (line :: next :: lines) =
        line ++ '\n' :: ['\n'].intercalate (next :: lines) := by
      simp [List.intercalate]
    rw [hcons, List.splitOnP_append_cons _ _ hnewline, splitOnP_printable h.1, hrest]
    rfl

theorem flatMap_splitOnP_of_no_breaks {items : List (List Char)}
    (h : ∀ item ∈ items, ∀ c ∈ item, isLineBreak c = false) :
    items.flatMap (List.splitOnP isLineBreak) = items := by
  induction items with
  | nil => rfl
  | cons item items ih =>
    rw [List.forall_mem_cons] at h
    rw [List.flatMap_cons, List.splitOnP_eq_singleton h.1, ih h.2, List.singleton_append]

theorem flatMap_splitOnP_printable {items : List (List Char)} (h : ∀ item ∈ items, Printable item) :
    items.flatMap (List.splitOnP isLineBreak) = items :=
  flatMap_splitOnP_of_no_breaks fun item hitem c hc => (h item hitem c hc).1

/-- The search for a marker sees the pieces between the line breaks. -/
theorem mem_splitlines_iff {text line : List Char} (hline : line ≠ []) :
    line ∈ splitlines text ↔ line ∈ text.splitOnP isLineBreak := by
  let some' := fun line : List Char => if line = [] then none else some line
  have hsome : ∀ lines : List (List Char), line ∈ lines.filterMap some' ↔ line ∈ lines := by
    intro lines
    rw [List.mem_filterMap]
    constructor
    · intro hmem
      obtain ⟨found, hfound, heq⟩ := hmem
      dsimp only [some'] at heq
      split_ifs at heq with hnil
      cases heq
      exact hfound
    · intro hmem
      exact ⟨line, hmem, if_neg hline⟩
  have hfilter := filterMap_splitlines (f := some') (if_pos rfl) text
  rw [← hsome, hfilter, hsome]

variable {container : Host} {path : PurePath}

theorem mountItem_eq (mount : ProjectMount) : mountItem mount =
    "mount".toList ++ ' ' ::
      (mount.name ++ ' ' :: (mount.containerPath.text.toList ++ ' ' :: mount.mode.text)) := by
  unfold mountItem
  have hkey : "mount ".toList = "mount".toList ++ [' '] := rfl
  rw [hkey]
  simp only [List.append_assoc, List.singleton_append]
  rfl

/-- The directories of a container: each is where it says it is. -/
def Serves (container : Host) (roots : List PurePath) : Prop :=
  ∀ root ∈ roots, container.resolve root = some root ∧ container.isDirectory root = true

theorem parseLines_mounts {mounts : List ProjectMount}
    (hvalid : ∀ mount ∈ mounts, matchesProjectName mount.name = true)
    (hnodup : (mounts.map ProjectMount.name).Nodup)
    (hserves : Serves container (mounts.map ProjectMount.containerPath))
    (hnames : ∀ mount ∈ mounts, ∀ known ∈ parsed.mounts, known.name ≠ mount.name)
    (hpaths : ∀ mount ∈ mounts, ∀ known ∈ parsed.mounts, known.path ≠ mount.containerPath) :
    ∃ found, found.map (fun mount => (mount.name, mount.path, mount.mode)) =
        mounts.map (fun mount => (mount.name, mount.containerPath, mount.mode)) ∧
      parseLines container path lineNo parsed none (mounts.map mountItem) =
        .ok { parsed with mounts := parsed.mounts ++ found } := by
  induction mounts generalizing parsed lineNo with
  | nil => exact ⟨[], rfl, by rw [List.append_nil]; rfl⟩
  | cons mount mounts ih =>
    unfold Serves at hserves
    rw [List.map_cons, List.forall_mem_cons] at hserves
    rw [List.forall_mem_cons] at hvalid hnames hpaths
    rw [List.map_cons, List.nodup_cons] at hnodup
    have hwritten : Written mount.containerPath := written_containerPath hvalid.1 mount.mode
    have hresolve : resolveDirectory container path mount.containerPath.text.toList lineNo "mount" =
        .ok mount.containerPath := resolveDirectory_written hwritten hserves.1.1 hserves.1.2
    have hother : ∀ later ∈ mounts, mount.name ≠ later.name := by
      intro later hlater he
      exact hnodup.1 (List.mem_map.mpr ⟨later, hlater, he.symm⟩)
    set next : Parsed := { parsed with
      mounts := parsed.mounts ++ [⟨mount.name, mount.containerPath, mount.mode, lineNo⟩] } with hnext
    have hline : parseLine container path parsed lineNo (strip ("mount".toList ++ ' ' ::
        (mount.name ++ ' ' :: (mount.containerPath.text.toList ++ ' ' :: mount.mode.text)))) =
          .ok (next, none) :=
      parseLine_mountItem (isWord_name hvalid.1) hwritten.isWord hvalid.1 hresolve hnames.1 hpaths.1
    have hnames' : ∀ later ∈ mounts, ∀ known ∈ next.mounts, known.name ≠ later.name := by
      intro later hlater
      rw [hnext, List.forall_mem_append, List.forall_mem_singleton]
      exact ⟨hnames.2 later hlater, hother later hlater⟩
    have hpaths' : ∀ later ∈ mounts, ∀ known ∈ next.mounts, known.path ≠ later.containerPath := by
      intro later hlater
      rw [hnext, List.forall_mem_append, List.forall_mem_singleton]
      exact ⟨hpaths.2 later hlater, fun he => hother later hlater (containerPath_injective he)⟩
    obtain ⟨found, hfound, hparse⟩ : ∃ found, _ ∧ parseLines container path (lineNo + 1) next none
        (mounts.map mountItem) = .ok { next with mounts := next.mounts ++ found } :=
      ih hvalid.2 hnodup.2 hserves.2 hnames' hpaths'
    refine ⟨⟨mount.name, mount.containerPath, mount.mode, lineNo⟩ :: found, ?_, ?_⟩
    · rw [List.map_cons, List.map_cons, hfound]
    · rw [List.map_cons, mountItem_eq, parseLines_step hline, hparse, hnext]
      simp

/-- The lines of a context between its marker and the next occurrence of it. -/
theorem parseLines_contextItems {marker : List Char} {context rest : List (List Char)}
    (hmarker : matchesContextMarker marker = true) (hword : IsWord ('<' :: '<' :: marker))
    (hcontext : ContextLines context) (hfree : marker ∉ context) (hnew : parsed.context = none) :
    parseLines host source lineNo parsed none
        ([] :: ("context".toList ++ ' ' :: '<' :: '<' :: marker) :: (context ++ marker :: rest)) =
      parseLines host source (lineNo + 1 + 1 + context.length + 1)
        { parsed with context := some (joinLines context) } none rest := by
  have hblank : parseLine host source parsed lineNo (strip []) = .ok (parsed, none) :=
    parseLine_comment rfl
  have hclose : closeBlock parsed ⟨marker, lineNo + 1, [] ++ context⟩ =
      .ok { parsed with context := some (joinLines context) } := by
    rw [closeBlock_eq_ok, List.nil_append, hcontext.stripped]
    exact ⟨hcontext.nonempty, rfl⟩
  rw [parseLines_step hblank, parseLines_step (parseLine_contextItem hmarker hword hnew),
    parseLines_block hfree, hclose]
  rfl

theorem teamItem_eq (mode : AccessMode) : "team /team ".toList ++ mode.text =
    "team".toList ++ ' ' :: (teamDirectory.text.toList ++ ' ' :: mode.text) := by
  have htext : teamDirectory.text.toList = "/team".toList := by decide +kernel
  rw [htext]
  rfl

theorem parseLines_rootItems {mounts : List ProjectMount} (mode : AccessMode)
    (hvalid : ∀ mount ∈ mounts, matchesProjectName mount.name = true)
    (hnodup : (mounts.map ProjectMount.name).Nodup)
    (hserves : Serves container (teamDirectory :: mounts.map ProjectMount.containerPath))
    (hteams : parsed.teams = []) (hmounts : parsed.mounts = []) :
    ∃ line found, found.map (fun mount => (mount.name, mount.path, mount.mode)) =
        mounts.map (fun mount => (mount.name, mount.containerPath, mount.mode)) ∧
      parseLines container path lineNo parsed none (rootItems mode mounts) =
        .ok { parsed with teams := [⟨teamDirectory, mode, line⟩], mounts := found } := by
  unfold Serves at hserves
  rw [List.forall_mem_cons] at hserves
  obtain ⟨⟨hresolve, hdirectory⟩, hserves⟩ := hserves
  have hblank : ∀ parsed lineNo, parseLine container path parsed lineNo (strip []) =
      .ok (parsed, none) := fun _ _ => parseLine_comment rfl
  have hteam : resolveDirectory container path teamDirectory.text.toList (lineNo + 1) "team" =
      .ok teamDirectory := resolveDirectory_written written_teamDirectory hresolve hdirectory
  have hname : teamDirectory.name.toList ∉ [['.'], ['.', '.']] ∧
      matchesTeamName teamDirectory.name.toList = true := by decide +kernel
  set next : Parsed := { parsed with teams := [⟨teamDirectory, mode, lineNo + 1⟩] } with hnext
  have hline : parseLine container path parsed (lineNo + 1) (strip ("team".toList ++ ' ' ::
      (teamDirectory.text.toList ++ ' ' :: mode.text))) = .ok (next, none) := by
    rw [parseLine_teamItem written_teamDirectory.isWord hteam hname, hteams]
    · rfl
    · rw [hteams]
      exact List.forall_mem_nil _
    · rw [hteams]
      exact List.forall_mem_nil _
  have hnone : next.mounts = [] := hmounts
  obtain ⟨found, hfound, hparse⟩ : ∃ found, _ ∧ parseLines container path (lineNo + 1 + 1 + 1) next
      none (mounts.map mountItem) = .ok { next with mounts := next.mounts ++ found } :=
    parseLines_mounts hvalid hnodup hserves
      (fun _ _ => by rw [hnone]; exact List.forall_mem_nil _)
      (fun _ _ => by rw [hnone]; exact List.forall_mem_nil _)
  refine ⟨lineNo + 1, found, hfound, ?_⟩
  unfold rootItems
  rw [teamItem_eq, List.cons_append, List.cons_append, List.cons_append, List.nil_append,
    parseLines_step (hblank _ _), parseLines_step hline, parseLines_step (hblank _ _), hparse,
    hnone, List.nil_append]

theorem checkOverlaps_container {mode : AccessMode} {line : ℕ} {found mounts : List ProjectMount}
    (hnodup : (mounts.map ProjectMount.name).Nodup)
    (hfound : found.map (fun mount => (mount.name, mount.path, mount.mode)) =
      mounts.map fun mount => (mount.name, mount.containerPath, mount.mode))
    (hteams : parsed.teams = [⟨teamDirectory, mode, line⟩]) (hmounts : parsed.mounts = found) :
    checkOverlaps [] parsed.roots = .ok () := by
  have hplaced : ∀ mount ∈ found, mount.path = mountContainerPath mount.name mount.mode := by
    intro mount hmount
    have hmem := List.mem_map_of_mem (f := fun mount : ProjectMount =>
      (mount.name, mount.path, mount.mode)) hmount
    rw [hfound] at hmem
    obtain ⟨original, -, heq⟩ := List.mem_map.mp hmem
    simp only [Prod.mk.injEq] at heq
    rw [← heq.2.1, ← heq.1, ← heq.2.2]
    rfl
  have hnames : found.map ProjectMount.name = mounts.map ProjectMount.name := by
    have hfirst := congrArg (List.map Prod.fst) hfound
    simpa [Function.comp_def] using hfirst
  rw [← hnames] at hnodup
  apply checkOverlaps_eq_ok (fun _ _ => List.forall_mem_nil _)
  unfold Parsed.roots
  rw [hteams, hmounts, List.map_singleton, List.singleton_append, List.pairwise_cons,
    List.pairwise_map]
  constructor
  · intro root hroot
    obtain ⟨mount, hmount, rfl⟩ := List.mem_map.mp hroot
    dsimp only
    rw [hplaced mount hmount]
    exact pathsOverlap_teamDirectory _ _
  · rw [List.Nodup, List.pairwise_map] at hnodup
    apply hnodup.imp_of_mem
    intro first second hfirst hsecond hne
    dsimp only
    rw [hplaced first hfirst, hplaced second hsecond]
    exact pathsOverlap_containerPath _ _ hne.symm

/-- What a text file may hold. -/
def TextChars (text : List Char) : Prop := ∀ c ∈ text, c = '\n' ∨ isControl c = false

theorem replaceCrlf_eq_self {text : List Char} (h : '\r' ∉ text) : replaceCrlf text = text := by
  induction text using replaceCrlf.induct with
  | case1 => rfl
  | case2 text ih => exact absurd List.mem_cons_self h
  | case3 c text hno ih =>
    rw [List.mem_cons, not_or] at h
    rw [replaceCrlf, ih h.2]
    exact hno

theorem decodeTextFile_utf8 {text : List Char} (h : TextChars text) (label : String) :
    decodeTextFile (utf8 text) label = .ok text := by
  have hreturn : '\r' ∉ text := return_not_mem h
  have hcontrol : (text.any fun c => decide (c ≠ '\n') && isControl c) = false := by
    rw [List.any_eq_false]
    intro c hc
    rcases h c hc with hn | hn <;> simp [hn]
  unfold decodeTextFile
  rw [decode_utf8]
  dsimp only
  rw [replaceCrlf_eq_self hreturn, hcontrol]
  rfl

theorem Printable.textChars {text : List Char} (h : Printable text) : TextChars text :=
  fun c hc => .inr (h c hc).2

theorem Printable.append {s t : List Char} (hs : Printable s) (ht : Printable t) :
    Printable (s ++ t) := List.forall_mem_append.mpr ⟨hs, ht⟩

theorem Printable.cons {c : Char} {s : List Char} (hc : isLineBreak c = false ∧ isControl c = false)
    (hs : Printable s) : Printable (c :: s) := List.forall_mem_cons.mpr ⟨hc, hs⟩

theorem textChars_joinLines {lines : List (List Char)} (h : ∀ line ∈ lines, TextChars line) :
    TextChars (joinLines lines) := by
  unfold joinLines
  induction lines with
  | nil => exact List.forall_mem_nil _
  | cons line lines ih =>
    rw [List.forall_mem_cons] at h
    cases lines with
    | nil =>
      rw [List.intercalate_singleton]
      exact h.1
    | cons next lines =>
      have hcons : ['\n'].intercalate (line :: next :: lines) =
          line ++ '\n' :: ['\n'].intercalate (next :: lines) := by
        simp [List.intercalate]
      rw [hcons]
      exact List.forall_mem_append.mpr ⟨h.1, List.forall_mem_cons.mpr ⟨.inl rfl, ih h.2⟩⟩

theorem printable_visible {text : List Char} (h : ∀ c ∈ text, 32 ≤ c.toNat ∧ c.toNat ≤ 126) :
    Printable text := by
  intro c hc
  obtain ⟨hlo, hhi⟩ := h c hc
  simp only [isLineBreak, isControl, Bool.or_eq_false_iff, Bool.and_eq_false_iff,
    decide_eq_false_iff_not]
  omega

theorem code_of_markerChar {c : Char}
    (h : (isLower c || isUpper c || isDigit c || c = '_') = true) :
    48 ≤ c.toNat ∧ c.toNat ≤ 122 := by
  simp only [isLower, isUpper, isDigit, Bool.or_eq_true, Bool.and_eq_true, decide_eq_true_eq,
    Char.le_def, UInt32.le_iff_toNat_le] at h
  rcases h with ((⟨hlo, hhi⟩ | ⟨hlo, hhi⟩) | ⟨hlo, hhi⟩) | rfl
  · change 97 ≤ c.toNat at hlo
    change c.toNat ≤ 122 at hhi
    omega
  · change 65 ≤ c.toNat at hlo
    change c.toNat ≤ 90 at hhi
    omega
  · change 48 ≤ c.toNat at hlo
    change c.toNat ≤ 57 at hhi
    omega
  · decide

theorem markerChars {marker : List Char} (h : matchesContextMarker marker = true) :
    marker ≠ [] ∧ ∀ c ∈ marker, 48 ≤ c.toNat ∧ c.toNat ≤ 122 := by
  cases marker with
  | nil => cases h
  | cons d marker =>
    rw [matchesContextMarker, Bool.and_eq_true, Bool.and_eq_true, List.all_eq_true] at h
    refine ⟨List.cons_ne_nil _ _, fun c hc => code_of_markerChar ?_⟩
    rcases List.mem_cons.mp hc with rfl | hc
    · rw [h.1.1, Bool.true_or, Bool.true_or]
    · exact h.2 c hc

theorem isWord_marker {marker : List Char} (h : matchesContextMarker marker = true) :
    IsWord ('<' :: '<' :: marker) := by
  refine ⟨List.cons_ne_nil _ _, ?_⟩
  rw [List.forall_mem_cons, List.forall_mem_cons]
  refine ⟨rfl, rfl, fun c hc => ?_⟩
  obtain ⟨hlo, hhi⟩ := (markerChars h).2 c hc
  exact isSpace_of_visible (by omega) (by omega)

theorem printable_marker {marker : List Char} (h : matchesContextMarker marker = true) :
    Printable marker := by
  apply printable_visible
  intro c hc
  obtain ⟨hlo, hhi⟩ := (markerChars h).2 c hc
  omega

theorem printable_name {name : List Char} (h : matchesProjectName name = true) : Printable name := by
  apply printable_visible
  intro c hc
  obtain ⟨hlo, hhi, -⟩ := nameChars h c hc
  omega

theorem AccessMode.printable (mode : AccessMode) : Printable mode.text := by
  apply printable_visible
  cases mode <;> decide

theorem printable_mountItem {mount : ProjectMount} (h : matchesProjectName mount.name = true) :
    Printable (mountItem mount) := by
  have hpath : Printable mount.containerPath.text.toList := by
    apply printable_visible
    intro c hc
    obtain ⟨hlo, hhi, -⟩ := (written_containerPath h mount.mode).visible c hc
    omega
  have hkey : Printable "mount".toList := printable_visible (by decide)
  rw [mountItem_eq]
  exact hkey.append (.cons (by decide) ((printable_name h).append
    (.cons (by decide) (hpath.append (.cons (by decide) mount.mode.printable)))))

theorem printable_rootItems {mounts : List ProjectMount} (mode : AccessMode)
    (hvalid : ∀ mount ∈ mounts, matchesProjectName mount.name = true) :
    ∀ item ∈ rootItems mode mounts, Printable item := by
  have hblank : Printable [] := List.forall_mem_nil _
  have hteam : Printable ("team /team ".toList ++ mode.text) :=
    (printable_visible (by decide)).append mode.printable
  unfold rootItems
  rw [List.forall_mem_append, List.forall_mem_cons, List.forall_mem_cons, List.forall_mem_singleton]
  refine ⟨⟨hblank, hteam, hblank⟩, fun item hitem => ?_⟩
  obtain ⟨mount, hmount, rfl⟩ := List.mem_map.mp hitem
  exact printable_mountItem (hvalid mount hmount)

theorem renderContainerProject_eq {project : ProjectDefinition} {team : ProjectTeam}
    {context : List (List Char)} (hteam : team ∈ project.teams)
    (hcontext : (if project.context = [] then .ok [] else contextItems project.context) =
      Except.ok context) :
    renderContainerProject project team =
      (demand ((utf8 (projectText project team.mode context)).length ≤ maxProjectFileBytes)
        (.tooLarge "container project configuration") >>= fun _ =>
          .ok (projectText project team.mode context)) := by
  unfold renderContainerProject
  rw [demand_eq_ok.mpr hteam, hcontext, ok_bind, ok_bind]
  rfl

/-- The lines of the text that joins the items. -/
theorem splitlines_joinLines {items : List (List Char)} (hne : items ≠ [])
    (h : ∀ item ∈ items, TextChars item) :
    splitlines (joinLines items ++ ['\n']) = items.flatMap (List.splitOnP isLineBreak) := by
  rw [joinLines_append_newline hne]
  exact splitlines_items fun item hitem => return_not_mem (h item hitem)

theorem parseLines_headerItems {name description : List Char} {rest : List (List Char)}
    (hname : matchesProjectName name = true)
    (hdescription : description ≠ [] ∧ strip description = description) :
    parseLines host source 1 .empty none (headerItems name description ++ rest) =
      parseLines host source 5 ⟨some name, some description, none, [], []⟩ none rest := by
  have hfirst : ∀ parsed lineNo, parseLine host source parsed lineNo
      (strip "# Generated by Cyclo for this team container.".toList) = .ok (parsed, none) :=
    fun _ _ => parseLine_comment (by decide +kernel)
  have hsecond : ∀ parsed lineNo, parseLine host source parsed lineNo
      (strip "# Team and mount paths are container paths; host paths are omitted.".toList) =
        .ok (parsed, none) := fun _ _ => parseLine_comment (by decide +kernel)
  have hne : strip description ≠ [] := by
    rw [hdescription.2]
    exact hdescription.1
  have hthird : parseLine host source .empty 3 (strip ("name".toList ++ ' ' :: name)) =
      .ok (⟨some name, none, none, [], []⟩, none) :=
    parseLine_nameItem hname (isWord_name hname) rfl
  have hfourth : parseLine host source ⟨some name, none, none, [], []⟩ 4
      (strip ("description".toList ++ ' ' :: description)) =
        .ok (⟨some name, some (strip description), none, [], []⟩, none) :=
    parseLine_descriptionItem hne rfl
  rw [hdescription.2] at hfourth
  unfold headerItems
  rw [List.cons_append, List.cons_append, List.cons_append, List.cons_append, List.nil_append,
    parseLines_step (hfirst _ _), parseLines_step (hsecond _ _)]
  exact (parseLines_step hthird).trans (parseLines_step hfourth)

theorem printable_headerItems {name description : List Char}
    (hname : matchesProjectName name = true) (hdescription : Printable description) :
    ∀ item ∈ headerItems name description, Printable item := by
  unfold headerItems
  rw [List.forall_mem_cons, List.forall_mem_cons, List.forall_mem_cons, List.forall_mem_singleton]
  refine ⟨printable_visible (by decide +kernel), printable_visible (by decide +kernel), ?_, ?_⟩
  · exact Printable.append (printable_visible (by decide)) (printable_name hname)
  · exact Printable.append (printable_visible (by decide)) hdescription

/-- With items for the context that the parser reads as the context, a text is read back. -/
theorem loadProject_projectText {project : ProjectDefinition} (hsound : project.Sound)
    {mode : AccessMode} {items lines : List (List Char)}
    (hitems : items.flatMap (List.splitOnP isLineBreak) = lines)
    (htext : ∀ item ∈ items, TextChars item)
    (hlines : ∀ parsed lineNo rest, parsed.context = none → ∃ lineNo',
      parseLines container path lineNo parsed none (lines ++ rest) =
        parseLines container path lineNo'
          { parsed with context := if project.context = [] then none else some project.context }
          none rest)
    (hserves : Serves container (teamDirectory :: project.mounts.map ProjectMount.containerPath))
    (hsize : (utf8 (projectText project mode items)).length ≤ maxProjectFileBytes) :
    ∃ parsed, loadProject container path (utf8 (projectText project mode items)) = .ok parsed ∧
      parsed.name = project.name ∧ parsed.description = project.description ∧
      parsed.context = project.context ∧
      parsed.teams.map (fun team => (team.path, team.mode)) = [(teamDirectory, mode)] ∧
      parsed.mounts.map (fun mount => (mount.name, mount.path, mount.mode)) =
        project.mounts.map fun mount => (mount.name, mount.containerPath, mount.mode) := by
  obtain ⟨hne, hstrip, hprintable⟩ := hsound.description
  have hheader := printable_headerItems hsound.name hprintable
  have hroots := printable_rootItems mode hsound.mounts
  have hall : ∀ item ∈ headerItems project.name project.description ++ (items ++
      rootItems mode project.mounts), TextChars item := by
    rw [List.forall_mem_append, List.forall_mem_append]
    exact ⟨fun item hitem => (hheader item hitem).textChars, htext,
      fun item hitem => (hroots item hitem).textChars⟩
  have hchars : TextChars (projectText project mode items) :=
    List.forall_mem_append.mpr ⟨textChars_joinLines hall, List.forall_mem_singleton.mpr (.inl rfl)⟩
  have hsplit : splitlines (projectText project mode items) =
      headerItems project.name project.description ++ (lines ++ rootItems mode project.mounts) := by
    unfold projectText
    rw [splitlines_joinLines _ hall, List.flatMap_append, List.flatMap_append, hitems,
      flatMap_splitOnP_printable hheader, flatMap_splitOnP_printable hroots]
    exact List.append_ne_nil_of_left_ne_nil (List.cons_ne_nil _ _) _
  obtain ⟨lineNo', hcontext⟩ := hlines ⟨some project.name, some project.description, none, [], []⟩ 5
    (rootItems mode project.mounts) rfl
  obtain ⟨line, found, hfound, hparse⟩ : ∃ line found, _ ∧ parseLines container path lineNo'
      ⟨some project.name, some project.description,
        if project.context = [] then none else some project.context, [], []⟩ none
      (rootItems mode project.mounts) = .ok ⟨some project.name, some project.description,
        if project.context = [] then none else some project.context,
        [⟨teamDirectory, mode, line⟩], found⟩ :=
    parseLines_rootItems mode hsound.mounts hsound.mountNames hserves rfl rfl
  have hmounts : found ≠ [] := by
    rintro rfl
    exact hsound.someMount (List.map_eq_nil_iff.mp hfound.symm)
  let parsed : Parsed := ⟨some project.name, some project.description,
    if project.context = [] then none else some project.context, [⟨teamDirectory, mode, line⟩], found⟩
  have hparsed : parseLines container path 1 .empty none
      (splitlines (projectText project mode items)) = .ok parsed := by
    rw [hsplit, parseLines_headerItems hsound.name ⟨hne, hstrip⟩, hcontext]
    exact hparse
  have hoverlaps : checkOverlaps [] parsed.roots = .ok () :=
    checkOverlaps_container hsound.mountNames hfound rfl rfl
  have hgetD : (if project.context = [] then none else some project.context).getD [] =
      project.context := by
    split_ifs with hnil
    · exact hnil.symm
    · rfl
  have hfinish : parsed.finish path = .ok ⟨path, project.name, project.description,
      project.context, [⟨teamDirectory, mode, line⟩], found⟩ := by
    unfold Parsed.finish
    refine bind_eq_ok.mpr ⟨(), demand_eq_ok.mpr (List.cons_ne_nil _ _), ?_⟩
    refine bind_eq_ok.mpr ⟨(), demand_eq_ok.mpr hmounts, ?_⟩
    refine bind_eq_ok.mpr ⟨(), hoverlaps, ?_⟩
    dsimp only [parsed]
    rw [hgetD]
    rfl
  have hload : loadProject container path (utf8 (projectText project mode items)) =
      .ok ⟨path, project.name, project.description, project.context,
        [⟨teamDirectory, mode, line⟩], found⟩ := by
    unfold loadProject readRegularFile
    rw [if_neg (not_lt.mpr hsize)]
    exact bind_eq_ok.mpr ⟨_, rfl, bind_eq_ok.mpr ⟨_, decodeTextFile_utf8 hchars _,
      bind_eq_ok.mpr ⟨parsed, hparsed, hfinish⟩⟩⟩
  exact ⟨_, hload, rfl, rfl, rfl, rfl, hfound⟩

/-- The lines of a text that is not too large are few enough for every candidate up to their number
to be a marker. -/
theorem matchesContextMarker_of_size {project : ProjectDefinition} {mode : AccessMode}
    {before after : List (List Char)} {n : ℕ}
    (hsize : (utf8 (projectText project mode (before ++ project.context :: after))).length ≤
      maxProjectFileBytes) (hn : n ≤ (splitlines project.context).length + 1) :
    matchesContextMarker (markerAt n) = true := by
  apply matchesContextMarker_markerAt
  have hlines := length_splitlines_le project.context
  have hbytes := length_le_length_utf8 (projectText project mode (before ++ project.context :: after))
  have hitem : project.context.length ≤
      (projectText project mode (before ++ project.context :: after)).length := by
    unfold projectText
    rw [joinLines_append_newline (by simp), List.flatMap_append, List.flatMap_append,
      List.flatMap_append, List.flatMap_cons]
    simp only [List.length_append]
    omega
  have hmax : maxProjectFileBytes = 1048576 := rfl
  omega

/-- Every definition that was loaded is read back from its rendering for a team: no line of the
context is the marker that ends it, and the definition in the container has the same name,
description, context and mode, and the mounts at their container paths. -/
theorem render_roundTrip {content : List UInt8} {project : ProjectDefinition} {team : ProjectTeam}
    (hload : loadProject host source content = .ok project) (hteam : team ∈ project.teams) :
    (∃ marker, projectContextMarker project.context = some marker ∧
      marker ∉ splitlines project.context) ∧
    (renderContainerProject project team =
        .error (.tooLarge "container project configuration") ∨
      ∃ rendered, renderContainerProject project team = .ok rendered ∧
        ∀ (container : Host) (path : PurePath),
          Serves container (teamDirectory :: project.mounts.map ProjectMount.containerPath) →
          ∃ parsed, loadProject container path (utf8 rendered) = .ok parsed ∧
            parsed.name = project.name ∧ parsed.description = project.description ∧
            parsed.context = project.context ∧
            parsed.teams.map (fun team => (team.path, team.mode)) = [(teamDirectory, team.mode)] ∧
            parsed.mounts.map (fun mount => (mount.name, mount.path, mount.mode)) =
              project.mounts.map fun mount => (mount.name, mount.containerPath, mount.mode)) := by
  have hsound := sound_loadProject hload
  obtain ⟨n, -, hbound, hmarker, hfree⟩ := projectContextMarker_eq_some project.context
  refine ⟨⟨_, hmarker, hfree⟩, ?_⟩
  by_cases hnil : project.context = []
  · have hitems : (if project.context = [] then .ok [] else contextItems project.context) =
        Except.ok [] := if_pos hnil
    rw [renderContainerProject_eq hteam hitems]
    by_cases hsize : (utf8 (projectText project team.mode [])).length ≤ maxProjectFileBytes
    · right
      refine ⟨_, bind_eq_ok.mpr ⟨(), demand_eq_ok.mpr hsize, rfl⟩, fun container path hserves => ?_⟩
      refine loadProject_projectText hsound rfl (List.forall_mem_nil _) ?_ hserves hsize
      intro parsed lineNo rest hnone
      rw [if_pos hnil, ← hnone]
      exact ⟨lineNo, rfl⟩
    · left
      rw [demand, if_neg hsize]
      rfl
  · obtain ⟨lines, hlines, hcontext⟩ := hsound.context.resolve_left hnil
    have hitems : (if project.context = [] then .ok [] else contextItems project.context) =
        Except.ok [[], "context <<".toList ++ markerAt n, project.context, markerAt n] := by
      rw [if_neg hnil, contextItems, hmarker]
    rw [renderContainerProject_eq hteam hitems]
    by_cases hsize : (utf8 (projectText project team.mode [[], "context <<".toList ++ markerAt n,
        project.context, markerAt n])).length ≤ maxProjectFileBytes
    · right
      refine ⟨_, bind_eq_ok.mpr ⟨(), demand_eq_ok.mpr hsize, rfl⟩, fun container path hserves => ?_⟩
      have hvalid : matchesContextMarker (markerAt n) = true :=
        @matchesContextMarker_of_size _ _ [[], "context <<".toList ++ markerAt n] [markerAt n] _
          hsize hbound
      have hnot : markerAt n ∉ lines := by
        rw [hcontext, mem_splitlines_iff (markerChars hvalid).1,
          splitOnP_joinLines hlines.nonempty hlines.printable] at hfree
        exact hfree
      have hmarkerItem := printable_marker hvalid
      have hopening : Printable ("context <<".toList ++ markerAt n) :=
        (printable_visible (by decide)).append hmarkerItem
      have hitemLines : [[], "context <<".toList ++ markerAt n, project.context,
          markerAt n].flatMap (List.splitOnP isLineBreak) =
          [] :: ("context <<".toList ++ markerAt n) :: (lines ++ [markerAt n]) := by
        rw [List.flatMap_cons, List.flatMap_cons, List.flatMap_cons, List.flatMap_cons,
          splitOnP_printable hopening, splitOnP_printable hmarkerItem, hcontext,
          splitOnP_joinLines hlines.nonempty hlines.printable]
        rfl
      refine loadProject_projectText hsound hitemLines ?_ ?_ hserves hsize
      · rw [List.forall_mem_cons, List.forall_mem_cons, List.forall_mem_cons,
          List.forall_mem_singleton, hcontext]
        exact ⟨List.forall_mem_nil _, hopening.textChars, textChars_joinLines
          fun line hline => (hlines.printable line hline).textChars, hmarkerItem.textChars⟩
      · intro parsed lineNo rest hnone
        rw [if_neg hnil, hcontext]
        refine ⟨lineNo + 1 + 1 + lines.length + 1, ?_⟩
        rw [List.cons_append, List.cons_append, List.append_assoc, List.singleton_append]
        exact parseLines_contextItems hvalid (isWord_marker hvalid) hlines hnot hnone
    · left
      rw [demand, if_neg hsize]
      rfl

/-- A host on which every path is a directory of its own. -/
def plainHost : Host := ⟨some, fun _ => true⟩

def demoContent : List UInt8 := utf8
  "name a\ndescription b #\ncontext <<E\n\nCYCLO_CONTEXT\nE\nteam /t ro\nmount m ../d rw\n".toList

def demo : ProjectDefinition where
  path := ⟨"/", ["p", "a.cyclo"]⟩
  name := ['a']
  description := ['b', ' ', '#']
  context := "CYCLO_CONTEXT".toList
  teams := [⟨⟨"/", ["t"]⟩, .ro, 7⟩]
  mounts := [⟨['m'], ⟨"/", ["p", "..", "d"]⟩, .rw, 8⟩]

theorem loadProject_demo : loadProject plainHost demo.path demoContent = .ok demo := by
  decide +kernel

/-- A context with a line that looks like the marker comes back. -/
theorem render_roundTrip_demo : ∃ rendered parsed,
    renderContainerProject demo ⟨⟨"/", ["t"]⟩, .ro, 7⟩ = .ok rendered ∧
      loadProject plainHost ⟨"/", ["project.cyclo"]⟩ (utf8 rendered) = .ok parsed ∧
      parsed.context = "CYCLO_CONTEXT".toList := by
  have hteam : (⟨⟨"/", ["t"]⟩, .ro, 7⟩ : ProjectTeam) ∈ demo.teams := List.mem_cons_self
  have hroundTrip := (render_roundTrip loadProject_demo hteam).2
  have hsmall : renderContainerProject demo ⟨⟨"/", ["t"]⟩, .ro, 7⟩ ≠
      .error (.tooLarge "container project configuration") := by decide +kernel
  obtain ⟨rendered, hrendered, hread⟩ := hroundTrip.resolve_left hsmall
  obtain ⟨parsed, hparsed, -, -, hcontext, -⟩ :=
    hread plainHost ⟨"/", ["project.cyclo"]⟩ fun _ _ => ⟨rfl, rfl⟩
  exact ⟨rendered, parsed, hrendered, hparsed, hcontext⟩

end Cyclo.Project
