import Cyclo.Project.Definition

/-! What every directive sets, and what every loaded project definition satisfies. -/
namespace Cyclo.Project
open Python

variable {host : Host} {source : PurePath} {parsed parsed' : Parsed} {block : Option Block}
  {lineNo : ℕ} {line : List Char}

theorem validateIdentifier_eq_ok {value : List Char} {label : String} {pattern : List Char → Bool} :
    validateIdentifier value label pattern lineNo = .ok () ↔
      value ∉ [['.'], ['.', '.']] ∧ pattern value = true := demand_eq_ok

theorem matchesProjectName_not_dots {name : List Char} (h : matchesProjectName name = true) :
    name ∉ [['.'], ['.', '.']] := by
  intro hmem
  rcases List.mem_cons.mp hmem with rfl | hmem
  · exact absurd h (by decide)
  · rw [List.mem_singleton.mp hmem] at h
    exact absurd h (by decide)

theorem validateMode_eq_ok {value : List Char} {mode : AccessMode} :
    validateMode value lineNo = .ok mode ↔ value = mode.text := by
  unfold validateMode parseMode
  split
  · rename_i hnone
    split at hnone
    · cases hnone
    · cases hnone
    · rename_i hro hrw
      refine iff_of_false nofun fun he => ?_
      cases mode with
      | ro => exact hro he
      | rw => exact hrw he
  · rename_i found hsome
    split at hsome
    · cases hsome
      cases mode <;> simp [AccessMode.text]
    · cases hsome
      cases mode <;> simp [AccessMode.text]
    · cases hsome

theorem parseName_eq_ok : parseName parsed lineNo line = .ok parsed' ↔
    ∃ directive name, split line = [directive, name] ∧ parsed.name = none ∧
      matchesProjectName name = true ∧ parsed' = { parsed with name := some name } := by
  unfold parseName
  split
  · rename_i directive name hsplit
    rw [bind_eq_ok]
    constructor
    · intro h
      obtain ⟨_, hnew, h⟩ := h
      obtain ⟨_, hvalid, h⟩ := bind_eq_ok.mp h
      cases h
      exact ⟨directive, name, hsplit, demand_eq_ok.mp hnew,
        (validateIdentifier_eq_ok.mp hvalid).2, rfl⟩
    · intro h
      obtain ⟨d, n, hfields, hnew, hvalid, hp⟩ := h
      rw [hsplit] at hfields
      cases hfields
      exact ⟨(), demand_eq_ok.mpr hnew, bind_eq_ok.mpr ⟨(), validateIdentifier_eq_ok.mpr
        ⟨matchesProjectName_not_dots hvalid, hvalid⟩, by rw [hp]; rfl⟩⟩
  · rename_i hno
    refine iff_of_false nofun fun h => ?_
    obtain ⟨d, n, hfields, -⟩ := h
    exact hno d n hfields

theorem parseDescription_eq_ok : parseDescription parsed lineNo line = .ok parsed' ↔
    (partition line).2.1 = true ∧ strip (partition line).2.2 ≠ [] ∧ parsed.description = none ∧
      parsed' = { parsed with description := some (strip (partition line).2.2) } := by
  unfold parseDescription
  obtain ⟨directive, separator, remainder⟩ := partition line
  dsimp only
  constructor
  · intro h
    obtain ⟨_, hsome, h⟩ := bind_eq_ok.mp h
    obtain ⟨_, hnew, h⟩ := bind_eq_ok.mp h
    cases h
    exact ⟨(demand_eq_ok.mp hsome).1, (demand_eq_ok.mp hsome).2, demand_eq_ok.mp hnew, rfl⟩
  · intro h
    obtain ⟨hsep, hne, hnew, hp⟩ := h
    rw [hp]
    exact bind_eq_ok.mpr ⟨(), demand_eq_ok.mpr ⟨hsep, hne⟩,
      bind_eq_ok.mpr ⟨(), demand_eq_ok.mpr hnew, rfl⟩⟩

theorem parseContext_eq_ok {block : Block} : parseContext parsed lineNo line = .ok block ↔
    ∃ directive marker, split line = [directive, '<' :: '<' :: marker] ∧
      matchesContextMarker marker = true ∧ parsed.context = none ∧ block = ⟨marker, lineNo, []⟩ := by
  unfold parseContext
  split
  · rename_i directive marker hsplit
    constructor
    · intro h
      obtain ⟨_, hvalid, h⟩ := bind_eq_ok.mp h
      obtain ⟨_, hnew, h⟩ := bind_eq_ok.mp h
      cases h
      exact ⟨directive, marker, hsplit, demand_eq_ok.mp hvalid, demand_eq_ok.mp hnew, rfl⟩
    · intro h
      obtain ⟨d, m, hfields, hvalid, hnew, hb⟩ := h
      rw [hsplit] at hfields
      cases hfields
      rw [hb]
      exact bind_eq_ok.mpr ⟨(), demand_eq_ok.mpr hvalid,
        bind_eq_ok.mpr ⟨(), demand_eq_ok.mpr hnew, rfl⟩⟩
  · rename_i hno
    refine iff_of_false nofun fun h => ?_
    obtain ⟨d, m, hfields, -⟩ := h
    exact hno d m hfields

theorem closeBlock_eq_ok {block : Block} : closeBlock parsed block = .ok parsed' ↔
    Text.strip isBlank block.lines ≠ [] ∧ parsed' =
      { parsed with context := some (joinLines (Text.strip isBlank block.lines)) } := by
  unfold closeBlock
  constructor
  · intro h
    obtain ⟨_, hne, h⟩ := bind_eq_ok.mp h
    cases h
    exact ⟨demand_eq_ok.mp hne, rfl⟩
  · intro h
    rw [h.2]
    exact bind_eq_ok.mpr ⟨(), demand_eq_ok.mpr h.1, rfl⟩

theorem parseTeam_eq_ok : parseTeam host source parsed lineNo line = .ok parsed' ↔
    ∃ directive value mode path, split line = [directive, value, AccessMode.text mode] ∧
      resolveDirectory host source value lineNo "team" = .ok path ∧
      path.name.toList ∉ [['.'], ['.', '.']] ∧ matchesTeamName path.name.toList = true ∧
      (∀ team ∈ parsed.teams, team.path ≠ path) ∧
      (∀ team ∈ parsed.teams, foldedName team.path ≠ foldedName path) ∧
      parsed' = { parsed with teams := parsed.teams ++ [⟨path, mode, lineNo⟩] } := by
  unfold parseTeam
  split
  · rename_i directive value mode hsplit
    constructor
    · intro h
      obtain ⟨path, hpath, h⟩ := bind_eq_ok.mp h
      obtain ⟨mode', hmode, h⟩ := bind_eq_ok.mp h
      obtain ⟨_, hvalid, h⟩ := bind_eq_ok.mp h
      rw [validateMode_eq_ok] at hmode
      rw [validateIdentifier_eq_ok] at hvalid
      split at h
      · cases h
      · rename_i hpaths
        split at h
        · cases h
        · rename_i hnames
          cases h
          rw [List.find?_eq_none] at hpaths hnames
          exact ⟨directive, value, mode', path, hmode ▸ hsplit, hpath, hvalid.1, hvalid.2,
            fun team ht => by simpa using hpaths team ht,
            fun team ht => by simpa using hnames team ht, rfl⟩
    · intro h
      obtain ⟨d, v, m, path, hfields, hpath, hdots, hvalid, hpaths, hnames, hp⟩ := h
      rw [hsplit] at hfields
      cases hfields
      have hnone : parsed.teams.find? (fun team => decide (team.path = path)) = none := by
        rw [List.find?_eq_none]
        exact fun team ht => by simpa using hpaths team ht
      have hnone' : parsed.teams.find?
          (fun team => decide (foldedName team.path = foldedName path)) = none := by
        rw [List.find?_eq_none]
        exact fun team ht => by simpa using hnames team ht
      refine bind_eq_ok.mpr ⟨path, hpath, bind_eq_ok.mpr ⟨m, validateMode_eq_ok.mpr rfl,
        bind_eq_ok.mpr ⟨(), validateIdentifier_eq_ok.mpr ⟨hdots, hvalid⟩, ?_⟩⟩⟩
      rw [hnone, hp]
      dsimp only
      rw [hnone']
      rfl
  · rename_i hno
    refine iff_of_false nofun fun h => ?_
    obtain ⟨d, v, m, _, hfields, -⟩ := h
    exact hno d v _ hfields

theorem parseMount_eq_ok : parseMount host source parsed lineNo line = .ok parsed' ↔
    ∃ directive name value mode path,
      split line = [directive, name, value, AccessMode.text mode] ∧
      matchesProjectName name = true ∧
      resolveDirectory host source value lineNo "mount" = .ok path ∧
      (∀ mount ∈ parsed.mounts, mount.name ≠ name) ∧
      (∀ mount ∈ parsed.mounts, mount.path ≠ path) ∧
      parsed' = { parsed with mounts := parsed.mounts ++ [⟨name, path, mode, lineNo⟩] } := by
  unfold parseMount
  split
  · rename_i directive name value mode hsplit
    constructor
    · intro h
      obtain ⟨_, hvalid, h⟩ := bind_eq_ok.mp h
      obtain ⟨path, hpath, h⟩ := bind_eq_ok.mp h
      obtain ⟨mode', hmode, h⟩ := bind_eq_ok.mp h
      rw [validateMode_eq_ok] at hmode
      rw [validateIdentifier_eq_ok] at hvalid
      split at h
      · cases h
      · rename_i hnames
        split at h
        · cases h
        · rename_i hpaths
          cases h
          rw [List.find?_eq_none] at hpaths hnames
          exact ⟨directive, name, value, mode', path, hmode ▸ hsplit, hvalid.2, hpath,
            fun mount hm => by simpa using hnames mount hm,
            fun mount hm => by simpa using hpaths mount hm, rfl⟩
    · intro h
      obtain ⟨d, n, v, m, path, hfields, hvalid, hpath, hnames, hpaths, hp⟩ := h
      rw [hsplit] at hfields
      cases hfields
      have hnone : parsed.mounts.find? (fun mount => decide (mount.name = name)) = none := by
        rw [List.find?_eq_none]
        exact fun mount hm => by simpa using hnames mount hm
      have hnone' : parsed.mounts.find? (fun mount => decide (mount.path = path)) = none := by
        rw [List.find?_eq_none]
        exact fun mount hm => by simpa using hpaths mount hm
      refine bind_eq_ok.mpr ⟨(), validateIdentifier_eq_ok.mpr
        ⟨matchesProjectName_not_dots hvalid, hvalid⟩, bind_eq_ok.mpr ⟨path, hpath,
        bind_eq_ok.mpr ⟨m, validateMode_eq_ok.mpr rfl, ?_⟩⟩⟩
      rw [hnone, hp]
      dsimp only
      rw [hnone']
      rfl
  · rename_i hno
    refine iff_of_false nofun fun h => ?_
    obtain ⟨d, n, v, m, _, hfields, -⟩ := h
    exact hno d n v _ hfields

/-- What one line outside a context block does. -/
inductive Directive (host : Host) (source : PurePath) (parsed : Parsed) (lineNo : ℕ)
    (line : List Char) : Parsed → Option Block → Prop where
  | comment : isComment line = true → Directive host source parsed lineNo line parsed none
  | name {parsed' : Parsed} : parseName parsed lineNo line = .ok parsed' →
      Directive host source parsed lineNo line parsed' none
  | description {parsed' : Parsed} : parseDescription parsed lineNo line = .ok parsed' →
      Directive host source parsed lineNo line parsed' none
  | context {block : Block} : parseContext parsed lineNo line = .ok block →
      Directive host source parsed lineNo line parsed (some block)
  | team {parsed' : Parsed} : parseTeam host source parsed lineNo line = .ok parsed' →
      Directive host source parsed lineNo line parsed' none
  | mount {parsed' : Parsed} : parseMount host source parsed lineNo line = .ok parsed' →
      Directive host source parsed lineNo line parsed' none

theorem map_eq_ok {ε α β : Type} {x : Except ε α} {f : α → β} {b : β} (h : x.map f = .ok b) :
    ∃ a, x = .ok a ∧ b = f a := by
  cases x with
  | error e => cases h
  | ok a =>
    cases h
    exact ⟨a, rfl, rfl⟩

theorem directive_of_parseLine (h : parseLine host source parsed lineNo line = .ok (parsed', block)) :
    Directive host source parsed lineNo line parsed' block := by
  unfold parseLine at h
  dsimp only at h
  split_ifs at h with hcomment
  · cases h
    exact .comment hcomment
  all_goals
    obtain ⟨result, hresult, heq⟩ := map_eq_ok h
    cases heq
  · exact .name hresult
  · exact .description hresult
  · exact .context hresult
  · exact .team hresult
  · exact .mount hresult

/-- A line of a text file: neither line breaks nor control characters. -/
def Printable (line : List Char) : Prop := ∀ c ∈ line, isLineBreak c = false ∧ isControl c = false

theorem Printable.subset {s : List Char} (h : Printable line) (hs : s ⊆ line) : Printable s :=
  fun c hc => h c (hs hc)

/-- The lines of a context: neither the first nor the last is blank. -/
structure ContextLines (lines : List (List Char)) : Prop where
  nonempty : lines ≠ []
  stripped : Text.strip isBlank lines = lines
  printable : ∀ line ∈ lines, Printable line

structure Parsed.Sound (parsed : Parsed) : Prop where
  name : ∀ name ∈ parsed.name, matchesProjectName name = true
  description : ∀ description ∈ parsed.description,
    description ≠ [] ∧ strip description = description ∧ Printable description
  context : ∀ context ∈ parsed.context, ∃ lines, ContextLines lines ∧ context = joinLines lines
  mounts : ∀ mount ∈ parsed.mounts, matchesProjectName mount.name = true
  mountNames : (parsed.mounts.map ProjectMount.name).Nodup

theorem sound_empty : Parsed.empty.Sound := by
  constructor <;> simp [Parsed.empty]

theorem partition_subset (line : List Char) : (partition line).2.2 ⊆ line := by
  intro c hc
  unfold partition at hc
  split at hc
  · cases hc
  · rename_i remainder hdrop
    have hmem : c ∈ line.dropWhile fun c => decide (c ≠ ' ') := by
      rw [hdrop]
      exact List.mem_cons_of_mem _ hc
    exact (List.dropWhile_sublist _).subset hmem

theorem sound_directive (h : parsed.Sound)
    (hd : Directive host source parsed lineNo line parsed' block) (hline : Printable line) :
    parsed'.Sound := by
  cases hd with
  | comment _ => exact h
  | name hname =>
    obtain ⟨_, name, -, -, hvalid, rfl⟩ := parseName_eq_ok.mp hname
    refine { h with name := ?_ }
    intro n hn
    cases hn
    exact hvalid
  | description hdescription =>
    obtain ⟨-, hne, -, rfl⟩ := parseDescription_eq_ok.mp hdescription
    refine { h with description := ?_ }
    intro d hd
    cases hd
    refine ⟨hne, Text.strip_strip _, hline.subset ?_⟩
    exact List.Subset.trans (Text.strip_subset isSpace _) (partition_subset line)
  | context _ => exact h
  | team hteam =>
    obtain ⟨_, _, _, _, -, -, -, -, -, -, rfl⟩ := parseTeam_eq_ok.mp hteam
    exact { h with }
  | mount hmount =>
    obtain ⟨_, name, _, mode, path, -, hvalid, -, hnames, -, rfl⟩ := parseMount_eq_ok.mp hmount
    refine { h with mounts := ?_, mountNames := ?_ }
    · rw [List.forall_mem_append, List.forall_mem_singleton]
      exact ⟨h.mounts, hvalid⟩
    · rw [List.map_append, List.map_singleton, List.nodup_append]
      refine ⟨h.mountNames, List.nodup_singleton _, ?_⟩
      intro a ha b hb hab
      obtain ⟨mount, hmount, rfl⟩ := List.mem_map.mp ha
      rw [List.mem_singleton.mp hb] at hab
      exact hnames mount hmount hab

theorem directive_block {block : Block}
    (hd : Directive host source parsed lineNo line parsed' (some block)) : block.lines = [] := by
  cases hd with
  | context hcontext =>
    obtain ⟨_, _, -, -, -, rfl⟩ := parseContext_eq_ok.mp hcontext
    rfl

theorem sound_close {block : Block} (h : parsed.Sound)
    (hclose : closeBlock parsed block = .ok parsed')
    (hlines : ∀ line ∈ block.lines, Printable line) : parsed'.Sound := by
  obtain ⟨hne, rfl⟩ := closeBlock_eq_ok.mp hclose
  refine { h with context := ?_ }
  intro context hc
  cases hc
  have hsub := Text.strip_subset isBlank block.lines
  exact ⟨_, ⟨hne, Text.strip_strip _, fun line hline => hlines line (hsub hline)⟩, rfl⟩

/-- What every directive and every context preserves holds behind the lines. -/
theorem parseLines_invariant {P : Parsed → Prop} {lines : List (List Char)}
    (hdirective : ∀ {parsed parsed' : Parsed} {lineNo : ℕ} {line : List Char} {block : Option Block},
      P parsed → Directive host source parsed lineNo line parsed' block → P parsed')
    (hclose : ∀ {parsed parsed' : Parsed} {block : Block},
      P parsed → closeBlock parsed block = .ok parsed' → P parsed')
    (h : P parsed) (hparse : parseLines host source lineNo parsed block lines = .ok parsed') :
    P parsed' := by
  induction lines generalizing lineNo parsed block with
  | nil =>
    cases block with
    | none =>
      cases hparse
      exact h
    | some b => cases hparse
  | cons raw lines ih =>
    cases block with
    | none =>
      rw [parseLines] at hparse
      obtain ⟨⟨next, opened⟩, hline, hrest⟩ := bind_eq_ok.mp hparse
      exact ih (hdirective h (directive_of_parseLine hline)) hrest
    | some b =>
      rw [parseLines] at hparse
      split_ifs at hparse with hmarker
      · obtain ⟨next, hnext, hrest⟩ := bind_eq_ok.mp hparse
        exact ih (hclose h hnext) hrest
      · exact ih h hparse

/-- The invariant along the lines, whether a block is open or not. -/
theorem sound_parseLines {lines : List (List Char)} (h : parsed.Sound)
    (hlines : ∀ line ∈ lines, Printable line)
    (hblock : ∀ b ∈ block, ∀ line ∈ b.lines, Printable line)
    (hparse : parseLines host source lineNo parsed block lines = .ok parsed') : parsed'.Sound := by
  induction lines generalizing lineNo parsed block with
  | nil =>
    cases block with
    | none =>
      cases hparse
      exact h
    | some b => cases hparse
  | cons raw lines ih =>
    rw [List.forall_mem_cons] at hlines
    cases block with
    | none =>
      rw [parseLines] at hparse
      obtain ⟨⟨next, opened⟩, hline, hrest⟩ := bind_eq_ok.mp hparse
      have hdirective := directive_of_parseLine hline
      have hprintable : Printable (strip raw) := hlines.1.subset (Text.strip_subset isSpace raw)
      refine ih (sound_directive h hdirective hprintable) hlines.2 ?_ hrest
      intro b hb
      rw [hb] at hdirective
      rw [directive_block hdirective]
      exact List.forall_mem_nil _
    | some b =>
      have hprintable := hblock b rfl
      rw [parseLines] at hparse
      split_ifs at hparse with hmarker
      · obtain ⟨next, hclose, hrest⟩ := bind_eq_ok.mp hparse
        exact ih (sound_close h hclose hprintable) hlines.2 (by simp) hrest
      · refine ih h hlines.2 ?_ hparse
        intro b' hb'
        cases hb'
        dsimp only
        rw [List.forall_mem_append, List.forall_mem_singleton]
        exact ⟨hprintable, hlines.1⟩

/-- The text of a file that is read: no carriage return is left, and no control character but
newlines. -/
theorem decodeTextFile_eq_ok {content : List UInt8} {label : String} {text : List Char}
    (h : decodeTextFile content label = .ok text) :
    ∃ original, content = utf8 original ∧ text = replaceCrlf original ∧
      ∀ c ∈ text, c = '\n' ∨ isControl c = false := by
  unfold decodeTextFile at h
  split at h
  · cases h
  · rename_i original horiginal
    split_ifs at h with hcontrol
    cases h
    refine ⟨original, decode_eq_some.mp horiginal, rfl, ?_⟩
    intro c hc
    rw [Bool.not_eq_true, List.any_eq_false] at hcontrol
    have hno := hcontrol c hc
    by_cases hn : c = '\n'
    · exact .inl hn
    · right
      simpa [hn] using hno

theorem isControl_return : isControl '\r' = true := by decide

theorem return_not_mem {text : List Char} (h : ∀ c ∈ text, c = '\n' ∨ isControl c = false) :
    '\r' ∉ text := by
  intro hmem
  rcases h _ hmem with hn | hc
  · exact absurd hn (by decide)
  · rw [isControl_return] at hc
    cases hc

theorem printable_splitlines {text : List Char} (h : ∀ c ∈ text, c = '\n' ∨ isControl c = false) :
    ∀ line ∈ splitlines text, Printable line := by
  intro line hline c hc
  obtain ⟨hmem, hbreak⟩ := mem_splitlines hline c hc
  refine ⟨hbreak, (h c hmem).resolve_left ?_⟩
  rintro rfl
  exact absurd hbreak (by decide)

/-- What holds of every project definition that was loaded. -/
structure ProjectDefinition.Sound (project : ProjectDefinition) : Prop where
  name : matchesProjectName project.name = true
  description : project.description ≠ [] ∧ strip project.description = project.description ∧
    Printable project.description
  context : project.context = [] ∨
    ∃ lines, ContextLines lines ∧ project.context = joinLines lines
  mounts : ∀ mount ∈ project.mounts, matchesProjectName mount.name = true
  mountNames : (project.mounts.map ProjectMount.name).Nodup
  someMount : project.mounts ≠ []

theorem loadProject_eq_ok {content : List UInt8} {project : ProjectDefinition}
    (h : loadProject host source content = .ok project) :
    ∃ text parsed, content.length ≤ maxProjectFileBytes ∧
      decodeTextFile content "project definition" = .ok text ∧
      parseLines host source 1 .empty none (splitlines text) = .ok parsed ∧
      parsed.finish source = .ok project := by
  unfold loadProject at h
  obtain ⟨bytes, hread, h⟩ := bind_eq_ok.mp h
  unfold readRegularFile at hread
  split_ifs at hread with hlarge
  cases hread
  obtain ⟨text, htext, h⟩ := bind_eq_ok.mp h
  obtain ⟨parsed, hparsed, h⟩ := bind_eq_ok.mp h
  exact ⟨text, parsed, not_lt.mp hlarge, htext, hparsed, h⟩

theorem finish_eq_ok {project : ProjectDefinition} (h : parsed.finish source = .ok project) :
    ∃ name description, parsed.name = some name ∧ parsed.description = some description ∧
      parsed.teams ≠ [] ∧ parsed.mounts ≠ [] ∧ checkOverlaps [] parsed.roots = .ok () ∧
      project = ⟨source, name, description, parsed.context.getD [], parsed.teams,
        parsed.mounts⟩ := by
  unfold Parsed.finish at h
  split at h
  · cases h
  · cases h
  · rename_i name description hname hdescription
    obtain ⟨_, hteams, h⟩ := bind_eq_ok.mp h
    obtain ⟨_, hmounts, h⟩ := bind_eq_ok.mp h
    obtain ⟨_, hoverlaps, h⟩ := bind_eq_ok.mp h
    cases h
    exact ⟨name, description, hname, hdescription, demand_eq_ok.mp hteams,
      demand_eq_ok.mp hmounts, hoverlaps, rfl⟩

theorem sound_loadProject {content : List UInt8} {project : ProjectDefinition}
    (h : loadProject host source content = .ok project) : project.Sound := by
  obtain ⟨text, parsed, hsize, htext, hparsed, hfinish⟩ := loadProject_eq_ok h
  obtain ⟨original, hcontent, hreplaced, hcontrol⟩ := decodeTextFile_eq_ok htext
  have hsound : parsed.Sound :=
    sound_parseLines sound_empty (printable_splitlines hcontrol) (by simp) hparsed
  obtain ⟨name, description, hname, hdescription, -, hmounts, -, rfl⟩ := finish_eq_ok hfinish
  refine ⟨hsound.name name hname, hsound.description description hdescription, ?_, hsound.mounts,
    hsound.mountNames, hmounts⟩
  cases hcontext : parsed.context with
  | none => exact .inl rfl
  | some context => exact .inr (hsound.context context hcontext)

end Cyclo.Project
