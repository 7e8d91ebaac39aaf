import Cyclo.Project.Parsing
import Mathlib.Data.List.Perm.Subperm

/-! The project definition that a team sees in its container, and what parsing it gives back. -/
namespace Cyclo.Project
open Python

/-- The candidates for a marker, in the order in which they are tried. -/
def markerAt (suffix : ℕ) : List Char :=
  if suffix = 1 then "CYCLO_CONTEXT".toList
  else "CYCLO_CONTEXT_".toList ++ Nat.toDigits 10 suffix

/-- `while marker in lines`, for a number of candidates. -/
def searchMarker (lines : List (List Char)) : ℕ → ℕ → Option (List Char)
  | 0, _ => none
  | attempts + 1, suffix =>
    if markerAt suffix ∈ lines then searchMarker lines attempts (suffix + 1)
    else some (markerAt suffix)

/-- `project_context_marker(context)`; one candidate more than there are lines is enough. -/
def projectContextMarker (context : List Char) : Option (List Char) :=
  searchMarker (splitlines context) ((splitlines context).length + 1) 1

/-- The lines of a context block. -/
def contextItems (context : List Char) : Except Rejection (List (List Char)) :=
  match projectContextMarker context with
  | none => .error .endlessMarkerSearch
  | some marker => .ok [[], "context <<".toList ++ marker, context, marker]

def teamDirectory : PurePath := ⟨"/", ["team"]⟩

def mountItem (mount : ProjectMount) : List Char :=
  "mount ".toList ++ mount.name ++ ' ' :: mount.containerPath.text.toList ++ ' ' :: mount.mode.text

/-- The items before the context. -/
def headerItems (name description : List Char) : List (List Char) :=
  ["# Generated by Cyclo for this team container.".toList,
    "# Team and mount paths are container paths; host paths are omitted.".toList,
    "name ".toList ++ name, "description ".toList ++ description]

/-- The items behind the context. -/
def rootItems (mode : AccessMode) (mounts : List ProjectMount) : List (List Char) :=
  [[], "team /team ".toList ++ mode.text, []] ++ mounts.map mountItem

/-- The whole text, with the given items for the context. -/
def projectText (project : ProjectDefinition) (mode : AccessMode) (context : List (List Char)) :
    List Char :=
  joinLines (headerItems project.name project.description ++
    (context ++ rootItems mode project.mounts)) ++ ['\n']

/-- `render_container_project(project, team=team)` -/
def renderContainerProject (project : ProjectDefinition) (team : ProjectTeam) :
    Except Rejection (List Char) := do
  demand (team ∈ project.teams) .foreignTeam
  let context ← (if project.context = [] then .ok [] else contextItems project.context)
  let rendered := projectText project team.mode context
  demand ((utf8 rendered).length ≤ maxProjectFileBytes) (.tooLarge "container project configuration")
  return rendered

theorem markerAt_injective {m n : ℕ} (h : markerAt m = markerAt n) : m = n := by
  unfold markerAt at h
  split_ifs at h with h1 h2 h2
  · omega
  · have hlen := congrArg List.length h
    simp at hlen
  · have hlen := congrArg List.length h
    simp at hlen
  · have hdigits := List.append_cancel_left h
    have hvalue := congrArg (fun digits => Nat.ofDigitChars 10 digits 0) hdigits
    simpa [Nat.ofDigitChars_ten_toDigits] using hvalue

/-- A candidate within the attempts that is no line ends the search at the first such one. -/
theorem searchMarker_eq_some {lines : List (List Char)} {attempts suffix : ℕ}
    (h : ∃ n, suffix ≤ n ∧ n < suffix + attempts ∧ markerAt n ∉ lines) :
    ∃ n, suffix ≤ n ∧ n < suffix + attempts ∧ markerAt n ∉ lines ∧
      searchMarker lines attempts suffix = some (markerAt n) := by
  induction attempts generalizing suffix with
  | zero =>
    obtain ⟨n, hlo, hhi, -⟩ := h
    omega
  | succ attempts ih =>
    rw [searchMarker]
    split_ifs with hmem
    · obtain ⟨n, hlo, hhi, hnot⟩ := h
      have hne : n ≠ suffix := fun he => hnot (he ▸ hmem)
      have hlater : ∃ n, suffix + 1 ≤ n ∧ n < suffix + 1 + attempts ∧ markerAt n ∉ lines :=
        ⟨n, by omega, by omega, hnot⟩
      obtain ⟨k, hk, hk', hknot, hsearch⟩ := ih hlater
      exact ⟨k, by omega, by omega, hknot, hsearch⟩
    · exact ⟨suffix, le_rfl, by omega, hmem, rfl⟩

/-- There are more candidates than lines, so the search ends. -/
theorem projectContextMarker_eq_some (context : List Char) :
    ∃ n, 1 ≤ n ∧ n ≤ (splitlines context).length + 1 ∧
      projectContextMarker context = some (markerAt n) ∧ markerAt n ∉ splitlines context := by
  set lines := splitlines context with hlines
  have hfree : ∃ n, 1 ≤ n ∧ n < 1 + (lines.length + 1) ∧ markerAt n ∉ lines := by
    by_contra hno
    push Not at hno
    have hnodup : ((List.range' 1 (lines.length + 1)).map markerAt).Nodup := by
      apply List.Nodup.map_on _ List.nodup_range'
      intro m _ n _ heq
      exact markerAt_injective heq
    have hsubset : (List.range' 1 (lines.length + 1)).map markerAt ⊆ lines := by
      intro marker hmarker
      obtain ⟨n, hn, rfl⟩ := List.mem_map.mp hmarker
      rw [List.mem_range'_1] at hn
      exact hno n hn.1 hn.2
    have hle := (List.subperm_of_subset hnodup hsubset).length_le
    rw [List.length_map, List.length_range'] at hle
    omega
  obtain ⟨n, hlo, hhi, hnot, hsearch⟩ := searchMarker_eq_some hfree
  exact ⟨n, hlo, by omega, by rw [projectContextMarker, ← hlines, hsearch], hnot⟩

theorem isDigit_of_mem_toDigits {n : ℕ} {c : Char} (h : c ∈ Nat.toDigits 10 n) :
    isDigit c = true := by
  have hdigit := Nat.isDigit_of_mem_toDigits (by decide) (by decide) h
  unfold Char.isDigit at hdigit
  simpa [isDigit, Char.le_def, UInt32.le_iff_toNat_le] using hdigit

/-- A letter and then at most 31 letters, digits and underscores. -/
theorem matchesContextMarker_append {digits : List Char} (hlen : digits.length ≤ 17)
    (hdigits : ∀ c ∈ digits, isDigit c = true) :
    matchesContextMarker ("CYCLO_CONTEXT_".toList ++ digits) = true := by
  have hcons : "CYCLO_CONTEXT_".toList ++ digits = 'C' :: ("YCLO_CONTEXT_".toList ++ digits) := rfl
  have hword : (("YCLO_CONTEXT_".toList ++ digits).all fun d =>
      isLower d || isUpper d || isDigit d || d = '_') = true := by
    rw [List.all_append, Bool.and_eq_true]
    constructor
    · decide
    · rw [List.all_eq_true]
      intro c hc
      rw [hdigits c hc]
      simp
  have hbound : ("YCLO_CONTEXT_".toList ++ digits).length ≤ 31 := by
    have h13 : "YCLO_CONTEXT_".toList.length = 13 := rfl
    rw [List.length_append]
    omega
  rw [hcons, matchesContextMarker, hword, decide_eq_true hbound]
  rfl

theorem matchesContextMarker_markerAt {n : ℕ} (h : n < 10 ^ 17) :
    matchesContextMarker (markerAt n) = true := by
  unfold markerAt
  split_ifs
  · decide
  · apply matchesContextMarker_append
    · rw [Nat.length_toDigits_le_iff (by decide) (by decide)]
      exact h
    · exact fun _ => isDigit_of_mem_toDigits

end Cyclo.Project
