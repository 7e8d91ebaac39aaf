import Cyclo.Python.Text
import Cyclo.Shell.Pattern
import Cyclo.Text.Splitting
import Mathlib.Data.List.Infix

/-! The roster of a team, as `run_agentws` reads it in the container: the lines of the shell, its
field splitting and pathname expansion, the validation and the workers it launches. -/
namespace Cyclo.Team.RunAgentws
open Python Shell

def ascii (s : String) : Word := s.toUTF8.data.toList

/-- The class `[:space:]`. -/
def isSpace (b : UInt8) : Bool := 0x09 ≤ b && b ≤ 0x0d || b = 0x20

/-- The characters of the default `IFS`. -/
def isFieldSeparator (b : UInt8) : Bool := b = 0x20 || b = 0x09 || b = 0x0a

def isNewline (b : UInt8) : Bool := b = 0x0a

/-- `read` drops NUL bytes. -/
def isNul (b : UInt8) : Bool := b = 0x00

def isAlphanumeric (b : UInt8) : Bool :=
  0x41 ≤ b && b ≤ 0x5a || 0x61 ≤ b && b ≤ 0x7a || 0x30 ≤ b && b ≤ 0x39

/-- The lines of `while IFS= read -r line || [ -n "$line" ]`. -/
def readLines (content : Word) : List Word :=
  let lines := (content.filter fun b => !isNul b).splitOnP isNewline
  if lines.getLast? = some [] then lines.dropLast else lines

variable {order : UInt8 → UInt8 → Bool}

/-- `set -- $line` -/
def fields (directory : Shell.Directory order) (line : Word) : List Word :=
  (Text.words isFieldSeparator line).flatMap directory.expand

/-- Why the script refuses the roster; most reasons name a line. -/
inductive Refusal where
  | missingFields (line : ℕ)
  | tooManyFields (line : ℕ)
  | invalidName (label : String) (value : Word)
  | missingRoleFile (role : Word) (line : ℕ)
  | invalidAgent (agent : Word)
  | duplicateName (name : Word) (line : ℕ)
  | noAgents
  deriving DecidableEq

/-- `validate_name`: neither `""|[!A-Za-z0-9]*` nor `*[!A-Za-z0-9._-]*` matches. -/
def matchesName : Word → Bool
  | [] => false
  | b :: rest => isAlphanumeric b &&
      (b :: rest).all fun d => isAlphanumeric d || d = 0x2e || d = 0x5f || d = 0x2d

def validateName (label : String) (value : Word) : Except Refusal Unit :=
  demand (matchesName value) (.invalidName label value)

/-- The agents that `validate_roster` lets pass. -/
def knownAgents : List Word := ["pi-interactive", "pi", "codex", "claude"].map ascii

def roleFile (role : Word) : Word := role ++ ascii ".md"

/-- The line without its leading white space. -/
def stripped (line : Word) : Word := line.dropWhile isSpace

/-- `""|\#*` -/
def isComment (line : Word) : Bool := line = [] || line.head? = some 0x23

section
variable (roleFiles : List Word) (directory : Shell.Directory order)

/-- One record; the names seen so far are kept between spaces. -/
def validateRecord (lineNo : ℕ) (seenNames : Word) (line : Word) : Except Refusal Word :=
  match fields directory line with
  | name :: role :: agent :: rest => do
    demand (rest.length ≤ 1) (.tooManyFields lineNo)
    validateName "agent ID" name
    validateName "role" role
    demand (roleFile role ∈ roleFiles) (.missingRoleFile role lineNo)
    demand (agent ∈ knownAgents) (.invalidAgent agent)
    demand (¬ (0x20 :: name ++ [0x20]) <:+: seenNames) (.duplicateName name lineNo)
    return seenNames ++ name ++ [0x20]
  | _ => throw (.missingFields lineNo)

/-- The number of records on the lines, when all are valid. -/
def validateLines : ℕ → Word → List Word → Except Refusal ℕ
  | _, _, [] => return 0
  | lineNo, seenNames, line :: lines =>
    if isComment (stripped line) then validateLines (lineNo + 1) seenNames lines
    else do
      let seenNames ← validateRecord roleFiles directory lineNo seenNames (stripped line)
      let count ← validateLines (lineNo + 1) seenNames lines
      return count + 1

def validateRoster (content : Word) : Except Refusal Unit := do
  let count ← validateLines roleFiles directory 1 [0x20] (readLines content)
  demand (0 < count) .noAgents

structure Worker where
  name : Word
  role : Word
  agent : Word
  model : Word
  deriving DecidableEq

/-- The worker of one record; the model may be left out. -/
def launchRecord (lineNo : ℕ) (line : Word) : Except Refusal Worker :=
  match fields directory line with
  | name :: role :: agent :: rest => do
    demand (rest.length ≤ 1) (.tooManyFields lineNo)
    return ⟨name, role, agent, rest.headD []⟩
  | _ => throw (.missingFields lineNo)

def launchLines : ℕ → List Word → Except Refusal (List Worker)
  | _, [] => return []
  | lineNo, line :: lines =>
    if isComment (stripped line) then launchLines (lineNo + 1) lines
    else do
      let worker ← launchRecord directory lineNo (stripped line)
      let workers ← launchLines (lineNo + 1) lines
      return worker :: workers

/-- The workers launched for a roster, in their order. -/
def run (content : Word) : Except Refusal (List Worker) := do
  validateRoster roleFiles directory content
  launchLines directory 1 (readLines content)

end
/-- The record on a line, if there is one. -/
def record (line : Word) : Option Word :=
  if isComment (stripped line) then none else some (stripped line)

/-- The worker that three or four fields describe. -/
def workerOf : List Word → Option Worker
  | [name, role, agent] => some ⟨name, role, agent, []⟩
  | [name, role, agent, model] => some ⟨name, role, agent, model⟩
  | _ => none

structure Worker.Valid (roleFiles : List Word) (worker : Worker) : Prop where
  name : matchesName worker.name = true
  role : matchesName worker.role = true
  roleFile : roleFile worker.role ∈ roleFiles
  agent : worker.agent ∈ knownAgents

/-- The fields of all records, as the workers they describe. -/
def described (directory : Shell.Directory order) (lines : List Word) : List (Option Worker) :=
  (lines.filterMap record).map fun line => workerOf (fields directory line)

variable {roleFiles : List Word} {directory : Shell.Directory order} {worker : Worker}
  {workers : List Worker} {lineNo : ℕ} {line : Word} {lines : List Word}

theorem record_of_comment (h : isComment (stripped line) = true) : record line = none := if_pos h

theorem record_of_not_comment (h : ¬ isComment (stripped line) = true) :
    record line = some (stripped line) := if_neg h

/-- Fields that describe a worker are three or four. -/
theorem workerOf_eq_some {fs : List Word} (h : workerOf fs = some worker) :
    ∃ rest, fs = worker.name :: worker.role :: worker.agent :: rest ∧ rest.length ≤ 1 ∧
      worker.model = rest.headD [] := by
  unfold workerOf at h
  split at h
  · cases h
    exact ⟨[], rfl, by simp, rfl⟩
  · rename_i model
    cases h
    exact ⟨[model], rfl, by simp, rfl⟩
  · cases h

/-- A worker with a model has four fields. -/
theorem fields_of_workerOf {fs : List Word} (h : workerOf fs = some worker)
    (hmodel : worker.model ≠ []) : fs = [worker.name, worker.role, worker.agent, worker.model] := by
  obtain ⟨rest, rfl, hrest, hlast⟩ := workerOf_eq_some h
  match rest, hrest with
  | [], _ => exact absurd hlast hmodel
  | [_], _ => rw [hlast, List.headD_cons]

/-- Fields that describe a worker with a model are not expanded, if what they are expanded to
describes it too. -/
theorem expand_of_workerOf {fs : List Word} (h : workerOf fs = some worker)
    (hmodel : worker.model ≠ [])
    (hexpanded : workerOf (fs.flatMap directory.expand) = some worker) :
    ∀ field ∈ fs, directory.expand field = [field] := by
  have hsame : fs.flatMap (fun field => [field]) = fs.flatMap directory.expand := by
    rw [List.flatMap_singleton', fields_of_workerOf hexpanded hmodel, fields_of_workerOf h hmodel]
  have hle : ∀ field ∈ fs, [field].length ≤ (directory.expand field).length := fun field _ =>
    List.length_pos_iff.mpr (directory.expand_ne_nil field)
  exact fun field hfield => (Text.flatMap_eq hle hsame field hfield).symm

theorem launchRecord_eq_ok :
    launchRecord directory lineNo line = .ok worker ↔
      workerOf (fields directory line) = some worker := by
  unfold launchRecord
  match fields directory line with
  | [] | [_] | [_, _] => exact iff_of_false nofun nofun
  | [name, role, agent] =>
    constructor <;> intro h <;> cases h <;> rfl
  | [name, role, agent, model] =>
    constructor <;> intro h <;> cases h <;> rfl
  | _ :: _ :: _ :: _ :: _ :: _ => exact iff_of_false nofun nofun

theorem launchLines_eq_ok :
    launchLines directory lineNo lines = .ok workers ↔
      described directory lines = workers.map some := by
  unfold described
  induction lines generalizing lineNo workers with
  | nil =>
    constructor
    · intro h
      cases h
      rfl
    · intro h
      rw [List.map_eq_nil_iff.mp h.symm]
      rfl
  | cons line lines ih =>
    rw [launchLines]
    split_ifs with hcomment
    · rw [List.filterMap_cons_none (record_of_comment hcomment)]
      exact ih
    · rw [List.filterMap_cons_some (record_of_not_comment hcomment), List.map_cons]
      constructor
      · intro h
        obtain ⟨worker, hworker, h⟩ := bind_eq_ok.mp h
        obtain ⟨rest, hrest, h⟩ := bind_eq_ok.mp h
        cases h
        rw [List.map_cons, launchRecord_eq_ok.mp hworker, ih.mp hrest]
      · intro h
        cases workers with
        | nil => cases h
        | cons worker workers =>
          rw [List.map_cons, List.cons.injEq] at h
          exact bind_eq_ok.mpr ⟨worker, launchRecord_eq_ok.mpr h.1,
            bind_eq_ok.mpr ⟨workers, ih.mpr h.2, rfl⟩⟩

/-- The value of `seen_names` after some names. -/
def seenNames (names : List Word) : Word := 0x20 :: names.flatMap (· ++ [0x20])

theorem seenNames_concat (names : List Word) (name : Word) :
    seenNames (names ++ [name]) = seenNames names ++ name ++ [0x20] := by
  simp [seenNames]

theorem not_space_of_matchesName {name : Word} (h : matchesName name = true) :
    (0x20 : UInt8) ∉ name := by
  intro hmem
  cases name with
  | nil => cases hmem
  | cons b rest =>
    rw [matchesName, Bool.and_eq_true] at h
    exact absurd (List.all_eq_true.mp h.2 _ hmem) (by decide)

/-- Two spaceless words before a space are the same. -/
theorem eq_of_append_space {name other rest rest' : Word} (hname : (0x20 : UInt8) ∉ name)
    (hother : (0x20 : UInt8) ∉ other) (h : name ++ 0x20 :: rest = other ++ 0x20 :: rest') :
    name = other := by
  have hp := congrArg (List.takeWhile fun b : UInt8 => decide (b ≠ 0x20)) h
  have htake : ∀ w rest : Word, (0x20 : UInt8) ∉ w →
      (w ++ 0x20 :: rest).takeWhile (fun b => decide (b ≠ 0x20)) = w := by
    intro w rest hw
    rw [List.takeWhile_append_of_pos (by
      intro b hb
      exact decide_eq_true fun he => hw (he ▸ hb)), List.takeWhile_cons_of_neg (by simp),
      List.append_nil]
  rwa [htake _ _ hname, htake _ _ hother] at hp

/-- A name between spaces occurs among the names seen only as one of them. -/
theorem mem_of_infix_seenNames {names : List Word} {name : Word} (hname : (0x20 : UInt8) ∉ name)
    (hnames : ∀ other ∈ names, (0x20 : UInt8) ∉ other)
    (h : (0x20 :: name ++ [0x20]) <:+: seenNames names) : name ∈ names := by
  induction names with
  | nil =>
    have hlen := h.length_le
    simp [seenNames] at hlen
  | cons other names ih =>
    rw [List.forall_mem_cons] at hnames
    obtain ⟨before, after, heq⟩ := h
    have hseen : seenNames (other :: names) = 0x20 :: (other ++ seenNames names) := by
      simp [seenNames]
    rw [hseen] at heq
    cases before with
    | nil =>
      have htail : name ++ 0x20 :: after = other ++ 0x20 :: names.flatMap (· ++ [0x20]) := by
        simpa [seenNames] using heq
      rw [eq_of_append_space hname hnames.1 htail]
      exact List.mem_cons_self
    | cons b before =>
      -- the space before the name lies behind the other name
      have htail : before ++ 0x20 :: (name ++ 0x20 :: after) = other ++ seenNames names := by
        simpa using (List.cons.inj (by simpa using heq)).2
      rcases List.append_eq_append_iff.mp htail with ⟨middle, hother, hrest⟩ | ⟨middle, hb, hrest⟩
      · cases middle with
        | nil =>
          refine List.mem_cons_of_mem _ (ih hnames.2 ⟨[], after, ?_⟩)
          simpa using hrest
        | cons c middle =>
          have hc : (0x20 : UInt8) = c := (List.cons.inj hrest).1
          exact absurd (by rw [hother, hc]; simp) hnames.1
      · refine List.mem_cons_of_mem _ (ih hnames.2 ⟨middle, after, ?_⟩)
        rw [hrest]
        simp

theorem validateRecord_ok {names : List Word}
    (hworker : workerOf (fields directory line) = some worker)
    (hvalid : worker.Valid roleFiles) (hfresh : worker.name ∉ names)
    (hnames : ∀ name ∈ names, (0x20 : UInt8) ∉ name) :
    validateRecord roleFiles directory lineNo (seenNames names) line =
      .ok (seenNames (names ++ [worker.name])) := by
  obtain ⟨rest, hfields, hrest, -⟩ := workerOf_eq_some hworker
  have hinfix : ¬ (0x20 :: worker.name ++ [0x20]) <:+: seenNames names := fun h =>
    hfresh (mem_of_infix_seenNames (not_space_of_matchesName hvalid.name) hnames h)
  unfold validateRecord
  rw [hfields, seenNames_concat]
  exact bind_eq_ok.mpr ⟨(), demand_eq_ok.mpr hrest, bind_eq_ok.mpr ⟨(),
    demand_eq_ok.mpr hvalid.name, bind_eq_ok.mpr ⟨(), demand_eq_ok.mpr hvalid.role,
    bind_eq_ok.mpr ⟨(), demand_eq_ok.mpr hvalid.roleFile, bind_eq_ok.mpr ⟨(),
    demand_eq_ok.mpr hvalid.agent, bind_eq_ok.mpr ⟨(), demand_eq_ok.mpr hinfix, rfl⟩⟩⟩⟩⟩⟩

theorem validateLines_ok {names : List Word}
    (hdescribed : described directory lines = workers.map some)
    (hvalid : ∀ worker ∈ workers, worker.Valid roleFiles)
    (hnodup : (names ++ workers.map Worker.name).Nodup)
    (hnames : ∀ name ∈ names, (0x20 : UInt8) ∉ name) :
    validateLines roleFiles directory lineNo (seenNames names) lines = .ok workers.length := by
  unfold described at hdescribed
  induction lines generalizing lineNo workers names with
  | nil =>
    rw [List.map_eq_nil_iff.mp hdescribed.symm]
    rfl
  | cons line lines ih =>
    rw [validateLines]
    split_ifs with hcomment
    · rw [List.filterMap_cons_none (record_of_comment hcomment)] at hdescribed
      exact ih hdescribed hvalid hnodup hnames
    · rw [List.filterMap_cons_some (record_of_not_comment hcomment), List.map_cons] at hdescribed
      cases workers with
      | nil => cases hdescribed
      | cons worker workers =>
        rw [List.map_cons, List.cons.injEq] at hdescribed
        rw [List.forall_mem_cons] at hvalid
        have hfresh : worker.name ∉ names := by
          intro hmem
          have hdisjoint := List.disjoint_of_nodup_append hnodup
          exact hdisjoint hmem (by simp)
        have hnodup' : ((names ++ [worker.name]) ++ workers.map Worker.name).Nodup := by
          simpa using hnodup
        have hnames' : ∀ name ∈ names ++ [worker.name], (0x20 : UInt8) ∉ name := by
          intro name hname
          rcases List.mem_append.mp hname with hname | hname
          · exact hnames name hname
          · rw [List.mem_singleton.mp hname]
            exact not_space_of_matchesName hvalid.1.name
        exact bind_eq_ok.mpr ⟨_, validateRecord_ok hdescribed.1 hvalid.1 hfresh hnames,
          bind_eq_ok.mpr ⟨_, ih hdescribed.2 hvalid.2 hnodup' hnames', rfl⟩⟩

/-- Valid workers with distinct names are launched exactly where the records describe them. -/
theorem run_eq_ok {content : Word} (hvalid : ∀ worker ∈ workers, worker.Valid roleFiles)
    (hnodup : (workers.map Worker.name).Nodup) (hne : workers ≠ []) :
    run roleFiles directory content = .ok workers ↔
      described directory (readLines content) = workers.map some := by
  constructor
  · intro h
    obtain ⟨_, -, hlaunch⟩ := bind_eq_ok.mp h
    exact launchLines_eq_ok.mp hlaunch
  · intro h
    have hcount : validateLines roleFiles directory 1 (seenNames []) (readLines content) =
        .ok workers.length :=
      validateLines_ok h hvalid (by simpa using hnodup) (List.forall_mem_nil _)
    have hpos : 0 < workers.length := List.length_pos_iff.mpr hne
    exact bind_eq_ok.mpr ⟨(), bind_eq_ok.mpr ⟨_, hcount, demand_eq_ok.mpr hpos⟩,
      launchLines_eq_ok.mpr h⟩

/-- Dropping an empty last line drops no record. -/
theorem described_readLines (directory : Shell.Directory order) (content : Word) :
    described directory (readLines content) =
      described directory ((content.filter fun b => !isNul b).splitOnP isNewline) := by
  unfold readLines described
  dsimp only
  split_ifs with hlast
  · obtain ⟨init, hinit⟩ := List.getLast?_eq_some_iff.mp hlast
    rw [hinit, List.dropLast_concat, List.filterMap_append]
    simp [record, isComment, stripped]
  · rfl

end Cyclo.Team.RunAgentws
