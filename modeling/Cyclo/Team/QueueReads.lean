import Cyclo.Team.Queue

/-! What the loops of the queue scan read, as a function of the bytes that were wanted before: the text
of every file, and whether a file came when the bytes were used up. -/
namespace Cyclo.Team.Queue
open Python

/-- A file of a directory, and how many of its bytes are wanted at most. -/
structure Reading where
  directory : Directory
  name : String
  maxBytes : ℕ

/-- The bytes that are read where nothing else limits them. -/
def Reading.want (r : Reading) : ℕ := min r.maxBytes ((r.directory.content r.name).getD []).length

def wanted (readings : List Reading) : ℕ := (readings.map Reading.want).sum

/-- The text of the first bytes of a file. -/
def Directory.text (directory : Directory) (name : String) (default : List Char) (allowance : ℕ) :
    List Char :=
  match directory.content name with
  | none => default
  | some content => decodeReplacing (content.take allowance)

/-- The text that is read after other files, within a limit. -/
def Reading.text (r : Reading) (default : List Char) (limit before : ℕ) : List Char :=
  if limit ≤ before then default
  else r.directory.text r.name default (min r.maxBytes (limit - before))

/-- The budget after some entries, and files of which `before` bytes were wanted. -/
def budgetAt (limits : QueueLimits) (entries before : ℕ) (truncated : Bool) : ScanBudget :=
  ⟨limits, entries, min limits.maxReadBytes before, truncated⟩

/-- A file comes when the bytes are used up. -/
def overrun (limit : ℕ) : ℕ → List Reading → Bool
  | _, [] => false
  | before, r :: rest => decide (limit ≤ before) || overrun limit (before + r.want) rest

variable {limits : QueueLimits} {limit before entries : ℕ} {t : Bool}

theorem readRegular_budgetAt (r : Reading) (default : List Char) (limits : QueueLimits)
    (entries before : ℕ) (t : Bool) (hmax : 0 < r.maxBytes) :
    r.directory.readRegular r.name r.maxBytes default (budgetAt limits entries before t) =
      (r.text default limits.maxReadBytes before,
        budgetAt limits entries (before + r.want) (t || limits.maxReadBytes ≤ before)) := by
  unfold Directory.readRegular ScanBudget.readAllowance Reading.text Directory.text budgetAt
  by_cases hover : limits.maxReadBytes ≤ before
  · have hremaining : limits.maxReadBytes - min limits.maxReadBytes before = 0 := by omega
    have hread : min limits.maxReadBytes (before + r.want) = min limits.maxReadBytes before := by
      omega
    simp [hread, hover]
  · have hremaining : limits.maxReadBytes - min limits.maxReadBytes before =
        limits.maxReadBytes - before := by omega
    have hne : limits.maxReadBytes - before ≠ 0 := by omega
    have hallowance : min r.maxBytes (limits.maxReadBytes - before) ≠ 0 := by omega
    simp only [hremaining, hne, hover, if_false, hallowance, decide_false, Bool.or_false]
    unfold Reading.want
    cases r.directory.content r.name with
    | none => simp
    | some content =>
      simp only [List.length_take, Option.getD_some, Prod.mk.injEq, ScanBudget.mk.injEq, true_and,
        and_true]
      omega

theorem wanted_append (readings readings' : List Reading) :
    wanted (readings ++ readings') = wanted readings + wanted readings' := by
  unfold wanted
  rw [List.map_append, List.sum_append]

theorem wanted_cons (r : Reading) (readings : List Reading) :
    wanted (r :: readings) = r.want + wanted readings := by
  unfold wanted
  rw [List.map_cons, List.sum_cons]

theorem overrun_append (readings readings' : List Reading) :
    overrun limit before (readings ++ readings') =
      (overrun limit before readings || overrun limit (before + wanted readings) readings') := by
  induction readings generalizing before with
  | nil => rfl
  | cons r rest ih =>
    rw [List.cons_append, overrun, overrun, ih, wanted_cons, Bool.or_assoc, Nat.add_assoc]

/-- The last file decides. -/
theorem overrun_concat (readings : List Reading) (last : Reading) :
    overrun limit before (readings ++ [last]) = decide (limit ≤ before + wanted readings) := by
  induction readings generalizing before with
  | nil => simp [overrun, wanted]
  | cons r rest ih =>
    rw [List.cons_append, overrun, ih, wanted_cons, ← Bool.decide_or]
    congr 1
    rw [eq_iff_iff]
    omega

theorem text_full (r : Reading) (default : List Char) (hbefore : before < limit)
    (hwant : before + r.want ≤ limit) :
    r.text default limit before = r.directory.text r.name default r.maxBytes := by
  unfold Reading.text Directory.text
  rw [if_neg (by omega)]
  unfold Reading.want at hwant
  cases hcontent : r.directory.content r.name with
  | none => rfl
  | some content =>
    rw [hcontent, Option.getD_some] at hwant
    dsimp only
    congr 1
    rw [List.take_eq_take_iff]
    omega

variable {ι ρ : Type}

/-- The rows of a loop whose bodies read some files each. -/
def rowsFrom (value : ℕ → ι → ρ) (readings : ι → List Reading) : ℕ → List ι → List ρ
  | _, [] => []
  | before, item :: rest =>
    value before item :: rowsFrom value readings (before + wanted (readings item)) rest

theorem rowsFrom_append (value : ℕ → ι → ρ) (readings : ι → List Reading) (items items' : List ι) :
    rowsFrom value readings before (items ++ items') = rowsFrom value readings before items ++
      rowsFrom value readings (before + wanted (items.flatMap readings)) items' := by
  induction items generalizing before with
  | nil => rfl
  | cons item rest ih =>
    rw [List.cons_append, rowsFrom, rowsFrom, ih, List.flatMap_cons, wanted_append, Nat.add_assoc,
      List.cons_append]

theorem rowsFrom_full {value : ℕ → ι → ρ} {readings : ι → List Reading} {full : ι → ρ}
    (hvalue : ∀ before item, before + wanted (readings item) < limit → value before item = full item)
    (items : List ι) (h : before + wanted (items.flatMap readings) < limit) :
    rowsFrom value readings before items = items.map full := by
  induction items generalizing before with
  | nil => rfl
  | cons item rest ih =>
    rw [List.flatMap_cons, wanted_append] at h
    rw [rowsFrom, List.map_cons, hvalue before item (by omega), ih (by omega)]

/-- A loop body that reads some files, one after another. -/
def Reads (body : List Char → Directory → ScanBudget → ρ × ScanBudget)
    (value : ℕ → ℕ → List Char × Directory → ρ)
    (readings : List Char × Directory → List Reading) : Prop :=
  ∀ item limits entries before t, body item.1 item.2 (budgetAt limits entries before t) =
    (value limits.maxReadBytes before item,
      budgetAt limits entries (before + wanted (readings item))
        (t || overrun limits.maxReadBytes before (readings item)))

/-- The directories among some entries. -/
def directories (ignoredNames : List (List Char)) (entries : List Entry) :
    List (List Char × Directory) :=
  entries.filterMap fun entry =>
    match entry.find ignoredNames with
    | .directory id directory => some (id, directory)
    | _ => none

def findErrors (ignoredNames : List (List Char)) (entries : List Entry) : List String :=
  entries.filterMap fun entry =>
    match entry.find ignoredNames with
    | .failed error => some error
    | _ => none

section
variable {body : List Char → Directory → ScanBudget → ρ × ScanBudget}
  {value : ℕ → ℕ → List Char × Directory → ρ} {readings : List Char × Directory → List Reading}
  {ignoredNames : List (List Char)}

theorem takeEntry_budgetAt :
    (budgetAt limits entries before t).takeEntry =
      if limits.maxEntries ≤ entries then (false, budgetAt limits entries before true)
      else (true, budgetAt limits (entries + 1) before t) := rfl

theorem iterQueueDirectories_fits (h : Reads body value readings) (listed : List Entry)
    (errors : List String) (hfit : entries + listed.length ≤ limits.maxEntries) :
    iterQueueDirectories body ignoredNames listed (budgetAt limits entries before t) errors =
      (rowsFrom (value limits.maxReadBytes) readings before (directories ignoredNames listed),
        budgetAt limits (entries + listed.length)
          (before + wanted ((directories ignoredNames listed).flatMap readings))
          (t || overrun limits.maxReadBytes before
            ((directories ignoredNames listed).flatMap readings)),
        errors ++ findErrors ignoredNames listed) := by
  induction listed generalizing entries before t errors with
  | nil => simp [iterQueueDirectories, directories, findErrors, rowsFrom, wanted, overrun]
  | cons entry rest ih =>
    rw [List.length_cons] at hfit
    have hcount : entries + (entry :: rest).length = entries + 1 + rest.length := by
      rw [List.length_cons]
      omega
    unfold iterQueueDirectories
    rw [takeEntry_budgetAt, if_neg (by omega), hcount]
    dsimp only
    cases hfind : entry.find ignoredNames with
    | skipped =>
      dsimp only
      rw [ih errors (by omega)]
      simp [directories, findErrors, hfind]
    | failed error =>
      dsimp only
      rw [ih (errors ++ [error]) (by omega)]
      simp [directories, findErrors, hfind]
    | directory id directory =>
      dsimp only
      have hbody := h (id, directory) limits (entries + 1) before t
      dsimp only at hbody
      rw [hbody]
      dsimp only
      rw [ih errors (by omega)]
      have hdirectories : directories ignoredNames (entry :: rest) =
          (id, directory) :: directories ignoredNames rest := by
        simp [directories, hfind]
      have herrors : findErrors ignoredNames (entry :: rest) = findErrors ignoredNames rest := by
        simp [findErrors, hfind]
      rw [hdirectories, herrors, List.flatMap_cons, wanted_append, overrun_append, rowsFrom,
        Nat.add_assoc before, Bool.or_assoc]

/-- Nothing more than `max_entries` is taken, and what is left over is noted. -/
theorem iterQueueDirectories_budget (h : Reads body value readings) (listed : List Entry)
    (errors : List String) (hentries : entries ≤ limits.maxEntries) :
    ∃ entries' before' t', (iterQueueDirectories body ignoredNames listed
        (budgetAt limits entries before t) errors).2.1 = budgetAt limits entries' before' t' ∧
      entries' ≤ limits.maxEntries ∧
      (t = true ∨ limits.maxEntries < entries + listed.length → t' = true) ∧
      (entries + listed.length ≤ limits.maxEntries → entries' = entries + listed.length) := by
  induction listed generalizing entries before t errors with
  | nil =>
    refine ⟨entries, before, t, rfl, hentries, ?_, fun _ => rfl⟩
    intro ht
    refine ht.resolve_right ?_
    rw [List.length_nil]
    omega
  | cons entry rest ih =>
    unfold iterQueueDirectories
    rw [takeEntry_budgetAt, List.length_cons]
    by_cases hfull : limits.maxEntries ≤ entries
    · rw [if_pos hfull]
      exact ⟨entries, before, true, rfl, hentries, fun _ => rfl, fun _ => by omega⟩
    · rw [if_neg hfull]
      have hcount : entries + (rest.length + 1) = entries + 1 + rest.length := by omega
      rw [hcount]
      dsimp only
      cases hfind : entry.find ignoredNames with
      | skipped => exact ih errors (by omega)
      | failed error => exact ih (errors ++ [error]) (by omega)
      | directory id directory =>
        have hbody := h (id, directory) limits (entries + 1) before t
        dsimp only at hbody ⊢
        rw [hbody]
        obtain ⟨entries', before', t', heq, hle, ht, hall⟩ :=
          @ih (before + wanted (readings (id, directory))) (entries + 1)
            (t || overrun limits.maxReadBytes before (readings (id, directory))) errors (by omega)
        refine ⟨entries', before', t', heq, hle, fun ht' => ht (ht'.imp_left fun h => ?_), hall⟩
        rw [h, Bool.true_or]

end

def stateReading (item : List Char × Directory) : Reading := ⟨item.2, "state", 128⟩

def statusReading (item : List Char × Directory) : Reading := ⟨item.2, "status", 64⟩

def taskIdReading (item : List Char × Directory) : Reading := ⟨item.2, "task-id", 128⟩

def agentIdReading (item : List Char × Directory) : Reading := ⟨item.2, "agent-id", 128⟩

def jobReadings (item : List Char × Directory) : List Reading :=
  [statusReading item, taskIdReading item, agentIdReading item]

/-- The row of a task whose file `state` has a text. -/
def taskOf (item : List Char × Directory) (state : List Char) : TaskRow where
  id := item.1
  state := taskState state
  updatedTs := item.2.latestRegularMtime ["state", "spec.md", "log.md", "result.md"]

/-- The row of a job whose files `status`, `task-id` and `agent-id` have some texts. -/
def jobOf (item : List Char × Directory) (status taskId agentId : List Char) : JobRow where
  id := item.1
  status := jobStatus status
  taskId := strip taskId
  agentId := strip agentId
  updatedTs := item.2.latestRegularMtime
    ["status", "log.md", "spec.md", "agent-id", "task-id", "role"]

def taskAt (limit before : ℕ) (item : List Char × Directory) : TaskRow :=
  taskOf item ((stateReading item).text "unknown".toList limit before)

def jobAt (limit before : ℕ) (item : List Char × Directory) : JobRow :=
  let afterStatus := before + (statusReading item).want
  let afterTaskId := afterStatus + (taskIdReading item).want
  jobOf item ((statusReading item).text "unknown".toList limit before)
    ((taskIdReading item).text [] limit afterStatus)
    ((agentIdReading item).text [] limit afterTaskId)

/-- The rows of files that are read as far as the scan wants them. -/
def wholeTask (item : List Char × Directory) : TaskRow :=
  taskOf item (item.2.text "state" "unknown".toList 128)

def wholeJob (item : List Char × Directory) : JobRow :=
  jobOf item (item.2.text "status" "unknown".toList 64) (item.2.text "task-id" [] 128)
    (item.2.text "agent-id" [] 128)

theorem taskRow_reads : Reads taskRow taskAt fun item => [stateReading item] := by
  intro item limits entries before t
  have hstate := readRegular_budgetAt (stateReading item) "unknown".toList limits entries before t
    (Nat.zero_lt_succ _)
  unfold stateReading at hstate
  unfold taskRow
  dsimp only at hstate ⊢
  rw [hstate]
  simp [taskAt, taskOf, stateReading, wanted, overrun]

theorem jobRow_reads : Reads jobRow jobAt jobReadings := by
  intro item limits entries before t
  unfold jobRow
  have hstatus := fun before t => readRegular_budgetAt (statusReading item) "unknown".toList limits
    entries before t (Nat.zero_lt_succ _)
  have htaskId := fun before t => readRegular_budgetAt (taskIdReading item) [] limits entries before
    t (Nat.zero_lt_succ _)
  have hagentId := fun before t => readRegular_budgetAt (agentIdReading item) [] limits entries
    before t (Nat.zero_lt_succ _)
  unfold statusReading at hstatus
  unfold taskIdReading at htaskId
  unfold agentIdReading at hagentId
  dsimp only at hstatus htaskId hagentId ⊢
  rw [hstatus]
  dsimp only
  rw [htaskId]
  dsimp only
  rw [hagentId]
  simp [jobAt, jobOf, jobReadings, statusReading, taskIdReading, agentIdReading, wanted, overrun,
    Nat.add_assoc, Bool.or_assoc]

theorem agentRow_reads : Reads agentRow (fun _ _ item => item.1) fun _ => [] := by
  intro item limits entries before t
  simp [agentRow, wanted, overrun]

theorem taskAt_whole (before : ℕ) (item : List Char × Directory)
    (h : before + wanted [stateReading item] < limit) : taskAt limit before item = wholeTask item := by
  rw [wanted_cons] at h
  unfold taskAt wholeTask
  rw [text_full _ _ (by omega) (by omega)]
  rfl

theorem jobAt_whole (before : ℕ) (item : List Char × Directory)
    (h : before + wanted (jobReadings item) < limit) : jobAt limit before item = wholeJob item := by
  unfold jobReadings at h
  rw [wanted_cons, wanted_cons, wanted_cons] at h
  unfold jobAt wholeJob
  dsimp only
  rw [text_full _ _ (by omega) (by omega), text_full _ _ (by omega) (by omega),
    text_full _ _ (by omega) (by omega)]
  rfl

variable {ignoredNames : List (List Char)}

theorem find_eq_directory {entry : Entry} {id : List Char} {directory : Directory}
    (h : entry.find ignoredNames = .directory id directory) :
    entry = ⟨some id, .directory directory⟩ := by
  obtain ⟨name, inspection⟩ := entry
  unfold Entry.find at h
  cases name with
  | none => cases h
  | some name =>
    dsimp only at h
    split_ifs at h
    cases inspection with
    | directory found =>
      cases h
      rfl
    | _ => cases h

theorem mem_directories {entries : List Entry} {item : List Char × Directory}
    (h : item ∈ directories ignoredNames entries) :
    (⟨some item.1, .directory item.2⟩ : Entry) ∈ entries := by
  obtain ⟨entry, hentry, hitem⟩ := List.mem_filterMap.mp h
  cases hfind : entry.find ignoredNames with
  | directory id directory =>
    rw [hfind] at hitem
    cases hitem
    rw [← find_eq_directory hfind]
    exact hentry
  | _ =>
    rw [hfind] at hitem
    cases hitem

theorem directories_sublist (entries : List Entry) :
    ((directories ignoredNames entries).map Prod.fst).Sublist (entries.filterMap Entry.name) := by
  induction entries with
  | nil => exact List.Sublist.slnil
  | cons entry rest ih =>
    unfold directories at ih ⊢
    rw [List.filterMap_cons, List.filterMap_cons]
    cases hfind : entry.find ignoredNames with
    | directory id directory =>
      rw [find_eq_directory hfind]
      exact ih.cons_cons id
    | _ =>
      cases entry.name with
      | none => exact ih
      | some name => exact ih.cons name

theorem Category.names_distinct (category : Category) :
    (category.entries.filterMap Entry.name).Nodup := by
  cases category with
  | listed entries distinct => exact distinct
  | _ => exact List.nodup_nil

/-- The directories of a category have distinct names. -/
theorem directories_nodup (category : Category) :
    ((directories ignoredNames category.entries).map Prod.fst).Nodup :=
  category.names_distinct.sublist (directories_sublist _)

theorem find?_name {entries : List Entry} (h : (entries.filterMap Entry.name).Nodup) {entry : Entry}
    {id : List Char} (hentry : entry ∈ entries) (hname : entry.name = some id) :
    entries.find? (fun entry => entry.name = some id) = some entry := by
  induction entries with
  | nil => cases hentry
  | cons first rest ih =>
    rw [List.find?_cons]
    rcases List.mem_cons.mp hentry with rfl | hentry
    · rw [decide_eq_true hname]
    · have hne : first.name ≠ some id := by
        intro hfirst
        rw [List.filterMap_cons, hfirst] at h
        exact (List.nodup_cons.mp h).1 (List.mem_filterMap.mpr ⟨entry, hentry, hname⟩)
      rw [decide_eq_false hne]
      refine ih ?_ hentry
      rw [List.filterMap_cons] at h
      cases hfirst : first.name with
      | none =>
        rw [hfirst] at h
        exact h
      | some name =>
        rw [hfirst] at h
        exact (List.nodup_cons.mp h).2

theorem child_of_mem {category : Category} {item : List Char × Directory}
    (h : item ∈ directories ignoredNames category.entries) :
    category.child item.1 = some item.2 := by
  have hfind := find?_name category.names_distinct (mem_directories h) rfl
  unfold Category.child
  rw [hfind]

/-- What the loop over a category notes down, all of its entries taken. -/
def categoryErrors (name : String) (ignoredNames : List (List Char)) : Category → List String
  | .unavailable => [s!"AgentWS queue directory is unavailable: {name}"]
  | .unopenable reason => [s!"cannot open AgentWS queue directory {name}: {reason}"]
  | .unlistable reason => [s!"cannot list queue directory: {reason}"]
  | .listed entries _ => findErrors ignoredNames entries

section
variable {body : List Char → Directory → ScanBudget → ρ × ScanBudget}
  {value : ℕ → ℕ → List Char × Directory → ρ} {readings : List Char × Directory → List Reading}

theorem scanCategory_fits (h : Reads body value readings) (name : String) (category : Category)
    (errors : List String) (hfit : entries + category.entries.length ≤ limits.maxEntries) :
    scanCategory body name ignoredNames category (budgetAt limits entries before t) errors =
      (rowsFrom (value limits.maxReadBytes) readings before
          (directories ignoredNames category.entries),
        budgetAt limits (entries + category.entries.length)
          (before + wanted ((directories ignoredNames category.entries).flatMap readings))
          (t || overrun limits.maxReadBytes before
            ((directories ignoredNames category.entries).flatMap readings)),
        errors ++ categoryErrors name ignoredNames category) := by
  cases category with
  | listed listed distinct => exact iterQueueDirectories_fits h listed errors hfit
  | _ =>
    simp [scanCategory, Category.entries, directories, rowsFrom, wanted, overrun, categoryErrors]

theorem scanCategory_budget (h : Reads body value readings) (name : String) (category : Category)
    (errors : List String) (hentries : entries ≤ limits.maxEntries) :
    ∃ entries' before' t', (scanCategory body name ignoredNames category
        (budgetAt limits entries before t) errors).2.1 = budgetAt limits entries' before' t' ∧
      entries' ≤ limits.maxEntries ∧
      (t = true ∨ limits.maxEntries < entries + category.entries.length → t' = true) ∧
      (entries + category.entries.length ≤ limits.maxEntries →
        entries' = entries + category.entries.length) := by
  cases category with
  | listed listed distinct => exact iterQueueDirectories_budget h listed errors hentries
  | _ =>
    refine ⟨entries, before, t, rfl, hentries, fun ht => ht.resolve_right ?_, fun _ => rfl⟩
    exact not_lt.mpr hentries

end

/-- The directory of a task, as `child` opens it. -/
def directoryOf (tasks : Category) (id : List Char) : Directory := (tasks.child id).getD ⟨0, []⟩

def specReading (tasks : Category) (row : TaskRow) : Reading :=
  ⟨directoryOf tasks row.id, "spec.md", 4096⟩

def recentAt (tasks : Category) (limit before : ℕ) (row : TaskRow) : RecentTask :=
  ⟨row, firstTitle ((specReading tasks row).text [] limit before) row.id⟩

def wholeRecent (tasks : Category) (row : TaskRow) : RecentTask :=
  ⟨row, firstTitle ((directoryOf tasks row.id).text "spec.md" [] 4096) row.id⟩

theorem recentAt_whole {tasks : Category} (before : ℕ) (row : TaskRow)
    (h : before + wanted [specReading tasks row] < limit) :
    recentAt tasks limit before row = wholeRecent tasks row := by
  rw [wanted_cons] at h
  unfold recentAt wholeRecent
  rw [text_full _ _ (by omega) (by omega)]
  rfl

theorem titledTasks_budgetAt {tasks : Category} (rows : List TaskRow)
    (hrows : ∀ row ∈ rows, (tasks.child row.id).isSome = true) :
    titledTasks tasks rows (budgetAt limits entries before t) =
      (rowsFrom (recentAt tasks limits.maxReadBytes) (fun row => [specReading tasks row]) before rows,
        budgetAt limits entries
          (before + wanted (rows.flatMap fun row => [specReading tasks row]))
          (t || overrun limits.maxReadBytes before
            (rows.flatMap fun row => [specReading tasks row]))) := by
  induction rows generalizing before t with
  | nil => simp [titledTasks, rowsFrom, wanted, overrun]
  | cons row rest ih =>
    obtain ⟨directory, hchild⟩ := Option.isSome_iff_exists.mp (hrows row List.mem_cons_self)
    have hdirectory : directoryOf tasks row.id = directory := by
      unfold directoryOf
      rw [hchild, Option.getD_some]
    have hread := readRegular_budgetAt (specReading tasks row) [] limits entries before t
      (Nat.zero_lt_succ _)
    unfold specReading at hread
    rw [hdirectory] at hread
    dsimp only at hread
    unfold titledTasks
    rw [hchild]
    dsimp only
    rw [hread]
    dsimp only
    rw [ih fun row hrow => hrows row (List.mem_cons_of_mem _ hrow)]
    rw [List.flatMap_cons, wanted_append, overrun_append, rowsFrom, Nat.add_assoc before,
      Bool.or_assoc]
    simp [recentAt, specReading, hdirectory, wanted, overrun]

end Cyclo.Team.Queue
