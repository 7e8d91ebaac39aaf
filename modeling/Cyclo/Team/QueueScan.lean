import Cyclo.Team.QueueReads

/-! The limits of the queue scan: what is taken and read never exceeds them, and the one place where a
file is read in part and the scan does not say so. -/
namespace Cyclo.Team.Queue
open Python

variable {limits : QueueLimits} {limit before entries : ℕ} {t : Bool} {ι ρ : Type}
  {ignoredNames : List (List Char)}

/-- What the order of rows depends on. -/
def TaskRow.stamp (row : TaskRow) : List Char × ℚ := (row.id, row.updatedTs)

theorem map_sortedBy {α β κ : Type} [LinearOrder κ] (f : α → β) (key : α → κ) (key' : β → κ)
    (values : List α) (h : ∀ a ∈ values, key' (f a) = key a) :
    (sortedBy key values).map f = sortedBy key' (values.map f) := by
  unfold sortedBy
  refine List.map_insertionSort _ _ _ _ ?_
  intro a ha b hb
  rw [h a ha, h b hb]

theorem recentRows_stamps (rows : List TaskRow) (limits : QueueLimits) :
    (recentRows rows limits).map TaskRow.stamp =
      (sortedBy (fun stamp => recency stamp.2 stamp.1) (rows.map TaskRow.stamp)).take
        limits.recentTasks := by
  unfold recentRows
  rw [List.map_take, map_sortedBy TaskRow.stamp _ (fun stamp => recency stamp.2 stamp.1) rows]
  intro row _
  rfl

theorem mem_recentRows {rows : List TaskRow} {row : TaskRow} (h : row ∈ recentRows rows limits) :
    row ∈ rows := (sortedBy_perm _ rows).mem_iff.mp (List.mem_of_mem_take h)

theorem rowsFrom_map {σ : Type} {value : ℕ → ι → ρ} {readings : ι → List Reading} (key : ρ → σ)
    (key' : ι → σ) (hkey : ∀ before item, key (value before item) = key' item) (items : List ι) :
    (rowsFrom value readings before items).map key = items.map key' := by
  induction items generalizing before with
  | nil => rfl
  | cons item rest ih => rw [rowsFrom, List.map_cons, List.map_cons, hkey, ih]

variable {tasks jobs agents : Category}

def taskItems (tasks : Category) : List (List Char × Directory) := directories [] tasks.entries

def jobItems (jobs : Category) : List (List Char × Directory) := directories [] jobs.entries

def agentIds (agents : Category) : List (List Char) :=
  (directories [supervisorDirectory] agents.entries).map Prod.fst

def wholeTasks (tasks : Category) : List TaskRow := (taskItems tasks).map wholeTask

def wholeJobs (jobs : Category) : List JobRow := (jobItems jobs).map wholeJob

def tasksAt (tasks : Category) (limit : ℕ) : List TaskRow :=
  rowsFrom (taskAt limit) (fun item => [stateReading item]) 0 (taskItems tasks)

def taskReadings (tasks : Category) : List Reading :=
  (taskItems tasks).flatMap fun item => [stateReading item]

def jobsAt (tasks jobs : Category) (limit : ℕ) : List JobRow :=
  rowsFrom (jobAt limit) jobReadings (wanted (taskReadings tasks)) (jobItems jobs)

/-- The files that are read before the titles. -/
def rowReadings (tasks jobs : Category) : List Reading :=
  taskReadings tasks ++ (jobItems jobs).flatMap jobReadings

def titleReadings (tasks : Category) (rows : List TaskRow) : List Reading :=
  rows.flatMap fun row => [specReading tasks row]

/-- All files that are read, in their order. -/
def readings (tasks jobs : Category) (limits : QueueLimits) : List Reading :=
  rowReadings tasks jobs ++ titleReadings tasks (recentRows (wholeTasks tasks) limits)

def titlesAt (tasks jobs : Category) (limits : QueueLimits) (limit : ℕ) : List RecentTask :=
  rowsFrom (recentAt tasks limit) (fun row => [specReading tasks row])
    (wanted (rowReadings tasks jobs)) (recentRows (tasksAt tasks limit) limits)

/-- Counts and recent rows. -/
structure View where
  counts : Counts
  recentTasks : List RecentTask
  recentActivity : List Activity

def QueueScan.view (scan : QueueScan) : View :=
  ⟨scan.counts, scan.recentTasks, scan.recentActivity⟩

/-- What is shown where `limit` bytes may be read, and where nothing limits the reading. -/
def viewAt (tasks jobs agents : Category) (limits : QueueLimits) (limit : ℕ) : View where
  counts := countRows (tasksAt tasks limit) (jobsAt tasks jobs limit) (agentIds agents)
  recentTasks := titlesAt tasks jobs limits limit
  recentActivity := recentActivity (tasksAt tasks limit) (jobsAt tasks jobs limit) limits

def wholeView (tasks jobs agents : Category) (limits : QueueLimits) : View where
  counts := countRows (wholeTasks tasks) (wholeJobs jobs) (agentIds agents)
  recentTasks := (recentRows (wholeTasks tasks) limits).map (wholeRecent tasks)
  recentActivity := recentActivity (wholeTasks tasks) (wholeJobs jobs) limits

/-- The entries of the three categories. -/
def entryCount (tasks jobs agents : Category) : ℕ :=
  tasks.entries.length + jobs.entries.length + agents.entries.length

theorem tasksAt_stamps (tasks : Category) (limit : ℕ) :
    (tasksAt tasks limit).map TaskRow.stamp = (wholeTasks tasks).map TaskRow.stamp := by
  have hstamp : ∀ before item, (taskAt limit before item).stamp = (wholeTask item).stamp :=
    fun _ _ => rfl
  unfold tasksAt wholeTasks
  rw [rowsFrom_map TaskRow.stamp _ hstamp, List.map_map]
  rfl

theorem titleReadings_stamps {rows rows' : List TaskRow}
    (h : rows.map TaskRow.stamp = rows'.map TaskRow.stamp) :
    titleReadings tasks rows = titleReadings tasks rows' := by
  have hids : ∀ rows : List TaskRow, titleReadings tasks rows = (rows.map TaskRow.stamp).flatMap
      fun stamp => [⟨directoryOf tasks stamp.1, "spec.md", 4096⟩] := by
    intro rows
    rw [List.flatMap_map]
    rfl
  rw [hids, hids, h]

theorem titleReadings_tasksAt (tasks : Category) (limits : QueueLimits) (limit : ℕ) :
    titleReadings tasks (recentRows (tasksAt tasks limit) limits) =
      titleReadings tasks (recentRows (wholeTasks tasks) limits) := by
  apply titleReadings_stamps
  rw [recentRows_stamps, recentRows_stamps, tasksAt_stamps]

theorem child_tasksAt {row : TaskRow} (h : row ∈ tasksAt tasks limit) :
    (tasks.child row.id).isSome = true := by
  have hstamp : row.stamp ∈ (tasksAt tasks limit).map TaskRow.stamp := List.mem_map_of_mem h
  rw [tasksAt_stamps, wholeTasks, List.map_map] at hstamp
  obtain ⟨item, hitem, heq⟩ := List.mem_map.mp hstamp
  have hid : item.1 = row.id := congrArg Prod.fst heq
  rw [← hid, child_of_mem hitem]
  rfl

/-- The budget once the rows are read. -/
def rowBudget (tasks jobs agents : Category) (limits : QueueLimits) : ScanBudget :=
  budgetAt limits (entryCount tasks jobs agents) (wanted (rowReadings tasks jobs))
    (overrun limits.maxReadBytes 0 (rowReadings tasks jobs))

theorem scanTasks_fits (hfit : tasks.entries.length ≤ limits.maxEntries) :
    scanCategory taskRow "tasks" [] tasks ⟨limits, 0, 0, false⟩ [] =
      (tasksAt tasks limits.maxReadBytes,
        budgetAt limits tasks.entries.length (wanted (taskReadings tasks))
          (overrun limits.maxReadBytes 0 (taskReadings tasks)),
        categoryErrors "tasks" [] tasks) := by
  have hstart : (⟨limits, 0, 0, false⟩ : ScanBudget) = budgetAt limits 0 0 false := by
    simp [budgetAt]
  rw [hstart, scanCategory_fits taskRow_reads "tasks" tasks [] (by omega), Nat.zero_add, Nat.zero_add,
    Bool.false_or, List.nil_append]
  rfl

theorem scanJobs_fits (errors : List String)
    (hfit : tasks.entries.length + jobs.entries.length ≤ limits.maxEntries) :
    scanCategory jobRow "jobs" [] jobs
        (budgetAt limits tasks.entries.length (wanted (taskReadings tasks))
          (overrun limits.maxReadBytes 0 (taskReadings tasks))) errors =
      (jobsAt tasks jobs limits.maxReadBytes,
        budgetAt limits (tasks.entries.length + jobs.entries.length)
          (wanted (rowReadings tasks jobs))
          (overrun limits.maxReadBytes 0 (rowReadings tasks jobs)),
        errors ++ categoryErrors "jobs" [] jobs) := by
  rw [scanCategory_fits jobRow_reads "jobs" jobs errors hfit]
  unfold rowReadings
  rw [wanted_append, overrun_append, Nat.zero_add]
  rfl

theorem scanAgents_fits (errors : List String)
    (hfit : entryCount tasks jobs agents ≤ limits.maxEntries) :
    scanCategory agentRow "agents" [supervisorDirectory] agents
        (budgetAt limits (tasks.entries.length + jobs.entries.length)
          (wanted (rowReadings tasks jobs))
          (overrun limits.maxReadBytes 0 (rowReadings tasks jobs))) errors =
      (agentIds agents, rowBudget tasks jobs agents limits,
        errors ++ categoryErrors "agents" [supervisorDirectory] agents) := by
  have hids : ∀ before (items : List (List Char × Directory)),
      rowsFrom (fun _ item => item.1) (fun _ => []) before items = items.map Prod.fst := by
    intro before items
    have hmap : (rowsFrom (fun _ (item : List Char × Directory) => item.1) (fun _ => []) before
        items).map id = items.map Prod.fst := rowsFrom_map id Prod.fst (fun _ _ => rfl) items
    rw [List.map_id] at hmap
    exact hmap
  have hnothing : ((directories [supervisorDirectory] agents.entries).flatMap fun _ =>
      ([] : List Reading)) = [] := by simp
  rw [scanCategory_fits agentRow_reads "agents" agents errors hfit, hids, hnothing]
  simp [rowBudget, entryCount, agentIds, wanted, overrun]

theorem titledTasks_fits :
    titledTasks tasks (recentRows (tasksAt tasks limits.maxReadBytes) limits)
        (rowBudget tasks jobs agents limits) =
      (titlesAt tasks jobs limits limits.maxReadBytes,
        budgetAt limits (entryCount tasks jobs agents) (wanted (readings tasks jobs limits))
          (overrun limits.maxReadBytes 0 (readings tasks jobs limits))) := by
  unfold rowBudget
  rw [titledTasks_budgetAt _ fun row hrow => child_tasksAt (mem_recentRows hrow)]
  have htitles := titleReadings_tasksAt tasks limits limits.maxReadBytes
  unfold titleReadings at htitles
  unfold readings
  rw [htitles, wanted_append, overrun_append, Nat.zero_add]
  rfl

theorem scan_fits (hfit : entryCount tasks jobs agents ≤ limits.maxEntries) :
    (scanAgentwsQueue (.opened tasks jobs agents) limits).1.view =
        viewAt tasks jobs agents limits limits.maxReadBytes ∧
      (scanAgentwsQueue (.opened tasks jobs agents) limits).2 =
        budgetAt limits (entryCount tasks jobs agents) (wanted (readings tasks jobs limits))
          (overrun limits.maxReadBytes 0 (readings tasks jobs limits)) := by
  have hjobs : tasks.entries.length + jobs.entries.length ≤ limits.maxEntries := by
    unfold entryCount at hfit
    omega
  unfold scanAgentwsQueue
  dsimp only
  rw [scanTasks_fits (by omega)]
  dsimp only
  rw [scanJobs_fits _ hjobs]
  dsimp only
  rw [scanAgents_fits _ hfit]
  dsimp only
  rw [titledTasks_fits]
  exact ⟨rfl, rfl⟩

theorem titledTasks_budget (rows : List TaskRow) :
    ∃ before' t', (titledTasks tasks rows (budgetAt limits entries before t)).2 =
      budgetAt limits entries before' t' ∧ (t = true → t' = true) := by
  induction rows generalizing before t with
  | nil => exact ⟨before, t, rfl, id⟩
  | cons row rest ih =>
    unfold titledTasks
    cases tasks.child row.id with
    | none => exact ih
    | some directory =>
      have hread := readRegular_budgetAt ⟨directory, "spec.md", 4096⟩ [] limits entries before t
        (Nat.zero_lt_succ _)
      dsimp only at hread ⊢
      rw [hread]
      obtain ⟨before', t', heq, ht⟩ := @ih (before + (⟨directory, "spec.md", 4096⟩ : Reading).want)
        (t || limits.maxReadBytes ≤ before)
      refine ⟨before', t', heq, fun h => ht ?_⟩
      rw [h, Bool.true_or]

/-- No scan takes or reads more than its limits, and one that leaves entries over notes it. -/
theorem scan_budget (tasks jobs agents : Category) (limits : QueueLimits) :
    ∃ entries before t, (scanAgentwsQueue (.opened tasks jobs agents) limits).2 =
        budgetAt limits entries before t ∧
      entries ≤ limits.maxEntries ∧
      (limits.maxEntries < entryCount tasks jobs agents → t = true) := by
  have hstart : (⟨limits, 0, 0, false⟩ : ScanBudget) = budgetAt limits 0 0 false := by
    simp [budgetAt]
  unfold scanAgentwsQueue entryCount
  dsimp only
  rw [hstart]
  obtain ⟨n₁, b₁, t₁, heq₁, hn₁, ht₁, hall₁⟩ := @scanCategory_budget limits 0 0 false _ [] _ _ _
    taskRow_reads "tasks" tasks [] (Nat.zero_le _)
  rw [heq₁]
  generalize (scanCategory taskRow "tasks" [] tasks (budgetAt limits 0 0 false) []).2.2 = errors₁
  obtain ⟨n₂, b₂, t₂, heq₂, hn₂, ht₂, hall₂⟩ := @scanCategory_budget limits b₁ n₁ t₁ _ [] _ _ _
    jobRow_reads "jobs" jobs errors₁ hn₁
  rw [heq₂]
  generalize (scanCategory jobRow "jobs" [] jobs (budgetAt limits n₁ b₁ t₁) errors₁).2.2 = errors₂
  obtain ⟨n₃, b₃, t₃, heq₃, hn₃, ht₃, hall₃⟩ := @scanCategory_budget limits b₂ n₂ t₂ _
    [supervisorDirectory] _ _ _ agentRow_reads "agents" agents errors₂ hn₂
  rw [heq₃]
  generalize (scanCategory taskRow "tasks" [] tasks (budgetAt limits 0 0 false) []).1 = taskRows
  obtain ⟨b₄, t₄, heq₄, ht₄⟩ := @titledTasks_budget limits b₃ n₃ t₃ tasks (recentRows taskRows limits)
  rw [heq₄]
  refine ⟨n₃, b₄, t₄, rfl, hn₃, fun hover => ht₄ (ht₃ ?_)⟩
  by_cases hfirst : limits.maxEntries < 0 + tasks.entries.length
  · exact .inl (ht₂ (.inl (ht₁ (.inr hfirst))))
  · have hcount₁ := hall₁ (by omega)
    by_cases hsecond : limits.maxEntries < n₁ + jobs.entries.length
    · exact .inl (ht₂ (.inr hsecond))
    · have hcount₂ := hall₂ (by omega)
      exact .inr (by omega)

theorem head_append {s : String} {c : Char} (h : s.toList.head? = some c) (rest : String) :
    (s ++ rest).toList.head? = some c := by
  rw [String.toList_append, List.head?_append, h]
  rfl

theorem head_truncationError (limits : QueueLimits) :
    (truncationError limits).toList.head? = some 'q' :=
  head_append (head_append (head_append (head_append rfl _) _) _) _

theorem head_digits (n : ℕ) : ∃ c, (toString n).toList.head? = some c ∧ c.isDigit = true := by
  rw [Nat.toString_eq_repr, Nat.toList_repr]
  have hne : Nat.toDigits 10 n ≠ [] := Nat.toDigits_ne_nil
  refine ⟨_, List.head?_eq_some_head hne, ?_⟩
  exact Nat.isDigit_of_mem_toDigits (by decide) (by decide) (List.head_mem hne)

/-- An error that is not the one about truncation. -/
def Other (error : String) : Prop := ∀ limits, error ≠ truncationError limits

theorem other_of_head {error : String} {c : Char} (h : error.toList.head? = some c) (hc : c ≠ 'q') :
    Other error := by
  intro limits heq
  rw [heq, head_truncationError] at h
  exact hc (Option.some_inj.mp h).symm

theorem other_unknownJobsError (count : ℕ) : Other (unknownJobsError count) := by
  unfold unknownJobsError
  split_ifs
  · exact other_of_head (c := '1') rfl (by decide)
  · obtain ⟨c, hhead, hdigit⟩ := head_digits count
    refine other_of_head (head_append hhead _) ?_
    rintro rfl
    exact absurd hdigit (by decide)

theorem other_unknownTasksError (count : ℕ) : Other (unknownTasksError count) := by
  unfold unknownTasksError
  split_ifs
  · exact other_of_head (c := '1') rfl (by decide)
  · obtain ⟨c, hhead, hdigit⟩ := head_digits count
    refine other_of_head (head_append hhead _) ?_
    rintro rfl
    exact absurd hdigit (by decide)

theorem other_findErrors {listed : List Entry} {error : String}
    (h : error ∈ findErrors ignoredNames listed) : Other error := by
  obtain ⟨entry, -, hfind⟩ := List.mem_filterMap.mp h
  cases hentry : entry.find ignoredNames with
  | failed found =>
    rw [hentry] at hfind
    cases hfind
    have hunsafe : Other "ignored an unsafe queue entry name" :=
      other_of_head (c := 'i') rfl (by decide)
    unfold Entry.find at hentry
    split at hentry
    · cases hentry
      exact hunsafe
    · split_ifs at hentry
      · split at hentry
        · cases hentry
        · cases hentry
        · cases hentry
          exact other_of_head (c := 'c') (head_append (head_append (head_append rfl _) _) _)
            (by decide)
        · cases hentry
      · cases hentry
        exact hunsafe
  | _ =>
    rw [hentry] at hfind
    cases hfind

theorem other_categoryErrors {name : String} {category : Category} {error : String}
    (h : error ∈ categoryErrors name ignoredNames category) : Other error := by
  cases category with
  | listed listed distinct => exact other_findErrors h
  | unavailable =>
    cases List.mem_singleton.mp h
    exact other_of_head (c := 'A') (head_append rfl _) (by decide)
  | unopenable reason =>
    cases List.mem_singleton.mp h
    exact other_of_head (c := 'c') (head_append (head_append (head_append rfl _) _) _) (by decide)
  | unlistable reason =>
    cases List.mem_singleton.mp h
    exact other_of_head (c := 'c') (head_append rfl _) (by decide)

theorem truncationError_mem
    (h : (scanAgentwsQueue (.opened tasks jobs agents) limits).2.truncated = true) :
    truncationError limits ∈ (scanAgentwsQueue (.opened tasks jobs agents) limits).1.errors := by
  unfold scanAgentwsQueue at h ⊢
  dsimp only at h ⊢
  rw [List.mem_eraseDups, if_pos h]
  simp

/-- Nothing else is taken for the error. -/
theorem truncationError_not_mem (hfit : entryCount tasks jobs agents ≤ limits.maxEntries)
    (h : (scanAgentwsQueue (.opened tasks jobs agents) limits).2.truncated = false) :
    truncationError limits ∉ (scanAgentwsQueue (.opened tasks jobs agents) limits).1.errors := by
  have hjobs : tasks.entries.length + jobs.entries.length ≤ limits.maxEntries := by
    unfold entryCount at hfit
    omega
  unfold scanAgentwsQueue at h ⊢
  dsimp only at h ⊢
  rw [List.mem_eraseDups, h, if_neg (by decide), scanTasks_fits (by omega)]
  dsimp only
  rw [scanJobs_fits _ hjobs]
  dsimp only
  rw [scanAgents_fits _ hfit]
  dsimp only
  rw [List.append_nil, List.mem_append, List.mem_append, List.mem_append, List.mem_append]
  rintro ((((herror | herror) | herror) | herror) | herror)
  · exact other_categoryErrors herror limits rfl
  · exact other_categoryErrors herror limits rfl
  · exact other_categoryErrors herror limits rfl
  · split_ifs at herror
    · cases herror
    · exact other_unknownJobsError _ limits (List.mem_singleton.mp herror).symm
  · split_ifs at herror
    · cases herror
    · exact other_unknownTasksError _ limits (List.mem_singleton.mp herror).symm

theorem tasksAt_whole (h : wanted (taskReadings tasks) < limit) :
    tasksAt tasks limit = wholeTasks tasks :=
  rowsFrom_full taskAt_whole _ (by rw [Nat.zero_add]; exact h)

theorem wanted_rowReadings (tasks jobs : Category) : wanted (rowReadings tasks jobs) =
    wanted (taskReadings tasks) + wanted ((jobItems jobs).flatMap jobReadings) :=
  wanted_append _ _

theorem jobsAt_whole (h : wanted (rowReadings tasks jobs) < limit) :
    jobsAt tasks jobs limit = wholeJobs jobs := by
  rw [wanted_rowReadings] at h
  exact rowsFrom_full jobAt_whole _ h

theorem wanted_readings : wanted (readings tasks jobs limits) = wanted (rowReadings tasks jobs) +
    wanted (titleReadings tasks (recentRows (wholeTasks tasks) limits)) :=
  wanted_append _ _

theorem viewAt_whole (h : wanted (readings tasks jobs limits) < limit) :
    viewAt tasks jobs agents limits limit = wholeView tasks jobs agents limits := by
  rw [wanted_readings] at h
  have hrows := h
  rw [wanted_rowReadings] at hrows
  have htasks : tasksAt tasks limit = wholeTasks tasks := tasksAt_whole (by omega)
  have htitles : titlesAt tasks jobs limits limit =
      (recentRows (wholeTasks tasks) limits).map (wholeRecent tasks) := by
    unfold titlesAt
    rw [htasks]
    exact rowsFrom_full recentAt_whole _ h
  unfold viewAt wholeView
  rw [htasks, jobsAt_whole (by omega), htitles]

/-- A job of this status and agent makes the agent active, which it is not for other jobs. -/
def AddsActive (agents : Category) (others : List JobRow) (status : JobStatus)
    (agent : List Char) : Prop :=
  (status = .claimed ∨ status = .running) ∧ agent ≠ [] ∧ agent ∈ agentIds agents ∧
    agent ∉ activeAgentIds others

/-- The first bytes of the owner of the last job do for the owner: they name the same agent, or the job
is not among the recent rows and counts the same. -/
def OwnerUnseen (tasks jobs agents : Category) (limits : QueueLimits)
    (item : List Char × Directory) (allowance : ℕ) : Prop :=
  let others := (jobItems jobs).dropLast.map wholeJob
  let seen := strip (item.2.text "agent-id" [] (min 128 allowance))
  let owner := strip (item.2.text "agent-id" [] 128)
  seen = owner ∨
    Activity.job (wholeJob item) ∉ recentActivity (wholeTasks tasks) (wholeJobs jobs) limits ∧
      (AddsActive agents others (wholeJob item).status seen ↔
        AddsActive agents others (wholeJob item).status owner)

/-- The first bytes of the last file do for the file: of the specification of the last recent task,
else of the owner of the last job, else of the state of the last task. -/
def CutUnseen (tasks jobs agents : Category) (limits : QueueLimits) (allowance : ℕ) : Prop :=
  match (recentRows (wholeTasks tasks) limits).getLast? with
  | some row =>
    firstTitle ((directoryOf tasks row.id).text "spec.md" [] (min 4096 allowance)) row.id =
      firstTitle ((directoryOf tasks row.id).text "spec.md" [] 4096) row.id
  | none =>
    match (jobItems jobs).getLast? with
    | some item => OwnerUnseen tasks jobs agents limits item allowance
    | none =>
      match (taskItems tasks).getLast? with
      | some item =>
        taskState (item.2.text "state" "unknown".toList (min 128 allowance)) =
          taskState (item.2.text "state" "unknown".toList 128)
      | none => True

theorem countP_concat {l xs : List (List Char)} (hl : l.Nodup) (x : List Char) :
    l.countP (· ∈ xs ++ [x]) = l.countP (· ∈ xs) + if x ∈ l ∧ x ∉ xs then 1 else 0 := by
  induction l with
  | nil => simp
  | cons a rest ih =>
    rw [List.nodup_cons] at hl
    rw [List.countP_cons, List.countP_cons, ih hl.2]
    by_cases hax : a = x
    · subst hax
      by_cases hmem : a ∈ xs <;> simp [hmem, hl.1]
    · by_cases hmem : a ∈ xs
      · simp [hmem, hax, Ne.symm hax]
        omega
      · simp [hmem, hax, Ne.symm hax]

instance decidableAddsActive (agents : Category) (others : List JobRow) (status : JobStatus)
    (agent : List Char) : Decidable (AddsActive agents others status agent) :=
  inferInstanceAs (Decidable (_ ∧ _ ∧ _ ∧ _))

theorem active_concat (agents : Category) (others : List JobRow) (row : JobRow) :
    (agentIds agents).dedup.countP (· ∈ activeAgentIds (others ++ [row])) =
      (agentIds agents).dedup.countP (· ∈ activeAgentIds others) +
        if AddsActive agents others row.status row.agentId then 1 else 0 := by
  have hids : activeAgentIds (others ++ [row]) = activeAgentIds others ++
      if (row.status = .claimed ∨ row.status = .running) ∧ row.agentId ≠ [] then [row.agentId]
      else [] := by
    unfold activeAgentIds
    rw [List.filter_append, List.map_append, List.filter_singleton]
    by_cases h : (row.status = .claimed ∨ row.status = .running) ∧ row.agentId ≠ []
    · rw [if_pos h]
      simp [h]
    · rw [if_neg h]
      simp [h]
  rw [hids]
  by_cases h : (row.status = .claimed ∨ row.status = .running) ∧ row.agentId ≠ []
  · have hadds : AddsActive agents others row.status row.agentId ↔
        row.agentId ∈ (agentIds agents).dedup ∧ row.agentId ∉ activeAgentIds others := by
      rw [List.mem_dedup]
      exact ⟨fun hadds => hadds.2.2, fun hmem => ⟨h.1, h.2, hmem⟩⟩
    rw [if_pos h, countP_concat (List.nodup_dedup _), if_congr hadds rfl rfl]
  · have hnot : ¬ AddsActive agents others row.status row.agentId :=
      fun hadds => h ⟨hadds.1, hadds.2.1⟩
    rw [if_neg h, if_neg hnot, List.append_nil, Nat.add_zero]

theorem countRows_owner (taskRows : List TaskRow) (others : List JobRow) (row : JobRow)
    (seen : List Char) :
    countRows taskRows (others ++ [{ row with agentId := seen }]) (agentIds agents) =
        countRows taskRows (others ++ [row]) (agentIds agents) ↔
      (AddsActive agents others row.status seen ↔
        AddsActive agents others row.status row.agentId) := by
  have hactive := active_concat agents others { row with agentId := seen }
  have hactive' := active_concat agents others row
  dsimp only at hactive
  unfold countRows
  rw [Counts.mk.injEq, hactive, hactive']
  constructor
  · intro h
    have hcount := h.2.2.2.2.2
    by_cases hseen : AddsActive agents others row.status seen <;>
      by_cases howner : AddsActive agents others row.status row.agentId <;>
      simp [hseen, howner] at hcount ⊢
  · intro h
    refine ⟨rfl, rfl, ?_, ?_, rfl, ?_⟩
    · rw [List.length_append, List.length_append, List.length_singleton, List.length_singleton]
    · funext status
      rw [List.countP_append, List.countP_append, List.countP_singleton, List.countP_singleton]
    · rw [if_congr h rfl rfl]

/-- Another owner for the job of an identifier. -/
def Activity.withOwner (id seen : List Char) : Activity → Activity
  | .task row => .task row
  | .job row => .job (if row.id = id then { row with agentId := seen } else row)

theorem map_eq_self_iff {f : ι → ι} {l : List ι} : l.map f = l ↔ ∀ a ∈ l, f a = a := by
  have h := List.map_inj_left (l := l) (f := f) (g := id)
  rw [List.map_id] at h
  exact h

theorem withOwner_job (id seen : List Char) (row : JobRow) :
    (Activity.job row).withOwner id seen =
      .job (if row.id = id then { row with agentId := seen } else row) := rfl

theorem withOwner_recency (id seen : List Char) (activity : Activity) :
    recency (activity.withOwner id seen).updatedTs (activity.withOwner id seen).id =
      recency activity.updatedTs activity.id := by
  cases activity with
  | task row => rfl
  | job row =>
    rw [withOwner_job]
    split_ifs <;> rfl

theorem recentActivity_withOwner (taskRows : List TaskRow) (jobRows : List JobRow)
    (id seen : List Char) (limits : QueueLimits) :
    (recentActivity taskRows jobRows limits).map (Activity.withOwner id seen) =
      recentActivity taskRows (jobRows.map fun row =>
        if row.id = id then { row with agentId := seen } else row) limits := by
  unfold recentActivity
  rw [List.map_take, map_sortedBy (Activity.withOwner id seen)
    (fun activity => recency activity.updatedTs activity.id)
    (fun activity => recency activity.updatedTs activity.id) _
    fun activity _ => withOwner_recency id seen activity]
  rw [List.map_append, List.map_map, List.map_map, List.map_map]
  rfl

theorem mem_recentActivity {taskRows : List TaskRow} {jobRows : List JobRow} {row : JobRow}
    (h : Activity.job row ∈ recentActivity taskRows jobRows limits) : row ∈ jobRows := by
  have hmem := (sortedBy_perm _ _).mem_iff.mp (List.mem_of_mem_take h)
  rcases List.mem_append.mp hmem with hmem | hmem
  · obtain ⟨task, -, heq⟩ := List.mem_map.mp hmem
    cases heq
  · obtain ⟨job, hjob, heq⟩ := List.mem_map.mp hmem
    cases heq
    exact hjob

/-- The owner of a job shows among the recent rows where the job is one of them. -/
theorem recentActivity_owner (taskRows : List TaskRow) {others : List JobRow} {row : JobRow}
    (hid : ∀ other ∈ others, other.id ≠ row.id) (seen : List Char) (limits : QueueLimits) :
    recentActivity taskRows (others ++ [{ row with agentId := seen }]) limits =
        recentActivity taskRows (others ++ [row]) limits ↔
      seen = row.agentId ∨ Activity.job row ∉ recentActivity taskRows (others ++ [row]) limits := by
  have hothers : others.map (fun other =>
      if other.id = row.id then { other with agentId := seen } else other) = others := by
    rw [map_eq_self_iff]
    intro other hother
    rw [if_neg (hid other hother)]
  have hrows : others ++ [{ row with agentId := seen }] = (others ++ [row]).map fun other =>
      if other.id = row.id then { other with agentId := seen } else other := by
    rw [List.map_append, hothers, List.map_singleton, if_pos rfl]
  rw [hrows, ← recentActivity_withOwner, map_eq_self_iff]
  constructor
  · intro h
    refine or_iff_not_imp_right.mpr fun hmem => ?_
    have hfixed := h _ (not_not.mp hmem)
    rw [withOwner_job, if_pos rfl, Activity.job.injEq] at hfixed
    exact congrArg JobRow.agentId hfixed
  · intro h activity hactivity
    cases activity with
    | task task => rfl
    | job job =>
      rw [withOwner_job]
      split_ifs with hsame
      · rcases List.mem_append.mp (mem_recentActivity hactivity) with hjob | hjob
        · exact absurd hsame (hid job hjob)
        · cases List.mem_singleton.mp hjob
          rw [h.resolve_right (not_not.mpr hactivity)]
      · rfl

theorem text_of_lt (r : Reading) (default : List Char) (hbefore : before < limit) :
    r.text default limit before =
      r.directory.text r.name default (min r.maxBytes (limit - before)) :=
  if_neg (Nat.not_le.mpr hbefore)

section
variable {items : List (List Char × Directory)} {item : List Char × Directory}

/-- The last file is the specification of a task. -/
theorem viewAt_title {rows : List TaskRow} {row : TaskRow}
    (hrecent : recentRows (wholeTasks tasks) limits = rows ++ [row])
    (h : wanted (rowReadings tasks jobs ++ titleReadings tasks rows) < limit) :
    viewAt tasks jobs agents limits limit = wholeView tasks jobs agents limits ↔
      firstTitle ((directoryOf tasks row.id).text "spec.md" [] (min 4096
          (limit - wanted (rowReadings tasks jobs ++ titleReadings tasks rows)))) row.id =
        firstTitle ((directoryOf tasks row.id).text "spec.md" [] 4096) row.id := by
  have hbefore := wanted_append (rowReadings tasks jobs) (titleReadings tasks rows)
  have hrows := wanted_rowReadings tasks jobs
  have htasks : tasksAt tasks limit = wholeTasks tasks := tasksAt_whole (by omega)
  have hjobs : jobsAt tasks jobs limit = wholeJobs jobs := jobsAt_whole (by omega)
  have htitles : titlesAt tasks jobs limits limit = rows.map (wholeRecent tasks) ++
      [recentAt tasks limit (wanted (rowReadings tasks jobs ++ titleReadings tasks rows)) row] := by
    unfold titlesAt
    rw [htasks, hrecent, rowsFrom_append, hbefore]
    rw [hbefore] at h
    rw [rowsFrom_full recentAt_whole rows h]
    rfl
  unfold viewAt wholeView
  rw [htasks, hjobs, htitles, hrecent, List.map_append, List.map_singleton, View.mk.injEq,
    List.append_cancel_left_eq, List.singleton_inj, recentAt, wholeRecent, RecentTask.mk.injEq,
    text_of_lt _ _ h]
  constructor
  · intro heq
    exact heq.2.1.2
  · intro heq
    exact ⟨rfl, ⟨rfl, heq⟩, rfl⟩

/-- Without recent tasks nothing is read for titles. -/
theorem titlesAt_nil (limit : ℕ) (hrecent : recentRows (wholeTasks tasks) limits = []) :
    titlesAt tasks jobs limits limit = [] := by
  have hstamps := recentRows_stamps (tasksAt tasks limit) limits
  rw [tasksAt_stamps, ← recentRows_stamps, hrecent, List.map_nil, List.map_eq_nil_iff] at hstamps
  unfold titlesAt
  rw [hstamps]
  rfl

/-- The last file is the owner of a job. -/
theorem viewAt_owner (hrecent : recentRows (wholeTasks tasks) limits = [])
    (hitems : jobItems jobs = items ++ [item])
    (h : wanted (taskReadings tasks ++ items.flatMap jobReadings ++
      [statusReading item, taskIdReading item]) < limit) :
    viewAt tasks jobs agents limits limit = wholeView tasks jobs agents limits ↔
      OwnerUnseen tasks jobs agents limits item (limit - wanted (taskReadings tasks ++
        items.flatMap jobReadings ++ [statusReading item, taskIdReading item])) := by
  have hshort := wanted_append (taskReadings tasks ++ items.flatMap jobReadings)
    [statusReading item, taskIdReading item]
  have hbefore := wanted_append (taskReadings tasks) (items.flatMap jobReadings)
  have hfiles := wanted_cons (statusReading item) [taskIdReading item]
  have hfile := wanted_cons (taskIdReading item) []
  have hnone : wanted [] = 0 := rfl
  have htasks : tasksAt tasks limit = wholeTasks tasks := tasksAt_whole (by omega)
  have htitles : titlesAt tasks jobs limits limit = [] := titlesAt_nil limit hrecent
  set seen := strip (item.2.text "agent-id" [] (min 128 (limit - wanted (taskReadings tasks ++
    items.flatMap jobReadings ++ [statusReading item, taskIdReading item])))) with hseen
  have hlast : jobAt limit (wanted (taskReadings tasks) + wanted (items.flatMap jobReadings)) item =
      { wholeJob item with agentId := seen } := by
    have hsum : wanted (taskReadings tasks) + wanted (items.flatMap jobReadings) +
        (statusReading item).want + (taskIdReading item).want =
        wanted (taskReadings tasks ++ items.flatMap jobReadings ++
          [statusReading item, taskIdReading item]) := by omega
    unfold jobAt
    dsimp only
    rw [text_full (statusReading item) _ (by omega) (by omega),
      text_full (taskIdReading item) _ (by omega) (by omega), hsum,
      text_of_lt (agentIdReading item) _ h]
    rfl
  have hjobs : jobsAt tasks jobs limit = items.map wholeJob ++
      [{ wholeJob item with agentId := seen }] := by
    unfold jobsAt
    rw [hitems, rowsFrom_append, rowsFrom_full jobAt_whole items (by omega), rowsFrom, rowsFrom, hlast]
  have hwhole : wholeJobs jobs = items.map wholeJob ++ [wholeJob item] := by
    unfold wholeJobs
    rw [hitems, List.map_append, List.map_singleton]
  have hid : ∀ other ∈ items.map wholeJob, other.id ≠ (wholeJob item).id := by
    have hdistinct : ((jobItems jobs).map Prod.fst).Nodup := directories_nodup jobs
    rw [hitems, List.map_append, List.map_singleton, List.nodup_append] at hdistinct
    intro other hother
    obtain ⟨job, hjob, rfl⟩ := List.mem_map.mp hother
    exact hdistinct.2.2 _ (List.mem_map_of_mem hjob) _ (List.mem_singleton_self _)
  unfold viewAt wholeView OwnerUnseen
  rw [htasks, htitles, hjobs, hwhole, hrecent, hitems, List.dropLast_concat, List.map_nil,
    View.mk.injEq, countRows_owner, recentActivity_owner _ hid]
  dsimp only
  rw [← hseen]
  constructor
  · rintro ⟨hcount, -, hsame | hhidden⟩
    · exact .inl hsame
    · exact .inr ⟨hhidden, hcount⟩
  · rintro (hsame | ⟨hhidden, hcount⟩)
    · have howner : seen = (wholeJob item).agentId := hsame
      exact ⟨by rw [howner], rfl, .inl hsame⟩
    · exact ⟨hcount, rfl, .inr hhidden⟩

/-- The last file is the state of a task. -/
theorem viewAt_state (hrecent : recentRows (wholeTasks tasks) limits = [])
    (hjobs : jobItems jobs = []) (hitems : taskItems tasks = items ++ [item])
    (h : wanted (items.flatMap fun item => [stateReading item]) < limit) :
    viewAt tasks jobs agents limits limit = wholeView tasks jobs agents limits ↔
      taskState (item.2.text "state" "unknown".toList (min 128
          (limit - wanted (items.flatMap fun item => [stateReading item])))) =
        taskState (item.2.text "state" "unknown".toList 128) := by
  have htitles : titlesAt tasks jobs limits limit = [] := titlesAt_nil limit hrecent
  have hnone : jobsAt tasks jobs limit = wholeJobs jobs := by
    unfold jobsAt wholeJobs
    rw [hjobs]
    rfl
  set seen := taskState (item.2.text "state" "unknown".toList (min 128
    (limit - wanted (items.flatMap fun item => [stateReading item])))) with hseen
  have hlast : taskAt limit (wanted (items.flatMap fun item => [stateReading item])) item =
      { wholeTask item with state := seen } := by
    unfold taskAt
    rw [text_of_lt (stateReading item) _ h]
    rfl
  have htasks : tasksAt tasks limit = items.map wholeTask ++
      [{ wholeTask item with state := seen }] := by
    unfold tasksAt
    rw [hitems, rowsFrom_append, rowsFrom_full taskAt_whole items (by rw [Nat.zero_add]; exact h),
      rowsFrom, rowsFrom, Nat.zero_add, hlast]
  have hwhole : wholeTasks tasks = items.map wholeTask ++ [wholeTask item] := by
    unfold wholeTasks
    rw [hitems, List.map_append, List.map_singleton]
  constructor
  · intro heq
    have hcounts := congrArg (fun view : View => view.counts.taskStates seen) heq
    unfold viewAt wholeView countRows at hcounts
    rw [htasks, hwhole] at hcounts
    simp only [List.countP_append, List.countP_singleton, decide_true, if_true] at hcounts
    by_contra hne
    have hdiffers : (wholeTask item).state ≠ seen := fun h => hne h.symm
    simp [hdiffers] at hcounts
  · intro heq
    have hrow : ({ wholeTask item with state := seen } : TaskRow) = wholeTask item := by
      rw [heq]
      rfl
    have hsame : tasksAt tasks limit = wholeTasks tasks := by
      rw [htasks, hrow, hwhole]
    unfold viewAt wholeView
    rw [hsame, hnone, htitles, hrecent, List.map_nil]

end

theorem init_eq {initial init : List Reading} {r last : Reading}
    (h : initial ++ [r] = init ++ [last]) : init = initial ∧ last = r := by
  obtain ⟨hinit, hlast⟩ := List.append_inj' h rfl
  exact ⟨hinit.symm, (List.singleton_inj.mp hlast).symm⟩

/-- Which file is the last one. -/
inductive LastFile (tasks jobs : Category) (limits : QueueLimits) : List Reading → Reading → Prop where
  | title (rows : List TaskRow) (row : TaskRow)
      (hrecent : recentRows (wholeTasks tasks) limits = rows ++ [row]) :
      LastFile tasks jobs limits (rowReadings tasks jobs ++ titleReadings tasks rows)
        (specReading tasks row)
  | owner (items : List (List Char × Directory)) (item : List Char × Directory)
      (hrecent : recentRows (wholeTasks tasks) limits = [])
      (hitems : jobItems jobs = items ++ [item]) :
      LastFile tasks jobs limits (taskReadings tasks ++ items.flatMap jobReadings ++
        [statusReading item, taskIdReading item]) (agentIdReading item)
  | state (items : List (List Char × Directory)) (item : List Char × Directory)
      (hrecent : recentRows (wholeTasks tasks) limits = [])
      (hjobs : jobItems jobs = []) (hitems : taskItems tasks = items ++ [item]) :
      LastFile tasks jobs limits (items.flatMap fun item => [stateReading item]) (stateReading item)

theorem lastFile {init : List Reading} {last : Reading}
    (hreadings : readings tasks jobs limits = init ++ [last]) :
    LastFile tasks jobs limits init last := by
  rcases List.eq_nil_or_concat' (recentRows (wholeTasks tasks) limits) with
    hrecent | ⟨rows, row, hrecent⟩
  · have hrows : readings tasks jobs limits = rowReadings tasks jobs := by
      unfold readings titleReadings
      rw [hrecent, List.flatMap_nil, List.append_nil]
    rcases List.eq_nil_or_concat' (jobItems jobs) with hjobs | ⟨items, item, hitems⟩
    · rcases List.eq_nil_or_concat' (taskItems tasks) with htasks | ⟨items, item, hitems⟩
      · rw [hrows, rowReadings, taskReadings, htasks, hjobs] at hreadings
        exact absurd hreadings.symm (List.append_ne_nil_of_right_ne_nil _ (List.cons_ne_nil _ _))
      · rw [hrows, rowReadings, taskReadings, hitems, hjobs, List.flatMap_append,
          List.flatMap_singleton, List.flatMap_nil, List.append_nil] at hreadings
        obtain ⟨rfl, rfl⟩ := init_eq hreadings
        exact .state items item hrecent hjobs hitems
    · have hinitial : rowReadings tasks jobs = taskReadings tasks ++ items.flatMap jobReadings ++
          [statusReading item, taskIdReading item] ++ [agentIdReading item] := by
        unfold rowReadings
        rw [hitems, List.flatMap_append, List.flatMap_singleton]
        simp [jobReadings]
      rw [hrows, hinitial] at hreadings
      obtain ⟨rfl, rfl⟩ := init_eq hreadings
      exact .owner items item hrecent hitems
  · have hinitial : readings tasks jobs limits =
        rowReadings tasks jobs ++ titleReadings tasks rows ++ [specReading tasks row] := by
      unfold readings titleReadings
      rw [hrecent, List.flatMap_append, List.flatMap_singleton, List.append_assoc]
    rw [hinitial] at hreadings
    obtain ⟨rfl, rfl⟩ := init_eq hreadings
    exact .title rows row hrecent

/-- What is read of the last file decides whether what is shown is right. -/
theorem viewAt_eq_wholeView_iff {init : List Reading} {last : Reading}
    (hlast : LastFile tasks jobs limits init last) (hinit : wanted init < limit) :
    viewAt tasks jobs agents limits limit = wholeView tasks jobs agents limits ↔
      CutUnseen tasks jobs agents limits (limit - wanted init) := by
  unfold CutUnseen
  cases hlast with
  | title rows row hrecent =>
    rw [hrecent, List.getLast?_concat]
    exact viewAt_title hrecent hinit
  | owner items item hrecent hitems =>
    rw [hrecent, hitems, List.getLast?_nil, List.getLast?_concat]
    exact viewAt_owner hrecent hitems hinit
  | state items item hrecent hjobs hitems =>
    rw [hrecent, hjobs, hitems, List.getLast?_nil, List.getLast?_nil, List.getLast?_concat]
    exact viewAt_state hrecent hjobs hitems hinit

theorem text_min (r : Reading) (default : List Char) {allowance : ℕ} (h : r.want ≤ allowance) :
    r.directory.text r.name default (min r.maxBytes allowance) =
      r.directory.text r.name default r.maxBytes := by
  have hwhole := text_full r default (Nat.zero_lt_succ allowance) (by omega)
  rw [text_of_lt r default (Nat.zero_lt_succ allowance)] at hwhole
  rw [← hwhole]
  unfold Reading.want at h
  unfold Directory.text
  cases hcontent : r.directory.content r.name with
  | none => rfl
  | some content =>
    rw [hcontent, Option.getD_some] at h
    dsimp only
    congr 1
    rw [List.take_eq_take_iff]
    omega

/-- A file that is read as far as the scan wants it does. -/
theorem cutUnseen_of_want_le {init : List Reading} {last : Reading} {allowance : ℕ}
    (hlast : LastFile tasks jobs limits init last) (h : last.want ≤ allowance) :
    CutUnseen tasks jobs agents limits allowance := by
  unfold CutUnseen
  cases hlast with
  | title rows row hrecent =>
    rw [hrecent, List.getLast?_concat]
    exact congrArg (firstTitle · row.id) (text_min _ _ h)
  | owner items item hrecent hitems =>
    rw [hrecent, hitems, List.getLast?_nil, List.getLast?_concat]
    exact .inl (congrArg strip (text_min _ _ h))
  | state items item hrecent hjobs hitems =>
    rw [hrecent, hjobs, hitems, List.getLast?_nil, List.getLast?_nil, List.getLast?_concat]
    exact congrArg taskState (text_min _ _ h)

theorem viewAt_nil (h : readings tasks jobs limits = []) (limit : ℕ) :
    viewAt tasks jobs agents limits limit = wholeView tasks jobs agents limits := by
  unfold readings rowReadings taskReadings titleReadings at h
  rw [List.append_eq_nil_iff, List.append_eq_nil_iff, List.flatMap_eq_nil_iff,
    List.flatMap_eq_nil_iff, List.flatMap_eq_nil_iff] at h
  have htasks : taskItems tasks = [] :=
    List.eq_nil_iff_forall_not_mem.mpr fun item hitem => List.cons_ne_nil _ _ (h.1.1 item hitem)
  have hjobs : jobItems jobs = [] :=
    List.eq_nil_iff_forall_not_mem.mpr fun item hitem => List.cons_ne_nil _ _ (h.1.2 item hitem)
  have hrecent : recentRows (wholeTasks tasks) limits = [] :=
    List.eq_nil_iff_forall_not_mem.mpr fun row hrow => List.cons_ne_nil _ _ (h.2 row hrow)
  unfold viewAt wholeView
  rw [titlesAt_nil limit hrecent, hrecent]
  unfold tasksAt jobsAt wholeTasks wholeJobs
  rw [htasks, hjobs]
  rfl

/-- A scan that does not report truncation shows what it would show with no limits on entries and
bytes, which is what it shows with all limits from some bound on. -/
def Honest (queue : AgentwsQueue) (limits : QueueLimits) : Prop :=
  truncationError limits ∉ (scanAgentwsQueue queue limits).1.errors →
    ∃ bound, ∀ entries bytes, bound ≤ entries → bound ≤ bytes →
      (scanAgentwsQueue queue
        { limits with maxEntries := entries, maxReadBytes := bytes }).1.view =
        (scanAgentwsQueue queue limits).1.view

/-- The limit on bytes does not fall into the last file that is read, or its first bytes do. -/
def ReadsEnough (queue : AgentwsQueue) (limits : QueueLimits) : Prop :=
  match queue with
  | .unavailable _ => True
  | .opened tasks jobs agents =>
    entryCount tasks jobs agents ≤ limits.maxEntries →
      ∀ init last, readings tasks jobs limits = init ++ [last] →
        wanted init < limits.maxReadBytes → limits.maxReadBytes < wanted init + last.want →
          CutUnseen tasks jobs agents limits (limits.maxReadBytes - wanted init)

/-- With enough entries and bytes the scan shows everything. -/
theorem view_unlimited (tasks jobs agents : Category) (limits : QueueLimits) {entries bytes : ℕ}
    (hentries : entryCount tasks jobs agents ≤ entries)
    (hbytes : wanted (readings tasks jobs limits) < bytes) :
    (scanAgentwsQueue (.opened tasks jobs agents)
      { limits with maxEntries := entries, maxReadBytes := bytes }).1.view =
      wholeView tasks jobs agents limits :=
  (@scan_fits { limits with maxEntries := entries, maxReadBytes := bytes } _ _ _ hentries).1.trans
    (viewAt_whole hbytes)

theorem overrun_readings {init : List Reading} {last : Reading}
    (h : readings tasks jobs limits = init ++ [last]) :
    overrun limit 0 (readings tasks jobs limits) = decide (limit ≤ wanted init) := by
  rw [h, overrun_concat, Nat.zero_add]

/-- Every scan keeps to its limits; it is honest about truncation exactly where the limit on bytes
does not fall into the last file it reads, or falls where what is left of that file shows the same. -/
theorem scan_honest_iff (queue : AgentwsQueue) (limits : QueueLimits) :
    ((scanAgentwsQueue queue limits).2.entries ≤ limits.maxEntries ∧
      (scanAgentwsQueue queue limits).2.readBytes ≤ limits.maxReadBytes ∧
      Honest queue limits) ↔ ReadsEnough queue limits := by
  cases queue with
  | unavailable reason =>
    refine iff_of_true ⟨Nat.zero_le _, Nat.zero_le _, ?_⟩ trivial
    intro _
    exact ⟨0, fun _ _ _ _ => rfl⟩
  | opened tasks jobs agents =>
    obtain ⟨taken, read, t, hbudget, htaken, hover⟩ := scan_budget tasks jobs agents limits
    have hbounds : (scanAgentwsQueue (.opened tasks jobs agents) limits).2.entries ≤
        limits.maxEntries ∧
        (scanAgentwsQueue (.opened tasks jobs agents) limits).2.readBytes ≤
          limits.maxReadBytes := by
      rw [hbudget]
      exact ⟨htaken, Nat.min_le_left _ _⟩
    constructor
    · rintro ⟨-, -, hhonest⟩ hfit init last hreadings hinit -
      have hscan := scan_fits hfit
      have hquiet : (scanAgentwsQueue (.opened tasks jobs agents) limits).2.truncated = false := by
        rw [hscan.2]
        change overrun limits.maxReadBytes 0 (readings tasks jobs limits) = false
        rw [overrun_readings hreadings, decide_eq_false (by omega)]
      obtain ⟨bound, hbound⟩ := hhonest (truncationError_not_mem hfit hquiet)
      have hsame := hbound (max bound (entryCount tasks jobs agents))
        (max bound (wanted (readings tasks jobs limits) + 1)) (le_max_left _ _) (le_max_left _ _)
      rw [view_unlimited tasks jobs agents limits (le_max_right _ _)
        (Nat.lt_of_succ_le (le_max_right _ _)), hscan.1] at hsame
      exact (viewAt_eq_wholeView_iff (lastFile hreadings) hinit).mp hsame.symm
    · intro henough
      refine ⟨hbounds.1, hbounds.2, ?_⟩
      intro hquiet
      have htruncated : (scanAgentwsQueue (.opened tasks jobs agents) limits).2.truncated = false :=
        eq_false_of_ne_true fun h => hquiet (truncationError_mem h)
      have hfit : entryCount tasks jobs agents ≤ limits.maxEntries := by
        by_contra hmore
        rw [hbudget] at htruncated
        exact absurd (hover (by omega)) (by rw [show t = false from htruncated]; decide)
      have hscan := scan_fits hfit
      rw [hscan.2] at htruncated
      have hwhole : viewAt tasks jobs agents limits limits.maxReadBytes =
          wholeView tasks jobs agents limits := by
        rcases List.eq_nil_or_concat' (readings tasks jobs limits) with hnil | ⟨init, last, hconcat⟩
        · exact viewAt_nil hnil _
        · have hinit : wanted init < limits.maxReadBytes := by
            have hrun : overrun limits.maxReadBytes 0 (readings tasks jobs limits) = false :=
              htruncated
            rw [overrun_readings hconcat, decide_eq_false_iff_not] at hrun
            omega
          have hlast := lastFile hconcat
          rw [viewAt_eq_wholeView_iff hlast hinit]
          by_cases hcut : limits.maxReadBytes < wanted init + last.want
          · exact henough hfit init last hconcat hinit hcut
          · exact cutUnseen_of_want_le hlast (by omega)
      refine ⟨max (entryCount tasks jobs agents) (wanted (readings tasks jobs limits) + 1), ?_⟩
      intro entries bytes hentries hbytes
      rw [view_unlimited tasks jobs agents limits (le_trans (le_max_left _ _) hentries)
        (Nat.lt_of_succ_le (le_trans (le_max_right _ _) hbytes)), hscan.1, hwhole]

def asciiFile (text : String) : File := ⟨some (utf8 text.toList), some 0⟩

def runningJob : Directory := ⟨0, [("status", asciiFile "running"), ("agent-id", asciiFile "planner")]⟩

/-- A running job of the planner, and no tasks. -/
def plannerQueue : AgentwsQueue :=
  .opened (.listed [] (by decide))
    (.listed [⟨some "job".toList, .directory runningJob⟩] (by decide))
    (.listed [⟨some "planner".toList, .directory ⟨0, []⟩⟩] (by decide))

def elevenBytes : QueueLimits := ⟨4096, 11, 8, 12⟩

/-- Of the owner the scan reads `plan`: the job is counted for no active agent, and no error says that
the scan was truncated. -/
theorem plannerQueue_not_honest : ¬ Honest plannerQueue elevenBytes := by
  intro hhonest
  have hquiet : truncationError elevenBytes ∉
      (scanAgentwsQueue plannerQueue elevenBytes).1.errors := by decide +kernel
  have hactive : (scanAgentwsQueue plannerQueue elevenBytes).1.view.counts.active = 0 := by
    decide +kernel
  obtain ⟨bound, hbound⟩ := hhonest hquiet
  have hsame := hbound (bound + 2) (bound + 15) (Nat.le_add_right _ _) (Nat.le_add_right _ _)
  unfold plannerQueue at hsame hactive
  rw [view_unlimited] at hsame
  · have hwhole : (wholeView _ _ _ elevenBytes).counts.active = _ :=
      congrArg (fun view : View => view.counts.active) hsame
    rw [hactive] at hwhole
    revert hwhole
    decide +kernel
  · exact Nat.le_add_left _ _
  · refine Nat.lt_of_lt_of_le ?_ (Nat.le_add_left 15 bound)
    decide +kernel

end Cyclo.Team.Queue
