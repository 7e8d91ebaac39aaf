import Cyclo.Gateway.UsageLines
import Cyclo.Results

/-! The totals of the usage report over the records that the gateway appends. -/
namespace Cyclo.Gateway
open Js Protocol Text

/-- The numbers of a report. -/
inductive Counter where
  | requests
  | latencyMs
  | inputTokens
  | outputTokens
  | totalTokens
  | cachedInputTokens
  | reasoningTokens
  | outcome (text : Str)

def Counters.get (counters : Counters) : Counter → ℕ
  | .requests => counters.requests.val
  | .latencyMs => counters.latencyMs.val
  | .inputTokens => counters.inputTokens.val
  | .outputTokens => counters.outputTokens.val
  | .totalTokens => counters.totalTokens.val
  | .cachedInputTokens => counters.cachedInputTokens.val
  | .reasoningTokens => counters.reasoningTokens.val
  | .outcome text => ((counters.outcomes.lookup text).getD .zero).val

/-- What one record adds to a counter. -/
def ValidRecord.get (record : ValidRecord) : Counter → ℕ
  | .requests => 1
  | .latencyMs => record.latencyMs.val
  | .inputTokens => record.inputTokens.val
  | .outputTokens => record.outputTokens.val
  | .totalTokens => record.inputTokens.val + record.outputTokens.val
  | .cachedInputTokens => record.cachedInputTokens.val
  | .reasoningTokens => record.reasoningTokens.val
  | .outcome text => if record.outcome = text then 1 else 0

section
variable {α : Type*}

theorem lookup_cons_eq (key first : Str) (value : α) (entries : List (Str × α)) :
    ((first, value) :: entries).lookup key =
      if key = first then some value else entries.lookup key := by
  rw [List.lookup_cons]
  by_cases h : key = first
  · rw [if_pos h, beq_iff_eq.mpr h]
  · rw [if_neg h, beq_eq_false_iff_ne.mpr h]

theorem lookup_mapSet (key k : Str) (value : α) (entries : List (Str × α)) :
    (mapSet key value entries).lookup k = if k = key then some value else entries.lookup k := by
  induction entries with
  | nil => exact lookup_cons_eq k key value []
  | cons entry entries ih =>
    obtain ⟨first, v⟩ := entry
    rw [mapSet]
    by_cases hfirst : first = key
    · rw [if_pos hfirst, lookup_cons_eq, lookup_cons_eq, hfirst]
      by_cases hk : k = key
      · rw [if_pos hk, if_pos hk]
      · rw [if_neg hk, if_neg hk, if_neg hk]
    · rw [if_neg hfirst, lookup_cons_eq, lookup_cons_eq, ih]
      by_cases hk : k = first
      · rw [if_pos hk, if_pos hk, if_neg fun he => hfirst (hk ▸ he)]
      · rw [if_neg hk, if_neg hk]

/-- Setting a key changes a sum over the entries by the new value instead of the old one. -/
theorem sum_mapSet (f : α → ℕ) (key : Str) (value : α) (entries : List (Str × α)) :
    ((mapSet key value entries).map fun e => f e.2).sum + ((entries.lookup key).map f).getD 0 =
      (entries.map fun e => f e.2).sum + f value := by
  induction entries with
  | nil => simp [mapSet]
  | cons entry entries ih =>
    obtain ⟨first, v⟩ := entry
    rw [mapSet, lookup_cons_eq]
    by_cases hfirst : first = key
    · rw [if_pos hfirst, if_pos hfirst.symm, List.map_cons, List.sum_cons, List.map_cons,
        List.sum_cons, Option.map_some, Option.getD_some]
      dsimp only
      omega
    · rw [if_neg hfirst, if_neg fun he => hfirst he.symm, List.map_cons, List.sum_cons,
        List.map_cons, List.sum_cons]
      omega

theorem mem_mapSet {key : Str} {value : α} {entries : List (Str × α)} {e : Str × α}
    (h : e ∈ mapSet key value entries) : e = (key, value) ∨ e ∈ entries := by
  induction entries with
  | nil =>
    left
    simpa [mapSet] using h
  | cons entry entries ih =>
    obtain ⟨first, v⟩ := entry
    rw [mapSet] at h
    split_ifs at h
    · rcases List.mem_cons.mp h with he | he
      · exact .inl he
      · exact .inr (List.mem_cons_of_mem _ he)
    · rcases List.mem_cons.mp h with he | he
      · exact .inr (he ▸ List.mem_cons_self)
      · rcases ih he with he | he
        · exact .inl he
        · exact .inr (List.mem_cons_of_mem _ he)

end

theorem checkedAdd_eq (left right : SafeCount) (line : ℕ) :
    checkedAdd left right line =
      if h : left.val + right.val ≤ maxSafeInteger then .ok ⟨left.val + right.val, h⟩
      else .error s!"usage audit counters overflow at record {line}" := by
  unfold checkedAdd
  rw [Number.toSafeCount_add]
  split_ifs <;> rfl

theorem checkedAdd_ok {left right sum : SafeCount} {line : ℕ}
    (h : checkedAdd left right line = .ok sum) : sum.val = left.val + right.val := by
  rw [checkedAdd_eq] at h
  split_ifs at h
  cases h
  rfl

theorem checkedAdd_fits {left right : SafeCount} (line : ℕ)
    (h : left.val + right.val ≤ maxSafeInteger) : ∃ sum, checkedAdd left right line = .ok sum := by
  rw [checkedAdd_eq, dif_pos h]
  exact ⟨_, rfl⟩

theorem Counters.get_le (counters : Counters) (counter : Counter) :
    counters.get counter ≤ maxSafeInteger := by
  cases counter <;> exact SafeCount.safe _

/-- Every counter grows by what the record adds to it. -/
theorem addCounters_get {target t : Counters} {record : ValidRecord} {line : ℕ}
    (h : addCounters target record line = .ok t) (counter : Counter) :
    t.get counter = target.get counter + record.get counter := by
  unfold addCounters at h
  obtain ⟨requests, hrequests, h⟩ := bind_eq_ok.mp h
  obtain ⟨latencyMs, hlatency, h⟩ := bind_eq_ok.mp h
  obtain ⟨inputTokens, hinput, h⟩ := bind_eq_ok.mp h
  obtain ⟨outputTokens, houtput, h⟩ := bind_eq_ok.mp h
  obtain ⟨cachedInputTokens, hcached, h⟩ := bind_eq_ok.mp h
  obtain ⟨reasoningTokens, hreasoning, h⟩ := bind_eq_ok.mp h
  obtain ⟨tokens, htokens, h⟩ := bind_eq_ok.mp h
  obtain ⟨totalTokens, htotal, h⟩ := bind_eq_ok.mp h
  obtain ⟨outcome, houtcome, h⟩ := bind_eq_ok.mp h
  cases h
  cases counter with
  | requests => exact checkedAdd_ok hrequests
  | latencyMs => exact checkedAdd_ok hlatency
  | inputTokens => exact checkedAdd_ok hinput
  | outputTokens => exact checkedAdd_ok houtput
  | cachedInputTokens => exact checkedAdd_ok hcached
  | reasoningTokens => exact checkedAdd_ok hreasoning
  | totalTokens =>
    have hsum := checkedAdd_ok htotal
    rw [checkedAdd_ok htokens] at hsum
    exact hsum
  | outcome text =>
    have hsum := checkedAdd_ok houtcome
    simp only [Counters.get, ValidRecord.get, lookup_mapSet]
    by_cases he : text = record.outcome
    · rw [if_pos he, if_pos he.symm, he]
      exact hsum
    · rw [if_neg he, if_neg fun h => he h.symm]
      rfl

/-- A record is added where no counter leaves the safe integers. -/
theorem addCounters_fits {target : Counters} {record : ValidRecord} (line : ℕ)
    (h : ∀ counter, target.get counter + record.get counter ≤ maxSafeInteger) :
    ∃ t, addCounters target record line = .ok t := by
  have htokens : record.inputTokens.val + record.outputTokens.val ≤ maxSafeInteger :=
    (Nat.le_add_left _ _).trans (h .totalTokens)
  have houtcome := h (.outcome record.outcome)
  rw [Counters.get, ValidRecord.get, if_pos rfl] at houtcome
  obtain ⟨requests, hrequests⟩ := checkedAdd_fits line
    (show _ + SafeCount.one.val ≤ _ from h .requests)
  obtain ⟨latencyMs, hlatency⟩ := checkedAdd_fits line (h .latencyMs)
  obtain ⟨inputTokens, hinput⟩ := checkedAdd_fits line (h .inputTokens)
  obtain ⟨outputTokens, houtput⟩ := checkedAdd_fits line (h .outputTokens)
  obtain ⟨cachedInputTokens, hcached⟩ := checkedAdd_fits line (h .cachedInputTokens)
  obtain ⟨reasoningTokens, hreasoning⟩ := checkedAdd_fits line (h .reasoningTokens)
  obtain ⟨tokens, hsum⟩ := checkedAdd_fits line htokens
  have htotal := h .totalTokens
  rw [Counters.get, ValidRecord.get, ← checkedAdd_ok hsum] at htotal
  obtain ⟨totalTokens, htotal⟩ := checkedAdd_fits line htotal
  obtain ⟨outcome, houtcome⟩ := checkedAdd_fits line (show _ + SafeCount.one.val ≤ _ from houtcome)
  unfold addCounters
  rw [hrequests, hlatency, hinput, houtput, hcached, hreasoning, hsum]
  exact ⟨_, by
    change (checkedAdd target.totalTokens tokens line).bind _ = _
    rw [htotal]
    change (checkedAdd _ _ line).bind _ = _
    rw [houtcome]
    rfl⟩

theorem get_emptyCounters (counter : Counter) : emptyCounters.get counter = 0 := by
  cases counter <;> rfl

/-- The sum of a counter over groups. -/
def groupSum (groups : List (Str × Counters)) (counter : Counter) : ℕ :=
  (groups.map fun group => group.2.get counter).sum

/-- The total tokens are the input and output tokens. -/
def Balanced (counters : Counters) : Prop :=
  counters.get .totalTokens = counters.get .inputTokens + counters.get .outputTokens

theorem addCounters_balanced {target t : Counters} {record : ValidRecord} {line : ℕ}
    (h : addCounters target record line = .ok t) (hb : Balanced target) : Balanced t := by
  have hget := addCounters_get h
  unfold Balanced at hb ⊢
  rw [hget, hget, hget, hb]
  simp only [ValidRecord.get]
  omega

/-- The counters of a group, or those of a new one. -/
def groupOf (groups : List (Str × Counters)) (key : Str) : Counters :=
  (groups.lookup key).getD emptyCounters

theorem groupOf_cases (groups : List (Str × Counters)) (key : Str) :
    groupOf groups key = emptyCounters ∨ (key, groupOf groups key) ∈ groups := by
  unfold groupOf
  cases hlookup : groups.lookup key with
  | none => exact .inl rfl
  | some counters =>
    right
    obtain ⟨before, after, hgroups, -⟩ := List.lookup_eq_some_iff.mp hlookup
    rw [hgroups]
    exact List.mem_append_right before List.mem_cons_self

theorem addGroup_get {groups t : List (Str × Counters)} {key : Str} {record : ValidRecord}
    {line : ℕ} (h : addGroup groups key record line = .ok t) (counter : Counter) :
    groupSum t counter = groupSum groups counter + record.get counter := by
  obtain ⟨counters, hcounters, h⟩ := bind_eq_ok.mp h
  cases h
  have hget : counters.get counter = (groupOf groups key).get counter + record.get counter :=
    addCounters_get hcounters counter
  have hsum := sum_mapSet (fun c : Counters => c.get counter) key counters groups
  have hold : (groupOf groups key).get counter =
      ((groups.lookup key).map fun c : Counters => c.get counter).getD 0 := by
    unfold groupOf
    cases groups.lookup key with
    | none => exact get_emptyCounters counter
    | some c => rfl
  unfold groupSum
  rw [hget, hold] at hsum
  omega

theorem addGroup_balanced {groups t : List (Str × Counters)} {key : Str} {record : ValidRecord}
    {line : ℕ} (h : addGroup groups key record line = .ok t)
    (hb : ∀ group ∈ groups, Balanced group.2) : ∀ group ∈ t, Balanced group.2 := by
  obtain ⟨counters, hcounters, h⟩ := bind_eq_ok.mp h
  cases h
  have hold : Balanced (groupOf groups key) := by
    rcases groupOf_cases groups key with hempty | hmem
    · rw [hempty]
      rfl
    · exact hb _ hmem
  intro group hgroup
  rcases mem_mapSet hgroup with rfl | hmem
  · exact addCounters_balanced hcounters hold
  · exact hb group hmem

theorem addGroup_fits {groups : List (Str × Counters)} (key : Str) {record : ValidRecord}
    (line : ℕ) (h : ∀ counter, groupSum groups counter + record.get counter ≤ maxSafeInteger) :
    ∃ t, addGroup groups key record line = .ok t := by
  have hle : ∀ counter, (groupOf groups key).get counter ≤ groupSum groups counter := by
    intro counter
    rcases groupOf_cases groups key with hempty | hmem
    · rw [hempty, get_emptyCounters]
      exact Nat.zero_le _
    · have hget : (groupOf groups key).get counter ∈ groups.map fun g => g.2.get counter :=
        List.mem_map_of_mem hmem
      exact List.le_sum_of_mem hget
  have hfits : ∀ counter,
      (groupOf groups key).get counter + record.get counter ≤ maxSafeInteger := by
    intro counter
    have := hle counter
    have := h counter
    omega
  obtain ⟨counters, hcounters⟩ := addCounters_fits line hfits
  unfold addGroup
  unfold groupOf at hcounters
  rw [hcounters]
  exact ⟨_, rfl⟩

/-- The groups of a report divide its totals. -/
structure Tallied (report : UsageReport) : Prop where
  byProvider : ∀ counter, groupSum report.byProvider counter = report.totals.get counter
  byModel : ∀ counter, groupSum report.byModel counter = report.totals.get counter
  totals : Balanced report.totals
  providers : ∀ group ∈ report.byProvider, Balanced group.2
  models : ∀ group ∈ report.byModel, Balanced group.2

theorem tallied_empty : Tallied emptyUsageReport where
  byProvider counter := (get_emptyCounters counter).symm
  byModel counter := (get_emptyCounters counter).symm
  totals := rfl
  providers := List.forall_mem_nil _
  models := List.forall_mem_nil _

theorem addUsageRecord_get {report t : UsageReport} {record : ValidRecord} {line : ℕ}
    (h : addUsageRecord report record line = .ok t) (counter : Counter) :
    t.totals.get counter = report.totals.get counter + record.get counter := by
  obtain ⟨totals, htotals, h⟩ := bind_eq_ok.mp h
  obtain ⟨providers, -, h⟩ := bind_eq_ok.mp h
  obtain ⟨models, -, h⟩ := bind_eq_ok.mp h
  cases h
  exact addCounters_get htotals counter

theorem addUsageRecord_tallied {report t : UsageReport} {record : ValidRecord} {line : ℕ}
    (h : addUsageRecord report record line = .ok t) (ht : Tallied report) : Tallied t := by
  have hget := addUsageRecord_get h
  obtain ⟨totals, htotals, h⟩ := bind_eq_ok.mp h
  obtain ⟨providers, hproviders, h⟩ := bind_eq_ok.mp h
  obtain ⟨models, hmodels, h⟩ := bind_eq_ok.mp h
  cases h
  constructor
  · intro counter
    rw [hget, addGroup_get hproviders, ht.byProvider]
  · intro counter
    rw [hget, addGroup_get hmodels, ht.byModel]
  · exact addCounters_balanced htotals ht.totals
  · exact addGroup_balanced hproviders ht.providers
  · exact addGroup_balanced hmodels ht.models

/-- A record is added where its counters stay safe integers. -/
theorem addUsageRecord_fits {report : UsageReport} {record : ValidRecord} (line : ℕ)
    (ht : Tallied report)
    (h : ∀ counter, report.totals.get counter + record.get counter ≤ maxSafeInteger) :
    ∃ t, addUsageRecord report record line = .ok t := by
  have hprovider : ∀ counter,
      groupSum report.byProvider counter + record.get counter ≤ maxSafeInteger := by
    intro counter
    rw [ht.byProvider]
    exact h counter
  have hmodel : ∀ counter,
      groupSum report.byModel counter + record.get counter ≤ maxSafeInteger := by
    intro counter
    rw [ht.byModel]
    exact h counter
  obtain ⟨totals, htotals⟩ := addCounters_fits line h
  obtain ⟨providers, hproviders⟩ := addGroup_fits record.provider line hprovider
  obtain ⟨models, hmodels⟩ := addGroup_fits record.model line hmodel
  unfold addUsageRecord
  rw [htotals, hproviders, hmodels]
  exact ⟨_, rfl⟩

/-- What a request adds to a counter. -/
def Request.amount (request : Request) : Counter → ℕ
  | .requests => 1
  | .latencyMs => count request.record.latencyMs
  | .inputTokens => count request.record.inputTokens
  | .outputTokens => count request.record.outputTokens
  | .totalTokens => count request.record.inputTokens + count request.record.outputTokens
  | .cachedInputTokens => count request.record.cachedInputTokens
  | .reasoningTokens => count request.record.reasoningTokens
  | .outcome text => if request.outcome.text = text then 1 else 0

def amountOf (requests : List Request) (counter : Counter) : ℕ :=
  (requests.map fun request => request.amount counter).sum

/-- Every counter of the requests together is a safe integer. -/
def Countable (requests : List Request) : Prop :=
  ∀ counter, amountOf requests counter ≤ maxSafeInteger

theorem Request.get_read (request : Request) {n : ℕ} (hn : count request.record.latencyMs = n)
    (h : n ≤ maxSafeInteger) (counter : Counter) :
    (request.read ⟨n, h⟩).get counter = request.amount counter := by
  subst hn
  cases counter <;> rfl

theorem pieces_ledgerOf (requests : List Request) :
    pieces newline (ledgerOf requests) =
      requests.map fun request => Str.utf8 (recordText request.record) := by
  unfold ledgerOf
  induction requests with
  | nil => rfl
  | cons request requests ih =>
    have hline : newline ∉ Str.utf8 (recordText request.record) :=
      (fits_recordText request (latency_lt request)).newline
    rw [List.flatMap_cons, List.append_assoc, List.singleton_append,
      pieces_append_sep newline hline, ih, List.map_cons]

section
variable {dateParse : Str → Option TimeValue}
  (hdate : ∀ date, (dateParse (toISOString date)).isSome)
include hdate

/-- A reading that succeeds counts every request. -/
theorem addLines_get {requests : List Request} {report t : UsageReport} {line : ℕ}
    (h : addLines dateParse decodeUtf8 Json.parse maxUsageRecordBytes report line
      (requests.map fun request => Str.utf8 (recordText request.record)) = .ok t)
    (ht : Tallied report) :
    Tallied t ∧ ∀ counter, t.totals.get counter =
      report.totals.get counter + amountOf requests counter := by
  induction requests generalizing report line with
  | nil =>
    cases h
    exact ⟨ht, fun counter => rfl⟩
  | cons request requests ih =>
    obtain ⟨next, hnext, h⟩ := bind_eq_ok.mp h
    have hlatency : count request.record.latencyMs ≤ maxSafeInteger := by
      by_contra hunsafe
      exact addUsageLine_unsafe hdate hunsafe hnext
    rw [addUsageLine_record dateParse hdate request report line hlatency] at hnext
    obtain ⟨htallied, hget⟩ := ih h (addUsageRecord_tallied hnext ht)
    refine ⟨htallied, fun counter => ?_⟩
    rw [hget, addUsageRecord_get hnext, request.get_read rfl hlatency, Nat.add_assoc]
    rfl

/-- Requests are read where every counter stays a safe integer. -/
theorem addLines_fits {requests : List Request} {report : UsageReport} (line : ℕ)
    (ht : Tallied report)
    (h : ∀ counter, report.totals.get counter + amountOf requests counter ≤ maxSafeInteger) :
    ∃ t, addLines dateParse decodeUtf8 Json.parse maxUsageRecordBytes report line
      (requests.map fun request => Str.utf8 (recordText request.record)) = .ok t := by
  induction requests generalizing report line with
  | nil => exact ⟨report, rfl⟩
  | cons request requests ih =>
    have hcons : ∀ counter, amountOf (request :: requests) counter =
        request.amount counter + amountOf requests counter := fun counter => rfl
    have hlatency : count request.record.latencyMs ≤ maxSafeInteger := by
      have hsum := h .latencyMs
      rw [hcons] at hsum
      have hamount : request.amount .latencyMs = count request.record.latencyMs := rfl
      omega
    have hrecord : ∀ counter, report.totals.get counter +
        (request.read ⟨_, hlatency⟩).get counter ≤ maxSafeInteger := by
      intro counter
      have hsum := h counter
      rw [hcons] at hsum
      rw [request.get_read rfl]
      omega
    obtain ⟨next, hnext⟩ := addUsageRecord_fits line ht hrecord
    have hrest : ∀ counter,
        next.totals.get counter + amountOf requests counter ≤ maxSafeInteger := by
      intro counter
      have hsum := h counter
      rw [hcons] at hsum
      rw [addUsageRecord_get hnext, request.get_read rfl]
      omega
    rw [List.map_cons, addLines,
      addUsageLine_record dateParse hdate request report line hlatency, hnext]
    exact ih (line + 1) (addUsageRecord_tallied hnext ht) hrest

end

theorem groupSum_sortedGroups (localeLe : Str → Str → Bool) (groups : List (Str × Counters))
    (counter : Counter) : groupSum (sortedGroups localeLe groups) counter =
      groupSum groups counter :=
  ((List.mergeSort_perm groups _).map _).sum_eq

theorem finishUsageReport_tallied (localeLe : Str → Str → Bool) {report : UsageReport}
    (ht : Tallied report) : Tallied (finishUsageReport localeLe report) where
  byProvider counter :=
    (groupSum_sortedGroups localeLe report.byProvider counter).trans (ht.byProvider counter)
  byModel counter :=
    (groupSum_sortedGroups localeLe report.byModel counter).trans (ht.byModel counter)
  totals := ht.totals
  providers group hgroup := ht.providers group ((List.mergeSort_perm _ _).mem_iff.mp hgroup)
  models group hgroup := ht.models group ((List.mergeSort_perm _ _).mem_iff.mp hgroup)

section
variable {dateParse : Str → Option TimeValue}
  (hdate : ∀ date, (dateParse (toISOString date)).isSome) (localeLe : Str → Str → Bool)
include hdate

theorem aggregate_get {requests : List Request} {chunks : List Bytes} {report : UsageReport}
    (hchunks : chunks.flatten = ledgerOf requests)
    (h : aggregateUsageFile dateParse decodeUtf8 Json.parse maxUsageRecordBytes localeLe
      (some chunks) = .ok report) :
    Tallied report ∧ ∀ counter, report.totals.get counter = amountOf requests counter := by
  rw [aggregateUsageFile_eq, hchunks, lineReport, pieces_ledgerOf] at h
  obtain ⟨lines, hlines, h⟩ := bind_eq_ok.mp h
  cases h
  obtain ⟨htallied, hget⟩ := addLines_get hdate hlines tallied_empty
  refine ⟨finishUsageReport_tallied localeLe htallied, fun counter => ?_⟩
  have hempty : emptyUsageReport.totals.get counter = 0 := get_emptyCounters counter
  rw [← Nat.zero_add (amountOf requests counter), ← hempty]
  exact hget counter

theorem aggregate_accepts {requests : List Request} {chunks : List Bytes}
    (hchunks : chunks.flatten = ledgerOf requests) :
    (∃ report, aggregateUsageFile dateParse decodeUtf8 Json.parse maxUsageRecordBytes localeLe
      (some chunks) = .ok report) ↔ Countable requests := by
  constructor
  · rintro ⟨report, h⟩ counter
    rw [← (aggregate_get hdate localeLe hchunks h).2]
    exact report.totals.get_le counter
  · intro hcountable
    have hfits : ∀ counter, emptyUsageReport.totals.get counter + amountOf requests counter ≤
        maxSafeInteger := by
      intro counter
      have hempty : emptyUsageReport.totals.get counter = 0 := get_emptyCounters counter
      rw [hempty, Nat.zero_add]
      exact hcountable counter
    obtain ⟨lines, hlines⟩ := addLines_fits hdate 1 tallied_empty hfits
    rw [aggregateUsageFile_eq, hchunks, lineReport, pieces_ledgerOf, hlines]
    exact ⟨_, rfl⟩

end

theorem Countable.sublist {requests part : List Request} (h : Countable requests)
    (hpart : part.Sublist requests) : Countable part := by
  intro counter
  have hle : amountOf part counter ≤ amountOf requests counter :=
    (hpart.map fun request : Request => request.amount counter).sum_le_sum fun _ _ => Nat.zero_le _
  exact hle.trans (h counter)

/-- The report of a ledger that the gateway wrote. It is accepted exactly where every counter of
all records together is a safe integer; the totals are then those of the records, the providers and
the models; and no record is in the way of the others. -/
theorem usage_report {dateParse : Str → Option TimeValue}
    (hdate : ∀ date, (dateParse (toISOString date)).isSome) (localeLe : Str → Str → Bool)
    {requests : List Request} {chunks : List Bytes}
    (hchunks : chunks.flatten = ledgerOf requests) :
    ((∃ report, aggregateUsageFile dateParse decodeUtf8 Json.parse maxUsageRecordBytes localeLe
        (some chunks) = .ok report) ↔ Countable requests) ∧
    (∀ report, aggregateUsageFile dateParse decodeUtf8 Json.parse maxUsageRecordBytes localeLe
        (some chunks) = .ok report →
      Tallied report ∧ ∀ counter, report.totals.get counter = amountOf requests counter) ∧
    (Countable requests → ∀ part, part.Sublist requests → ∀ pieces : List Bytes,
      pieces.flatten = ledgerOf part →
        ∃ report, aggregateUsageFile dateParse decodeUtf8 Json.parse maxUsageRecordBytes localeLe
          (some pieces) = .ok report) := by
  refine ⟨aggregate_accepts hdate localeLe hchunks,
    fun report => aggregate_get hdate localeLe hchunks, ?_⟩
  intro hcountable part hpart pieces hpieces
  exact (aggregate_accepts hdate localeLe hpieces).mpr (hcountable.sublist hpart)

def epoch : TimeValue := ⟨0, TimeValue.zero_inRange⟩

/-- A `Date.parse` that takes every date for the epoch. -/
def parseEpoch (_ : Str) : Option TimeValue := some epoch

/-- A request for which the upstream reports these tokens. -/
def reported (input output : ℕ) : Request where
  account := lit "work"
  model := lit "gpt"
  isAccount := by decide +kernel
  isModel := by decide +kernel
  started := epoch
  clock := ⟨epoch, epoch⟩
  outcome := .ok
  event := some (.obj [(lit "type", .str (lit "done")), (lit "message", .obj [(lit "usage",
    .obj [(lit "input", .num (Number.round input)), (lit "output", .num (Number.round output))])])])

theorem countable_reported : Countable [reported 7 5] := by
  intro counter
  cases counter with
  | outcome text =>
    have hle : (reported 7 5).amount (.outcome text) ≤ 1 := by
      change (if _ then 1 else 0) ≤ 1
      split_ifs <;> decide
    exact hle.trans (by decide)
  | requests | latencyMs | inputTokens | outputTokens | totalTokens | cachedInputTokens
  | reasoningTokens => decide +kernel

theorem usage_report_reported :
    ∃ report, aggregateUsageFile parseEpoch decodeUtf8 Json.parse maxUsageRecordBytes
      (fun _ _ => true) (some [ledgerOf [reported 7 5]]) = .ok report ∧
        report.totals.get .totalTokens = 12 := by
  have hdate : ∀ date, (parseEpoch (toISOString date)).isSome := fun _ => rfl
  have hchunks : [ledgerOf [reported 7 5]].flatten = ledgerOf [reported 7 5] :=
    List.flatten_singleton
  obtain ⟨haccepts, hcounts, -⟩ := usage_report hdate (fun _ _ => true) hchunks
  obtain ⟨report, hreport⟩ := haccepts.mpr countable_reported
  have htotal : amountOf [reported 7 5] .totalTokens = 12 := by decide +kernel
  exact ⟨report, hreport, ((hcounts report hreport).2 .totalTokens).trans htotal⟩

theorem usage_report_overflow :
    ¬ ∃ report, aggregateUsageFile parseEpoch decodeUtf8 Json.parse maxUsageRecordBytes
      (fun _ _ => true) (some [ledgerOf [reported maxSafeInteger 1]]) = .ok report := by
  rw [aggregate_accepts (fun _ => rfl) _ List.flatten_singleton]
  intro hcountable
  have htotal : amountOf [reported maxSafeInteger 1] .totalTokens = 2 ^ 53 := by decide +kernel
  have hle := hcountable .totalTokens
  rw [htotal] at hle
  exact absurd hle (by decide)

end Cyclo.Gateway
