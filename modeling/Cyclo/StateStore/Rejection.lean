import Cyclo.StateStore.Enumeration

/-! Cohorts that `save_many` refuses, and what later operations see of the attempt. -/
namespace Cyclo.StateStore
open Python Process

variable {s t : Realm}

/-- The results of operations one after the other, none of which fails by itself. -/
inductive Behaves : Realm → List (Host × Operation) → List (Except Failure Result) → Prop
  | nil {s : Realm} : Behaves s [] []
  | cons {s t : Realm} {host : Host} {operation : Operation} {r : Except Failure Result}
      {later : List (Host × Operation)} {results : List (Except Failure Result)} :
      Runs (realmStorage.kernel False) 0 (operation.call host).run s (some r) t →
      Behaves t later results → Behaves s ((host, operation) :: later) (r :: results)

theorem Settled.reports_unique {w : Settled} {a b : Except Failure (List Record × List Failure)}
    (ha : w.Reports a) (hb : w.Reports b) : a = b := by
  unfold Reports at ha hb
  cases hblocked : w.blocked with
  | some e =>
    rw [hblocked] at ha hb
    exact Eq.trans ha (Eq.symm hb)
  | none =>
    rw [hblocked] at ha hb
    obtain ⟨names, hsorted, hmem, rfl⟩ := ha
    obtain ⟨names', hsorted', hmem', rfl⟩ := hb
    have hperm : names.Perm names' := by
      refine (List.perm_ext_iff_of_nodup (hsorted.imp fun h => ne_of_lt h)
        (hsorted'.imp fun h => ne_of_lt h)).mpr fun name => ?_
      rw [hmem, hmem']
    have heq : names = names' := hperm.eq_of_pairwise (fun _ _ _ _ h h' => absurd h (lt_asymm h'))
      hsorted hsorted'
    rw [heq]

theorem Settled.answers_unique {w : Settled} {host : Host} {operation : Operation}
    {a b : Except Failure Result} (ha : w.Answers host operation a)
    (hb : w.Answers host operation b) : a = b := by
  cases operation with
  | listReport =>
    obtain ⟨found, hfound, rfl⟩ := ha
    obtain ⟨found', hfound', rfl⟩ := hb
    rw [reports_unique hfound hfound']
  | list =>
    obtain ⟨found, hfound, rfl⟩ := ha
    obtain ⟨found', hfound', rfl⟩ := hb
    rw [reports_unique hfound hfound']
  | _ => exact Eq.trans ha (Eq.symm hb)

/-- A complete run without faults answers as the settled entries do. -/
theorem runs_answers {host : Host} {operation : Operation} {r : Except Failure Result}
    (h : Runs (realmStorage.kernel False) 0 (operation.call host).run s (some r) t) :
    s.settled.Answers host operation r ∧ t.settled = s.settled.after host operation ∧
      t.view = t.settled.view := by
  have hlead := operation_leads (F := False) host operation s
  cases r with
  | ok result =>
    obtain ⟨hafter, -, hexact⟩ := hlead.returns h
    obtain ⟨hview, hanswer⟩ := hexact.resolve_left id
    exact ⟨hanswer, hafter, by rw [hafter, hview]⟩
  | error e =>
    obtain ⟨⟨hafter, hview⟩, hanswer⟩ := (hlead.raises h).resolve_left And.left
    exact ⟨hanswer, hafter, by rw [hafter, hview]⟩

theorem runs_exists (host : Host) (operation : Operation) (s : Realm) :
    ∃ r t, Runs (realmStorage.kernel False) 0 (operation.call host).run s (some r) t :=
  (operation_leads (F := False) host operation s).total

theorem behaves_of_settled {u : Realm} {later : List (Host × Operation)}
    {results : List (Except Failure Result)} (hsettled : u.settled = s.settled)
    (h : Behaves s later results) : Behaves u later results := by
  induction h generalizing u with
  | nil => exact .nil
  | @cons s t host operation r later results hrun _ ih =>
    obtain ⟨hanswer, hafter, -⟩ := runs_answers hrun
    obtain ⟨r', v, hrun'⟩ := runs_exists host operation u
    obtain ⟨hanswer', hafter', -⟩ := runs_answers hrun'
    rw [hsettled] at hanswer' hafter'
    have hr : r' = r := Settled.answers_unique hanswer' hanswer
    subst hr
    exact .cons hrun' (ih (hafter'.trans hafter.symm))

/-- The checks pass whatever the clock says. -/
def Instance.Sound (i : Instance) : Prop := ∀ now, (i.stamp now).check = .ok ()

theorem Instance.check_stamp (i : Instance) (now now' : String) :
    (i.stamp now).check = .ok () ↔ (i.stamp now').check = .ok () := by
  have hcheck : (i.stamp now).check = (i.stamp now').check := by
    unfold Instance.stamp
    cases i.createdAt.truthy <;> rfl
  rw [hcheck]

/-- Every entry of the cohort is valid, and no two have one identifier. -/
def Acceptable (instances : List Instance) : Prop :=
  (∀ i ∈ instances, i.Sound) ∧ (instances.map fun i => i.id.text).Nodup

theorem prepareInstance_returns {now : String} {i : Instance} :
    (∃ record, prepareInstance now i = .ok record) ↔ i.Sound := by
  constructor
  · intro h
    obtain ⟨record, h⟩ := h
    intro now'
    rw [Instance.check_stamp i now' now, ← (prepareInstance_eq_ok h).1]
    exact record.valid
  · intro h
    have hvalid := h now
    obtain ⟨⟨identifier, hid, hidentifier⟩, -⟩ := Instance.of_check hvalid
    have hid : i.id = .str identifier := hid
    refine ⟨⟨i.stamp now, hvalid⟩, bind_eq_ok.mpr ⟨(), ?_, ?_⟩⟩
    · rw [hid]
      exact validateInstanceId_valid hidentifier
    · have hread := Record.fromJson_fields ⟨i.stamp now, hvalid⟩
      exact (congrArg (Except.mapError _) hread).trans rfl

theorem prepareBatch_returns {now : ℕ → String} {identifiers : List String}
    {instances : List Instance} :
    (∃ records, prepareBatch now identifiers instances = .ok records) ↔
      (∀ i ∈ instances, i.Sound) ∧ (instances.map fun i => i.id.text).Nodup ∧
        ∀ i ∈ instances, i.id.text ∉ identifiers := by
  induction instances generalizing identifiers with
  | nil =>
    exact iff_of_true ⟨[], rfl⟩
      (And.intro (List.forall_mem_nil _) (And.intro List.nodup_nil (List.forall_mem_nil _)))
  | cons i instances ih =>
    rw [List.forall_mem_cons, List.map_cons, List.nodup_cons, List.forall_mem_cons]
    constructor
    · intro h
      obtain ⟨records, h⟩ := h
      obtain ⟨_, -, h⟩ := bind_eq_ok.mp h
      obtain ⟨_, hnew, h⟩ := bind_eq_ok.mp h
      obtain ⟨record, hrecord, h⟩ := bind_eq_ok.mp h
      obtain ⟨rest, hrest, -⟩ := bind_eq_ok.mp h
      have hid := (prepareInstance_eq_ok hrecord).2
      have htext : i.id.text = record.id := by
        rw [hid]
        rfl
      have hnew := require_eq_ok.mp hnew
      rw [hid, Value.isStr, Bool.not_true, Bool.or_false] at hnew
      have hnew : record.id ∉ identifiers := of_decide_eq_true hnew
      obtain ⟨hsound, hnodup, hfresh⟩ := ih.mp ⟨rest, hrest⟩
      rw [htext]
      refine ⟨⟨prepareInstance_returns.mp ⟨record, hrecord⟩, hsound⟩, ⟨?_, hnodup⟩, hnew,
        fun other hother hmem => hfresh other hother (List.mem_cons_of_mem _ hmem)⟩
      intro hmem
      obtain ⟨other, hother, heq⟩ := List.mem_map.mp hmem
      exact hfresh other hother (heq ▸ List.mem_cons_self)
    · intro h
      obtain ⟨⟨hfirst, hsound⟩, ⟨hdistinct, hnodup⟩, hnew, hfresh⟩ := h
      obtain ⟨record, hrecord⟩ : ∃ record, prepareInstance (now identifiers.length) i = .ok record :=
        prepareInstance_returns.mpr hfirst
      have hid := (prepareInstance_eq_ok hrecord).2
      have htext : i.id.text = record.id := by
        rw [hid]
        rfl
      rw [htext] at hdistinct hnew
      obtain ⟨rest, hrest⟩ : ∃ rest, prepareBatch now (record.id :: identifiers) instances =
          .ok rest := ih.mpr ⟨hsound, hnodup, fun other hother hmem => by
          rcases List.mem_cons.mp hmem with heq | hmem
          · exact hdistinct (heq ▸ List.mem_map_of_mem (f := fun i : Instance => i.id.text) hother)
          · exact hfresh other hother hmem⟩
      refine ⟨record :: rest, bind_eq_ok.mpr ⟨(), ?_, bind_eq_ok.mpr ⟨(), ?_, bind_eq_ok.mpr
        ⟨record, hrecord, bind_eq_ok.mpr ⟨rest, hrest, rfl⟩⟩⟩⟩⟩
      · rw [hid]
        rfl
      · rw [require_eq_ok, hid, Value.isStr, Bool.not_true, Bool.or_false]
        exact decide_eq_true hnew

theorem acceptable_iff {now : ℕ → String} {instances : List Instance} :
    (∃ records, prepareBatch now [] instances = .ok records) ↔ Acceptable instances := by
  rw [prepareBatch_returns]
  constructor
  · intro h
    exact ⟨h.1, h.2.1⟩
  · intro h
    exact ⟨h.1, h.2, fun _ _ => List.not_mem_nil⟩

/-- The records of the cohort are those that the recovery of the earlier batch leaves, and no later
operations tell that the call was made. -/
def Unaffected (instances : List Instance) (s t : Realm) : Prop :=
  (∀ i ∈ instances, t.view i.id.text = s.settled.view i.id.text) ∧
    ∀ later results, Behaves t later results ↔ Behaves s later results

theorem destination_not_entry {identifier name : String} {entry : Option Entry} {cause : Failure} :
    destination identifier entry ≠ .error (.caused (.entry name) cause) := by
  intro h
  unfold destination at h
  split at h
  · cases h
  · split_ifs at h
    cases h
  · unfold existingDocument at h
    cases hread : (readJson _ >>= fromJson) with
    | error e =>
      rw [hread] at h
      cases h
    | ok existing =>
      rw [hread] at h
      change (if existing.id = identifier then _ else _) = _ at h
      split_ifs at h
      cases h
  all_goals cases h

theorem publish_not_entry {records : List Record} {view : View} {name : String} {cause : Failure} :
    (publish records view).blocked ≠ some (.caused (.entry name) cause) := by
  intro h
  induction records generalizing view with
  | nil => cases h
  | cons record records ih =>
    rw [publish] at h
    cases hdestination : destination record.id (view record.id) with
    | ok _ =>
      rw [hdestination] at h
      exact ih h
    | error e =>
      rw [hdestination] at h
      cases h
      exact destination_not_entry hdestination

theorem mem_report_entry {view : View} {names : List String} {e : Failure}
    (h : e ∈ (gather (names.map view.report)).2) : ∃ name cause, e = .caused (.entry name) cause := by
  rw [mem_gather.2] at h
  obtain ⟨name, -, hreport⟩ := List.mem_map.mp h
  unfold View.report at hreport
  cases hentry : view.loadEntry name with
  | ok record =>
    rw [hentry] at hreport
    cases hreport
  | error cause =>
    rw [hentry] at hreport
    cases hreport
    exact ⟨name, cause, rfl⟩

/-- A batch that blocks the store is seen by the next enumeration. -/
theorem behaves_blocked {e : Failure} (hs : s.settled.blocked = none)
    (ht : t.settled.blocked = some e) (hcyclo : e.isCyclo = true)
    (hentry : ∀ name cause, e ≠ .caused (.entry name) cause) (host : Host) :
    ¬ ∀ later results, Behaves t later results ↔ Behaves s later results := by
  intro hsame
  obtain ⟨r, u, hrun⟩ := runs_exists host .listReport s
  have hbehaves := (hsame _ _).mpr (Behaves.cons hrun .nil)
  cases hbehaves with
  | cons hrun' _ =>
    obtain ⟨found, hfound, rfl⟩ := (runs_answers hrun).1
    obtain ⟨found', hfound', heq⟩ := (runs_answers hrun').1
    unfold Settled.Reports at hfound hfound'
    rw [hs] at hfound
    rw [ht] at hfound'
    obtain ⟨names, -, -, rfl⟩ := hfound
    change found' = _ at hfound'
    rw [if_pos hcyclo] at hfound'
    subst hfound'
    simp only [Except.map, Except.ok.injEq, Result.report.injEq] at heq
    have hmem : e ∈ (gather (names.map s.settled.view.report)).2 := by
      rw [heq.2]
      exact List.mem_singleton_self e
    obtain ⟨name, cause, he⟩ := mem_report_entry hmem
    exact hentry name cause he

theorem saveMany_run {host : Host} {instances : List Instance} {e : Failure}
    (h : Runs (realmStorage.kernel False) 0 (saveMany host instances).run s (some (.error e)) t) :
    Stopped (s.settled.saveMany host.now instances).2 t ∧
      (s.settled.saveMany host.now instances).1 = .error e :=
  ((saveMany_leads (F := False) host instances settled_seen (fun _ h => .inl h)
    fun _ h => .inr h).raises h).resolve_left And.left

/-- A refused cohort, in a run that nothing else disturbs: no record changes and no later operation
is affected, if and only if an entry of the cohort is invalid or repeated, or the batch that was
pending before cannot be recovered. It is not so where an existing entry refuses its document. -/
theorem save_many_refusal {host : Host} {instances : List Instance} {e : Failure}
    (h : Runs (realmStorage.kernel False) 0 (saveMany host instances).run s (some (.error e)) t) :
    Unaffected instances s t ↔ s.settled.blocked ≠ none ∨ ¬ Acceptable instances := by
  obtain ⟨⟨hsettled, hview⟩, hanswer⟩ := saveMany_run h
  have hkept : (s.settled.saveMany host.now instances).2 = s.settled → Unaffected instances s t := by
    intro hsame
    rw [hsame] at hsettled hview
    exact ⟨fun i _ => by rw [hview], fun later results =>
      ⟨behaves_of_settled hsettled.symm, behaves_of_settled hsettled⟩⟩
  cases hblocked : s.settled.blocked with
  | some e' =>
    refine iff_of_true (hkept ?_) (.inl nofun)
    unfold Settled.saveMany
    rw [hblocked]
  | none =>
    cases hprepared : prepareBatch host.now [] instances with
    | error e' =>
      refine iff_of_true (hkept ?_) (.inr fun hacceptable => ?_)
      · unfold Settled.saveMany
        rw [hblocked, hprepared]
      · obtain ⟨records, hrecords⟩ : ∃ records, prepareBatch host.now [] instances = .ok records :=
          acceptable_iff.mpr hacceptable
        rw [hprepared] at hrecords
        cases hrecords
    | ok records =>
      refine iff_of_false (fun hunaffected => ?_) ?_
      · unfold Settled.saveMany at hanswer hsettled
        rw [hblocked, hprepared] at hanswer hsettled
        cases hpublish : (publish records s.settled.view).blocked with
        | none =>
          simp only [hpublish] at hanswer
          cases hanswer
        | some e' =>
          simp only [hpublish] at hsettled
          exact behaves_blocked hblocked (by rw [hsettled, hpublish]) (publish_isCyclo hpublish)
            (fun _ _ heq => publish_not_entry (heq ▸ hpublish)) host hunaffected.2
      · rintro (hne | hunacceptable)
        · exact hne rfl
        · exact hunacceptable (acceptable_iff.mp ⟨records, hprepared⟩)

def demoInstance (identifier : String) : Instance where
  id := .str identifier
  teamName := .str "team"
  teamPath := .str "/srv/team"
  generation := .str "g1"
  models := .list [.str "provider/model"]
  image := .str "sha256:0000000000000000000000000000000000000000000000000000000000000000"
  imageOverride := .str ""
  teamWrite := .bool false
  offline := .bool false
  verbose := .bool false
  agentwsHost := .str "127.0.0.1"
  intent := .str "running"
  requestedPort := .int 0
  teamRoster := .str "roster"
  teamProtocol := .bool true
  piDefaultProvider := .str "provider"
  piDefaultModel := .str "model"
  projectName := .str "project"
  projectFile := .str "/srv/project/cyclo.project"
  projectDescription := .str "A project"
  projectGeneration := .str "p1"
  projectConfig := .str "project project"
  projectMounts := .list [.dict [("name", .str "src"), ("path", .str "/srv/src"), ("mode", .str "rw")]]
  runtimeVersion := .str "1"

def demoHost : Host := ⟨"state", fun _ => "2026-01-01T00:00:00Z"⟩

/-- A realm in which `run.json` of one instance is not JSON. -/
def spoiledRealm : Realm where
  instances := AList.insert "beta" (.directory (some (.regular .malformed)) []) ∅

def demoCohort : List Instance := [demoInstance "alpha", demoInstance "beta"]

theorem demoInstance_sound {identifier : String}
    (h : ((demoInstance identifier).stamp "").check = .ok ()) : (demoInstance identifier).Sound :=
  fun now => (Instance.check_stamp _ "" now).mp h

def isOk {ε α : Type} : Except ε α → Bool
  | .ok _ => true
  | .error _ => false

theorem eq_ok_of_isOk {ε : Type} {r : Except ε Unit} (h : isOk r = true) : r = .ok () := by
  cases r with
  | ok _ => rfl
  | error e => cases h

theorem demoCohort_acceptable : Acceptable demoCohort := by
  have halpha : (demoInstance "alpha").Sound :=
    demoInstance_sound (eq_ok_of_isOk (by decide +kernel))
  have hbeta : (demoInstance "beta").Sound :=
    demoInstance_sound (eq_ok_of_isOk (by decide +kernel))
  refine ⟨List.forall_mem_cons.mpr ⟨halpha, List.forall_mem_singleton.mpr hbeta⟩, ?_⟩
  decide +kernel

theorem spoiledRealm_refuses :
    ((spoiledRealm.settled.saveMany demoHost.now demoCohort).2.view "alpha").isSome = true ∧
      isOk (spoiledRealm.settled.saveMany demoHost.now demoCohort).1 = false := by
  decide +kernel

theorem saveMany_raises {host : Host} {instances : List Instance} (s : Realm)
    (h : isOk (s.settled.saveMany host.now instances).1 = false) : ∃ e t,
    Runs (realmStorage.kernel False) 0 (saveMany host instances).run s (some (.error e)) t := by
  have hlead := saveMany_leads (F := False) (s := s) host instances settled_seen
    (fun _ h => .inl h) (fun t (h : t.settled = (s.settled.saveMany host.now instances).2) => .inr h)
  obtain ⟨r, t, hrun⟩ := hlead.total
  cases r with
  | error e => exact ⟨e, t, hrun⟩
  | ok _ =>
    have hok := (hlead.returns hrun).2
    rw [hok] at h
    cases h

/-- A valid cohort is refused for what stands in its second member's place, and the first member's
record has changed. -/
theorem save_many_spoiled : Acceptable demoCohort ∧ ∃ e t,
    Runs (realmStorage.kernel False) 0 (saveMany demoHost demoCohort).run spoiledRealm
      (some (.error e)) t ∧ ¬ Unaffected demoCohort spoiledRealm t := by
  obtain ⟨hstored, hrefused⟩ := spoiledRealm_refuses
  obtain ⟨e, t, hrun⟩ := saveMany_raises spoiledRealm hrefused
  refine ⟨demoCohort_acceptable, e, t, hrun, fun hunaffected => ?_⟩
  have hview := (saveMany_run hrun).1.2
  have halpha : t.view "alpha" = spoiledRealm.settled.view "alpha" :=
    hunaffected.1 (demoInstance "alpha") List.mem_cons_self
  have habsent : spoiledRealm.settled.view "alpha" = none := by rfl
  rw [← hview, halpha, habsent] at hstored
  cases hstored

/-- A cohort with a repeated entry is refused without an effect. -/
theorem save_many_refusal_repeated : ∃ e t,
    Runs (realmStorage.kernel False) 0
      (saveMany demoHost [demoInstance "alpha", demoInstance "alpha"]).run {} (some (.error e)) t ∧
    Unaffected [demoInstance "alpha", demoInstance "alpha"] {} t := by
  obtain ⟨e, t, hrun⟩ := saveMany_raises {} (show isOk (Settled.saveMany _
    demoHost.now [demoInstance "alpha", demoInstance "alpha"]).1 = false by decide +kernel)
  refine ⟨e, t, hrun, (save_many_refusal hrun).mpr (.inr fun hacceptable => ?_)⟩
  exact absurd hacceptable.2 (by decide +kernel)

end Cyclo.StateStore
