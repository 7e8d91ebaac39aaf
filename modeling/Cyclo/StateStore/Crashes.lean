import Cyclo.Process.Locked
import Cyclo.StateStore.Rejection

/-! Processes that operate under the realm lock and can be killed anywhere, in particular inside
`save_many` and inside the recovery of what it left. -/
namespace Cyclo.StateStore
open Python Process

variable {s t : Realm} {w v : Settled} {identifier : String}

/-- One section under the realm lock. -/
abbrev Section := Event (Host × Operation) (Except Failure Result)

/-- The store with its processes; an operation can be killed, and can fail, at any point. -/
abbrev Sessions (s : Realm) (history : List Section) (t : Realm) : Prop :=
  LockRuns (realmStorage.kernel True) (fun call : Host × Operation => (call.2.call call.1).run)
    ⟨s, none⟩ history ⟨t, none⟩

/-- What one section does to the settled entries: all of it or nothing, and all of it where it
returns, with what the settled entries say. -/
def Settled.Step (event : Section) (w v : Settled) : Prop :=
  match event.outcome with
  | some (.ok result) =>
    v = w.after event.call.1 event.call.2 ∧ w.Tells event.call.1 event.call.2 result
  | _ => v = w ∨ v = w.after event.call.1 event.call.2

theorem section_step {event : Section}
    (h : Process.Section (realmStorage.kernel True)
      (fun call : Host × Operation => (call.2.call call.1).run) event s t) :
    Settled.Step event s.settled t.settled := by
  obtain ⟨p, ⟨host, operation⟩, outcome⟩ := event
  have hlead := operation_leads (F := True) host operation s
  unfold Settled.Step
  cases outcome with
  | none =>
    obtain ⟨rest, hreach⟩ := h
    exact hlead.reaches (Storage.reaches_any hreach)
  | some r =>
    have hrun : Runs (realmStorage.kernel True) 0 (operation.call host).run s (some r) t :=
      Storage.runs_any h
    cases r with
    | ok result =>
      obtain ⟨hafter, htells, -⟩ := hlead.returns hrun
      exact ⟨hafter, htells⟩
    | error e =>
      obtain ⟨y, hreach⟩ := hrun.reaches
      exact hlead.reaches hreach

/-- The sections of any interleaving are operations on the settled entries, one after the other. -/
theorem Sessions.serial {history : List Section} (h : Sessions s history t) :
    Serial Settled.Step s.settled history t.settled :=
  Serial.map (f := Realm.settled) (fun _ _ _ hstep => section_step hstep) (LockRuns.serial h)

/-- The operation stores a record of the instance. -/
def Operation.Stores (identifier : String) : Operation → Prop
  | .save i => i.id = .str identifier
  | .saveMany instances => ∃ i ∈ instances, i.id = .str identifier
  | _ => False

/-- The record is one that the operation stores, with the times of the call. -/
def Operation.Saved (record : Record) : Operation → Prop
  | .save i => ∃ time, record.fields = i.stamp time
  | .saveMany instances => ∃ i ∈ instances, ∃ time, record.fields = i.stamp time
  | _ => False

theorem after_absent {host : Host} {operation : Operation} (h : ¬ operation.Stores identifier)
    (hw : w.view identifier = none) : (w.after host operation).view identifier = none := by
  cases operation with
  | save i =>
    change (w.save (host.now 0) i).2.view identifier = none
    unfold Settled.save
    cases w.blocked with
    | some e => exact hw
    | none =>
      cases hprepared : prepareInstance (host.now 0) i with
      | error e => exact hw
      | ok record =>
        simp only
        cases destination record.id (w.view record.id) with
        | error e => exact hw
        | ok _ =>
          refine (View.put_of_ne fun heq => h ?_).trans hw
          rw [heq]
          exact (prepareInstance_eq_ok hprepared).2
  | saveMany instances =>
    change (w.saveMany host.now instances).2.view identifier = none
    unfold Settled.saveMany
    cases w.blocked with
    | some e => exact hw
    | none =>
      cases hprepared : prepareBatch host.now [] instances with
      | error e => exact hw
      | ok records =>
        have hkeep : (publish records w.view).view identifier = none := by
          rw [publish_frame fun record hmem heq => ?_]
          · exact hw
          · obtain ⟨i, hi, time, -, hid⟩ := (mem_of_forall₂ (prepareBatch_entries hprepared)).1 record
              hmem
            exact h ⟨i, hi, by rw [hid, heq]⟩
        cases hblocked : (publish records w.view).blocked <;> simp only [hblocked] <;> exact hkeep
  | remove other =>
    change (w.remove other).2.view identifier = none
    unfold Settled.remove
    cases w.load other with
    | error e => exact hw
    | ok record =>
      simp only
      split_ifs
      · by_cases hother : identifier = other
        · rw [hother]
          exact Function.update_self ..
        · exact (Function.update_of_ne hother ..).trans hw
      · exact hw
  | _ => exact hw

theorem View.load_congr {view view' : View} (h : view identifier = view' identifier) :
    view.load identifier = view'.load identifier := by
  unfold load
  rw [h]

theorem View.load_stored {view : View} {record : Record} {others : List String}
    (h : view record.id = some (stored record others)) : view.load record.id = .ok record := by
  have hread : openMetadata (view record.id) >>= fromJson = .ok record := by
    rw [h]
    exact record.fromJson_fields
  have hlinked : notLinked record.id (view record.id) = .ok () := by
    rw [h]
    rfl
  rw [View.load_eq record.validId, hread, hlinked]
  change (if record.id = record.id then _ else _) = _
  exact if_pos rfl

/-- A record stays until another one takes its place. -/
theorem put_loads {view : View} {record new : Record} (h : view.load identifier = .ok record) :
    ∃ found, (view.put new).load identifier = .ok found ∧ (found = record ∨ found = new) := by
  by_cases hid : identifier = new.id
  · rw [hid]
    exact ⟨new, View.load_stored View.put_self, .inr rfl⟩
  · rw [View.load_congr (View.put_of_ne hid)]
    exact ⟨record, h, .inl rfl⟩

theorem publish_loads {records : List Record} {view : View} {record : Record}
    (h : view.load identifier = .ok record) :
    ∃ found, (publish records view).view.load identifier = .ok found ∧
      (found = record ∨ found ∈ records) := by
  induction records generalizing view record with
  | nil => exact ⟨record, h, .inl rfl⟩
  | cons new records ih =>
    rw [publish]
    cases destination new.id (view new.id) with
    | error e => exact ⟨record, h, .inl rfl⟩
    | ok _ =>
      have hput : ∃ found, (view.put new).load identifier = .ok found ∧
          (found = record ∨ found = new) := put_loads h
      obtain ⟨placed, hplaced, hcase⟩ := hput
      obtain ⟨found, hfound, hlast⟩ := ih hplaced
      refine ⟨found, hfound, ?_⟩
      rcases hlast with rfl | hmem
      · rcases hcase with rfl | rfl
        · exact .inl rfl
        · exact .inr List.mem_cons_self
      · exact .inr (List.mem_cons_of_mem _ hmem)

theorem after_loads {host : Host} {operation : Operation} {record : Record}
    (h : operation ≠ .remove identifier) (hw : w.view.load identifier = .ok record) :
    ∃ found, (w.after host operation).view.load identifier = .ok found ∧
      (found = record ∨ operation.Saved found) := by
  cases operation with
  | save i =>
    change ∃ found, (w.save (host.now 0) i).2.view.load identifier = .ok found ∧ _
    unfold Settled.save
    cases w.blocked with
    | some e => exact ⟨record, hw, .inl rfl⟩
    | none =>
      cases hprepared : prepareInstance (host.now 0) i with
      | error e => exact ⟨record, hw, .inl rfl⟩
      | ok new =>
        simp only
        cases destination new.id (w.view new.id) with
        | error e => exact ⟨record, hw, .inl rfl⟩
        | ok _ =>
          have hput : ∃ found, (w.view.put new).load identifier = .ok found ∧
              (found = record ∨ found = new) := put_loads hw
          obtain ⟨found, hfound, hcase⟩ := hput
          refine ⟨found, hfound, hcase.imp_right fun heq => ?_⟩
          rw [heq]
          exact ⟨_, (prepareInstance_eq_ok hprepared).1⟩
  | saveMany instances =>
    change ∃ found, (w.saveMany host.now instances).2.view.load identifier = .ok found ∧ _
    unfold Settled.saveMany
    cases w.blocked with
    | some e => exact ⟨record, hw, .inl rfl⟩
    | none =>
      cases hprepared : prepareBatch host.now [] instances with
      | error e => exact ⟨record, hw, .inl rfl⟩
      | ok records =>
        have hpublish : ∃ found, (publish records w.view).view.load identifier = .ok found ∧
            (found = record ∨ found ∈ records) := publish_loads hw
        obtain ⟨found, hfound, hcase⟩ := hpublish
        have hsaved : found = record ∨ Operation.Saved found (.saveMany instances) := by
          refine hcase.imp_right fun hmem => ?_
          obtain ⟨i, hi, time, hfields, -⟩ := (mem_of_forall₂ (prepareBatch_entries hprepared)).1
            found hmem
          exact ⟨i, hi, time, hfields⟩
        cases hblocked : (publish records w.view).blocked <;> simp only [hblocked] <;>
          exact ⟨found, hfound, hsaved⟩
  | remove other =>
    change ∃ found, (w.remove other).2.view.load identifier = .ok found ∧ _
    unfold Settled.remove
    cases w.load other with
    | error e => exact ⟨record, hw, .inl rfl⟩
    | ok removed =>
      simp only
      split_ifs
      · have hother : identifier ≠ other := by
          rintro rfl
          exact h rfl
        refine ⟨record, ?_, .inl rfl⟩
        rw [View.load_congr (Function.update_of_ne hother ..)]
        exact hw
      · exact ⟨record, hw, .inl rfl⟩
  | _ => exact ⟨record, hw, .inl rfl⟩

/-- Nothing stands in the way of any instance's document. -/
def Settled.Sound (w : Settled) : Prop :=
  w.blocked = none ∧ ∀ identifier, validId identifier = true →
    destination identifier (w.view identifier) = .ok ()

theorem put_sound {view : View} {record : Record}
    (h : ∀ identifier, validId identifier = true → destination identifier (view identifier) = .ok ())
    (identifier : String) (hid : validId identifier = true) :
    destination identifier (view.put record identifier) = .ok () := by
  by_cases heq : identifier = record.id
  · rw [heq, View.put_self]
    exact destination_stored record _
  · rw [View.put_of_ne heq]
    exact h identifier hid

theorem publish_sound {records : List Record} {view : View}
    (h : ∀ identifier, validId identifier = true →
      destination identifier (view identifier) = .ok ()) : (publish records view).Sound := by
  induction records generalizing view with
  | nil => exact ⟨rfl, h⟩
  | cons record records ih =>
    rw [publish, h record.id record.validId]
    exact ih (put_sound h)

theorem after_sound {host : Host} {operation : Operation} (h : w.Sound) :
    (w.after host operation).Sound := by
  cases operation with
  | save i =>
    change (w.save (host.now 0) i).2.Sound
    unfold Settled.save
    rw [h.1]
    cases prepareInstance (host.now 0) i with
    | error e => exact h
    | ok record =>
      simp only [h.2 record.id record.validId]
      exact ⟨rfl, put_sound h.2⟩
  | saveMany instances =>
    change (w.saveMany host.now instances).2.Sound
    unfold Settled.saveMany
    rw [h.1]
    cases prepareBatch host.now [] instances with
    | error e => exact h
    | ok records =>
      have hsound : (publish records w.view).Sound := publish_sound h.2
      simp only [hsound.1]
      exact hsound
  | remove other =>
    change (w.remove other).2.Sound
    unfold Settled.remove
    cases w.load other with
    | error e => exact h
    | ok record =>
      simp only
      split_ifs
      · refine ⟨rfl, fun identifier hid => ?_⟩
        change destination identifier (Function.update w.view other none identifier) = _
        by_cases hother : identifier = other
        · rw [hother, Function.update_self]
          rfl
        · rw [Function.update_of_ne hother]
          exact h.2 identifier hid
      · exact h
  | _ => exact h

theorem Settled.Step.cases {event : Section} (h : Settled.Step event w v) :
    v = w ∨ v = w.after event.call.1 event.call.2 := by
  unfold Settled.Step at h
  split at h
  · exact .inr h.1
  · exact h

/-- All records of the cohort are the new ones; or a place was taken, and then no instance is
returned at all. -/
def AllNew (instances : List Instance) (w : Settled) : Prop :=
  (∃ records : List Record,
    List.Forall₂ (fun i record => ∃ time, record.fields = i.stamp time) instances records ∧
      ∀ record ∈ records, w.load record.id = .ok record) ∨
  ∃ e, ∀ identifier, w.load identifier = .error e

theorem saveMany_new {now : ℕ → String} {instances : List Instance} :
    (w.saveMany now instances).2 = w ∨ AllNew instances (w.saveMany now instances).2 := by
  unfold Settled.saveMany
  cases hw : w.blocked with
  | some e => exact .inl rfl
  | none =>
    cases hprepared : prepareBatch now [] instances with
    | error e => exact .inl rfl
    | ok records =>
      right
      cases hblocked : (publish records w.view).blocked with
      | some e =>
        simp only [hblocked]
        exact .inr ⟨e, Settled.load_blocked hblocked⟩
      | none =>
        simp only [hblocked]
        refine .inl ⟨records, (prepareBatch_entries hprepared).imp fun _ _ hentry => ?_,
          fun record hmem => ?_⟩
        · obtain ⟨time, hfields, -⟩ := hentry
          exact ⟨time, hfields⟩
        · rw [Settled.load_unblocked hblocked]
          exact View.load_stored (publish_stores (prepareBatch_ids hprepared).1 hblocked record hmem)

/-- What is settled does not change when recovery runs, is cut or is repeated, and a repeated
recovery ends as the first. -/
def RecoveryIdempotent (t : Realm) : Prop :=
  (∀ rest u, Reaches (realmStorage.kernel True) 0 recoverPendingBatchLocked.run t rest u →
    u.settled = t.settled) ∧
  ∀ r u r' v, Runs (realmStorage.kernel False) 0 recoverPendingBatchLocked.run t (some r) u →
    Runs (realmStorage.kernel False) 0 recoverPendingBatchLocked.run u (some r') v →
    r' = r ∧ v.view = u.view ∧ v.settled = u.settled

theorem same_seen (w : Settled) : Seen fun t => t.settled = w := by
  intro t u hjournal hview ht
  unfold Realm.settled at ht ⊢
  rw [← hjournal, ← hview]
  exact ht

theorem recovery_ends {r : Except Failure Unit} {u : Realm}
    (h : Runs (realmStorage.kernel False) 0 recoverPendingBatchLocked.run t (some r) u) :
    u.settled = t.settled ∧ u.view = t.settled.view ∧
      r = match t.settled.blocked with
        | none => .ok ()
        | some e => .error e := by
  have hlead := recoverPendingBatchLocked_leads (F := False) (same_seen t.settled) fun _ h => h
  cases r with
  | ok _ =>
    have hclear : Clear t.settled u := hlead.returns h
    refine ⟨hclear.2, hclear.view, ?_⟩
    rw [hclear.unblocked]
  | error e =>
    obtain ⟨hsettled, hview, hblocked⟩ := (hlead.raises h).resolve_left And.left
    refine ⟨hsettled, hview, ?_⟩
    rw [hblocked]

theorem recovery_idempotent (t : Realm) : RecoveryIdempotent t := by
  constructor
  · intro rest u h
    exact (recoverPendingBatchLocked_leads (F := True) (same_seen t.settled) fun _ h => h).reaches h
  · intro r u r' v hfirst hsecond
    obtain ⟨hu, huview, hr⟩ := recovery_ends hfirst
    obtain ⟨hv, hvview, hr'⟩ := recovery_ends hsecond
    rw [hu] at hvview hr'
    exact ⟨hr'.trans hr.symm, hvview.trans huview.symm, hv⟩

/-- The sections after a point keep what the settled entries hold there: an absent instance appears
only when it is saved, a stored one is replaced only by a saved one and disappears only when it is
removed, and nothing is blocked where nothing stood in the way. -/
structure Keeps (w : Settled) (history : List Section) (v : Settled) : Prop where
  absent : ∀ identifier, w.view identifier = none →
    (∀ event ∈ history, ¬ event.call.2.Stores identifier) → v.view identifier = none
  stored : ∀ identifier record, w.view.load identifier = .ok record →
    (∀ event ∈ history, event.call.2 ≠ .remove identifier) →
    ∃ found, v.view.load identifier = .ok found ∧
      (found = record ∨ ∃ event ∈ history, event.call.2.Saved found)
  sound : w.Sound → v.Sound

theorem Serial.keeps {history : List Section} (h : Serial Settled.Step w history v) :
    Keeps w history v := by
  induction h with
  | nil => exact ⟨fun _ h _ => h, fun _ record h _ => ⟨record, h, .inl rfl⟩, id⟩
  | @cons a b c event later hstep _ ih =>
    have hcases := hstep.cases
    constructor
    · intro identifier habsent hstores
      obtain ⟨hevent, hlater⟩ := List.forall_mem_cons.mp hstores
      refine ih.absent identifier ?_ hlater
      rcases hcases with rfl | rfl
      · exact habsent
      · exact after_absent hevent habsent
    · intro identifier record hrecord hremoves
      obtain ⟨hevent, hlater⟩ := List.forall_mem_cons.mp hremoves
      obtain ⟨placed, hplaced, hfirst⟩ : ∃ found, b.view.load identifier = .ok found ∧
          (found = record ∨ event.call.2.Saved found) := by
        rcases hcases with rfl | rfl
        · exact ⟨record, hrecord, .inl rfl⟩
        · exact after_loads hevent hrecord
      obtain ⟨found, hfound, hlast⟩ := ih.stored identifier placed hplaced hlater
      refine ⟨found, hfound, ?_⟩
      rcases hlast with rfl | ⟨other, hother, hsaved⟩
      · exact hfirst.imp_right fun hsaved => ⟨event, List.mem_cons_self, hsaved⟩
      · exact .inr ⟨other, List.mem_cons_of_mem _ hother, hsaved⟩
    · intro hsound
      refine ih.sound ?_
      rcases hcases with rfl | rfl
      · exact hsound
      · exact after_sound hsound

/-- A crash anywhere inside `save_many`: the settled entries are the old ones, or those with the
whole cohort; every later section of any process, itself killed at any point or not, works on these
settled entries, one section after the other, and returns what they say. -/
theorem instance_batch_crash_atomicity {host : Host} {instances : List Instance}
    {rest : Prog (StoreOp Realm Change Failure Question) (Except Failure Unit)}
    (hcrash : Reaches (realmStorage.kernel True) 0 (saveMany host instances).run s rest t) :
    (t.settled = s.settled ∨ AllNew instances t.settled) ∧ RecoveryIdempotent t ∧
      ∀ history u, Sessions t history u →
        Serial Settled.Step t.settled history u.settled ∧ Keeps t.settled history u.settled := by
  refine ⟨?_, recovery_idempotent t, fun history u h => ⟨h.serial, Serial.keeps h.serial⟩⟩
  have hlead := saveMany_leads (F := True) (s := s) host instances settled_seen
    (fun _ h => .inl h) (fun t (h : t.settled = (s.settled.saveMany host.now instances).2) => .inr h)
  rcases hlead.reaches hcrash with hold | hnew
  · exact .inl hold
  · rw [hnew]
    exact saveMany_new

/-- `save_many` of two new instances, cut after the first one's record. -/
def cutBatch : Option (Prog (StoreOp Realm Change Failure Question) (Except Failure Unit) × Realm) :=
  Interp.advance (realmStorage.eval Question.answer) 19 (saveMany demoHost demoCohort).run {}

theorem cutBatch_entries : cutBatch.map (fun x => (exists? x.2.journal,
    (x.2.view "alpha").isSome, (x.2.view "beta").isSome)) = some (true, true, false) := by
  decide +kernel

theorem instance_batch_crash_atomicity_cut : ∃ rest t,
    Reaches (realmStorage.kernel True) 0 (saveMany demoHost demoCohort).run {} rest t ∧
      (t.view "alpha").isSome ∧ t.view "beta" = none ∧
      (t.settled = ({} : Realm).settled ∨ AllNew demoCohort t.settled) := by
  obtain ⟨⟨rest, t⟩, hcut, hentries⟩ := Option.map_eq_some_iff.mp cutBatch_entries
  simp only [Prod.mk.injEq] at hentries
  have hcrash : Reaches (realmStorage.kernel True) 0 (saveMany demoHost demoCohort).run {} rest t :=
    Interp.advance_sound (realmStorage.eval_sound Question.answers_answer) hcut
  refine ⟨rest, t, hcrash, hentries.2.1, ?_, (instance_batch_crash_atomicity hcrash).1⟩
  exact Option.isSome_eq_false_iff.mp hentries.2.2 |> Option.isNone_iff_eq_none.mp

end Cyclo.StateStore
