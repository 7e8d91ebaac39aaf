import Cyclo.StateStore.Operations
import Mathlib.Logic.Function.Basic

/-! What the files of a realm stand for: the entries as they are once the pending batch is
published, and what each operation does to them and answers. -/
namespace Cyclo.StateStore
open Python

/-- An empty directory is what a save that never got further leaves. -/
def tidy : Option Entry → Option Entry
  | some (.directory none []) => none
  | entry => entry

/-- The entries that the operations tell apart, by name. -/
abbrev View := String → Option Entry

def Realm.view (realm : Realm) : View := fun name =>
  if isHidden name then none
  else if validId name then tidy (realm.entry name)
  else realm.entry name

def othersOf : Option Entry → List String
  | some (.directory _ others) => others
  | _ => []

/-- The entry of a stored record. -/
def stored (record : Record) (others : List String) : Entry :=
  .directory (some (.regular (.parsed record.document))) others

namespace View

def put (view : View) (record : Record) : View :=
  Function.update view record.id (some (stored record (othersOf (view record.id))))

/-- What `load` finds once there is no pending batch. -/
def load (view : View) (identifier : String) : Except Failure Record := do
  validateInstanceId (.str identifier)
  match view identifier with
  | some .symlink => .error (.cyclo (.symlinkedDirectory identifier))
  | entry => do
    let record ← (openMetadata entry >>= fromJson).mapError (loadFailure identifier)
    if record.id = identifier then .ok record
    else .error (.cyclo (.idMismatch identifier record.id))

/-- What an enumeration finds at one name. -/
def loadEntry (view : View) (name : String) : Except Failure (Option Record) := do
  validateInstanceId (.str name)
  match view name with
  | some (.directory metadata _) =>
    if exists? metadata then return some (← view.load name)
    else .error (.cyclo .entryNoMetadata)
  | _ => .error (.cyclo .entryNotDirectory)

def report (view : View) (name : String) : Except Failure (Option Record) :=
  (view.loadEntry name).mapError (.caused (.entry name))

end View

/-- The instances and the errors of an enumeration. -/
def gather : List (Except Failure (Option Record)) → List Record × List Failure
  | [] => ([], [])
  | .ok none :: reports => gather reports
  | .ok (some record) :: reports => (record :: (gather reports).1, (gather reports).2)
  | .error e :: reports => ((gather reports).1, e :: (gather reports).2)

/-- Whether the document of an instance may replace what stands at its place. -/
def existingDocument (identifier : String) (file : File) : Except Failure Unit := do
  let existing ← (readJson file >>= fromJson).mapError (.caused (.existingInvalid identifier))
  if existing.id = identifier then .ok ()
  else .error (.cyclo (.existingMismatch identifier existing.id))

/-- The checks on the entry that a document goes to. -/
def destination (identifier : String) : Option Entry → Except Failure Unit
  | none => .ok ()
  | some (.directory none others) =>
    if others = [] then .ok () else .error (.cyclo (.directoryNotEmpty identifier))
  | some (.directory (some (.regular content)) _) => existingDocument identifier (.regular content)
  | some (.directory (some _) _) => .error (.cyclo (.existingNotRegular identifier))
  | some .symlink => .error (.cyclo (.symlinkedDirectory identifier))
  | some _ => .error (.caused (.cannotSave identifier) (.os "Not a directory"))

/-- The entries, and the failure that stops the publication of a batch, and with it every later
operation. -/
@[ext] structure Settled where
  view : View
  blocked : Option Failure

/-- The records of a batch, one after the other. -/
def publish : List Record → View → Settled
  | [], view => ⟨view, none⟩
  | record :: records, view =>
    match destination record.id (view record.id) with
    | .ok () => publish records (view.put record)
    | .error e => ⟨view, some e⟩

/-- The pending batch, if the journal has one. -/
def pending (journal : Option File) : Except Failure (List Record) :=
  if exists? journal then
    (readJournal journal >>= readBatch).mapError fun e =>
      if e.isOs || e.isType || e.isValue then .caused .cannotRecover e else e
  else .ok []

def settle (journal : Option File) (view : View) : Settled :=
  match pending journal with
  | .ok records => publish records view
  | .error e => ⟨view, some e⟩

def Realm.settled (realm : Realm) : Settled := settle realm.journal realm.view

theorem validId_not_hidden {name : String} (h : validId name = true) : isHidden name = false := by
  unfold validId instanceRe at h
  rw [Bool.and_eq_true] at h
  have hre := h.2
  cases hlist : name.toList with
  | nil =>
    rw [hlist] at hre
    cases hre
  | cons c rest =>
    simp only [hlist, Bool.and_eq_true] at hre
    have hdot : c ≠ '.' := by
      intro hc
      rw [hc] at hre
      exact absurd hre.1.1 (by decide)
    simp [isHidden, hlist, hdot]

theorem Realm.view_valid {realm : Realm} {name : String} (h : validId name = true) :
    realm.view name = tidy (realm.entry name) := by
  unfold Realm.view
  rw [validId_not_hidden h, h]
  rfl

theorem Realm.view_hidden {realm : Realm} {name : String} (h : isHidden name = true) :
    realm.view name = none := if_pos h

/-- A name that the operations look at is told apart from those that are not there. -/
theorem Realm.view_isSome {realm : Realm} {name : String} (h : (realm.view name).isSome) :
    (realm.entry name).isSome ∧ isHidden name = false := by
  unfold Realm.view at h
  cases hhidden : isHidden name with
  | true =>
    rw [hhidden] at h
    cases h
  | false =>
    refine ⟨?_, rfl⟩
    rw [hhidden] at h
    cases hentry : realm.entry name with
    | some entry => rfl
    | none =>
      rw [hentry] at h
      cases hvalid : validId name <;> rw [hvalid] at h <;> cases h

theorem tidy_cases (entry : Option Entry) :
    tidy entry = entry ∨ (entry = some (.directory none []) ∧ tidy entry = none) := by
  unfold tidy
  split
  · exact .inr ⟨rfl, rfl⟩
  · exact .inl rfl

@[simp] theorem destination_tidy (identifier : String) (entry : Option Entry) :
    destination identifier (tidy entry) = destination identifier entry := by
  obtain h | ⟨h, ht⟩ := tidy_cases entry
  · rw [h]
  · rw [ht, h]
    rfl

@[simp] theorem openMetadata_tidy (entry : Option Entry) :
    openMetadata (tidy entry) = openMetadata entry := by
  obtain h | ⟨h, ht⟩ := tidy_cases entry
  · rw [h]
  · rw [ht, h]
    rfl

@[simp] theorem othersOf_tidy (entry : Option Entry) : othersOf (tidy entry) = othersOf entry := by
  obtain h | ⟨h, ht⟩ := tidy_cases entry
  · rw [h]
  · rw [ht, h]
    rfl

theorem destination_isCyclo {identifier : String} {entry : Option Entry} {e : Failure}
    (h : destination identifier entry = .error e) : e.isCyclo = true := by
  unfold destination at h
  split at h
  · cases h
  · split_ifs at h
    cases h
    rfl
  · unfold existingDocument at h
    cases hread : (readJson _ >>= fromJson) with
    | error cause =>
      rw [hread] at h
      cases h
      rfl
    | ok existing =>
      rw [hread] at h
      change (if existing.id = identifier then _ else _) = _ at h
      split_ifs at h
      cases h
      rfl
  all_goals
    cases h
    rfl

/-- A record replaces the one that was stored in its place. -/
theorem destination_stored (record : Record) (others : List String) :
    destination record.id (some (stored record others)) = .ok () := by
  have hread : readJson (.regular (.parsed record.document)) >>= fromJson = .ok record :=
    record.fromJson_fields
  change existingDocument record.id _ = _
  rw [existingDocument, hread]
  exact if_pos rfl

namespace View
variable {view : View} {record : Record} {name : String}

@[simp] theorem put_self : view.put record record.id =
    some (stored record (othersOf (view record.id))) := Function.update_self ..

theorem put_of_ne (h : name ≠ record.id) : view.put record name = view name :=
  Function.update_of_ne h ..

theorem put_stored {others : List String} (h : view record.id = some (stored record others)) :
    view.put record = view := by
  unfold put
  rw [h]
  exact Function.update_eq_self_iff.mpr h.symm

end View

theorem publish_append (done rest : List Record) (view : View) :
    publish (done ++ rest) view =
      match (publish done view).blocked with
      | none => publish rest (publish done view).view
      | some _ => publish done view := by
  induction done generalizing view with
  | nil => rfl
  | cons record done ih =>
    rw [List.cons_append, publish, publish]
    cases destination record.id (view record.id) with
    | ok _ => exact ih _
    | error e => rfl

theorem publish_frame {records : List Record} {name : String}
    (h : ∀ record ∈ records, name ≠ record.id) (view : View) :
    (publish records view).view name = view name := by
  induction records generalizing view with
  | nil => rfl
  | cons record records ih =>
    obtain ⟨hrecord, hrecords⟩ := List.forall_mem_cons.mp h
    rw [publish]
    cases destination record.id (view record.id) with
    | ok _ => exact (ih hrecords _).trans (View.put_of_ne hrecord)
    | error e => rfl

/-- A batch that is published completely stores each of its records. -/
theorem publish_stores {records : List Record} {view : View}
    (hids : (records.map Record.id).Nodup) (h : (publish records view).blocked = none) :
    ∀ record ∈ records,
      (publish records view).view record.id = some (stored record (othersOf (view record.id))) := by
  induction records generalizing view with
  | nil => exact List.forall_mem_nil _
  | cons head records ih =>
    rw [List.map_cons, List.nodup_cons] at hids
    obtain ⟨hnew, hids⟩ := hids
    have hne : ∀ record ∈ records, record.id ≠ head.id := fun record hmem heq =>
      hnew (heq ▸ List.mem_map_of_mem hmem)
    rw [publish] at h ⊢
    cases hdestination : destination head.id (view head.id) with
    | error e =>
      rw [hdestination] at h
      cases h
    | ok _ =>
      rw [hdestination] at h
      refine List.forall_mem_cons.mpr ⟨?_, fun record hmem => ?_⟩
      · rw [publish_frame fun record hmem => (hne record hmem).symm]
        exact View.put_self
      · have hstored := ih hids h record hmem
        rw [View.put_of_ne (hne record hmem)] at hstored
        exact hstored

/-- Records that are stored already are not changed by their publication. -/
theorem publish_stored {records : List Record} {view : View}
    (h : ∀ record ∈ records, ∃ others, view record.id = some (stored record others)) :
    publish records view = ⟨view, none⟩ := by
  induction records with
  | nil => rfl
  | cons record records ih =>
    obtain ⟨⟨others, hrecord⟩, hrecords⟩ := List.forall_mem_cons.mp h
    rw [publish, hrecord, destination_stored]
    have hput : view.put record = view := View.put_stored hrecord
    change publish records (view.put record) = _
    rw [hput]
    exact ih hrecords

/-- Publication that is cut and started again comes to the same. -/
theorem publish_resume {done rest : List Record} {view : View}
    (hids : ((done ++ rest).map Record.id).Nodup) (h : (publish done view).blocked = none) :
    publish (done ++ rest) (publish done view).view = publish (done ++ rest) view := by
  rw [List.map_append] at hids
  have hstores := publish_stores hids.of_append_left h
  have hagain : publish done (publish done view).view = ⟨(publish done view).view, none⟩ :=
    publish_stored fun record hmem => ⟨_, hstores record hmem⟩
  rw [publish_append, hagain, publish_append, h]

/-- A batch that is refused was published up to the record that is. -/
theorem publish_stops {records : List Record} {view : View} {e : Failure}
    (h : (publish records view).blocked = some e) :
    ∃ done rest, records = done ++ rest ∧ (publish done view).blocked = none ∧
      (publish records view).view = (publish done view).view := by
  induction records generalizing view with
  | nil => cases h
  | cons record records ih =>
    rw [publish] at h
    cases hdestination : destination record.id (view record.id) with
    | error e' =>
      have hstopped : publish (record :: records) view = ⟨view, some e'⟩ := by
        rw [publish, hdestination]
      refine ⟨[], record :: records, rfl, rfl, ?_⟩
      rw [hstopped]
      rfl
    | ok _ =>
      rw [hdestination] at h
      obtain ⟨done, rest, hsplit, hdone, hview⟩ := ih h
      have hfirst : ∀ others, publish (record :: others) view = publish others (view.put record) := by
        intro others
        rw [publish, hdestination]
      refine ⟨record :: done, rest, by rw [hsplit, List.cons_append], ?_, ?_⟩
      · rw [hfirst]
        exact hdone
      · rw [hfirst, hfirst]
        exact hview

theorem publish_again {records : List Record} {view : View} (hids : (records.map Record.id).Nodup) :
    publish records (publish records view).view = publish records view := by
  cases h : (publish records view).blocked with
  | none =>
    have hresume := publish_resume (by rw [List.append_nil]; exact hids : ((records ++ []).map
      Record.id).Nodup) h
    rw [List.append_nil] at hresume
    exact hresume
  | some e =>
    obtain ⟨done, rest, hsplit, hdone, hview⟩ := publish_stops h
    rw [hview, hsplit]
    rw [hsplit] at hids
    exact publish_resume hids hdone

theorem publish_isCyclo {records : List Record} {view : View} {e : Failure}
    (h : (publish records view).blocked = some e) : e.isCyclo = true := by
  induction records generalizing view with
  | nil => cases h
  | cons record records ih =>
    rw [publish] at h
    cases hdestination : destination record.id (view record.id) with
    | ok _ =>
      rw [hdestination] at h
      exact ih h
    | error e' =>
      rw [hdestination] at h
      cases h
      exact destination_isCyclo hdestination

theorem batchRecords_ids {identifiers : List String} {raws : List Value} {records : List Record}
    (h : batchRecords identifiers raws = .ok records) :
    (records.map Record.id).Nodup ∧ ∀ record ∈ records, record.id ∉ identifiers := by
  induction raws generalizing identifiers records with
  | nil =>
    cases h
    exact ⟨List.nodup_nil, List.forall_mem_nil _⟩
  | cons raw raws ih =>
    cases raw with
    | dict fields =>
      obtain ⟨record, -, h⟩ := bind_eq_ok.mp h
      obtain ⟨_, hnew, h⟩ := bind_eq_ok.mp h
      obtain ⟨rest, hrest, h⟩ := bind_eq_ok.mp h
      cases h
      obtain ⟨hnodup, hfresh⟩ := ih hrest
      have hnew := of_decide_eq_true (require_eq_ok.mp hnew)
      constructor
      · rw [List.map_cons, List.nodup_cons]
        refine ⟨fun hmem => ?_, hnodup⟩
        obtain ⟨other, hother, heq⟩ := List.mem_map.mp hmem
        exact hfresh other hother (heq ▸ List.mem_cons_self)
      · refine List.forall_mem_cons.mpr ⟨hnew, fun other hother hmem => ?_⟩
        exact hfresh other hother (List.mem_cons_of_mem _ hmem)
    | _ => cases h

theorem pending_ids {journal : Option File} {records : List Record}
    (h : pending journal = .ok records) : (records.map Record.id).Nodup := by
  unfold pending at h
  split_ifs at h
  · cases hread : readJournal journal >>= readBatch with
    | error e =>
      rw [hread] at h
      cases h
    | ok batch =>
      rw [hread] at h
      cases h
      obtain ⟨payload, -, hbatch⟩ := bind_eq_ok.mp hread
      unfold readBatch at hbatch
      obtain ⟨_, -, hbatch⟩ := bind_eq_ok.mp hbatch
      split at hbatch
      · exact (batchRecords_ids hbatch).1
      · cases hbatch
  · cases h
    exact List.nodup_nil

theorem batchRecords_documents {identifiers : List String} {records : List Record}
    (hids : (records.map Record.id).Nodup) (hnew : ∀ record ∈ records, record.id ∉ identifiers) :
    batchRecords identifiers (records.map Record.document) = .ok records := by
  induction records generalizing identifiers with
  | nil => rfl
  | cons record records ih =>
    rw [List.map_cons, List.nodup_cons] at hids
    obtain ⟨hfirst, hids⟩ := hids
    obtain ⟨hrecord, hrecords⟩ := List.forall_mem_cons.mp hnew
    have hrest : batchRecords (record.id :: identifiers) (records.map Record.document) =
        .ok records := by
      refine ih hids fun other hother hmem => ?_
      rcases List.mem_cons.mp hmem with heq | hmem
      · exact hfirst (heq ▸ List.mem_map_of_mem hother)
      · exact hrecords other hother hmem
    refine bind_eq_ok.mpr ⟨record, record.fromJson_fields, bind_eq_ok.mpr ⟨(), ?_, ?_⟩⟩
    · exact require_eq_ok.mpr (decide_eq_true hrecord)
    · exact bind_eq_ok.mpr ⟨records, hrest, rfl⟩

/-- The journal of a batch is read back as the batch. -/
theorem pending_batchDocument {records : List Record} (hids : (records.map Record.id).Nodup)
    (hne : records ≠ []) :
    pending (some (.regular (.parsed (batchDocument records)))) = .ok records := by
  have hbatch : batchRecords [] (records.map Record.document) = .ok records :=
    batchRecords_documents hids fun _ _ => List.not_mem_nil
  have hread : readJournal (some (.regular (.parsed (batchDocument records)))) >>= readBatch =
      .ok records := by
    refine bind_eq_ok.mpr ⟨_, rfl, bind_eq_ok.mpr ⟨(), rfl, ?_⟩⟩
    cases records with
    | nil => exact absurd rfl hne
    | cons record records => exact hbatch
  unfold pending
  rw [hread]
  rfl

theorem prepareInstance_eq_ok {now : String} {i : Instance} {record : Record}
    (h : prepareInstance now i = .ok record) :
    record.fields = i.stamp now ∧ i.id = .str record.id := by
  unfold prepareInstance at h
  obtain ⟨_, -, h⟩ := bind_eq_ok.mp h
  cases hread : fromJson (i.stamp now).asJson with
  | error e =>
    rw [hread] at h
    cases h
  | ok found =>
    rw [hread] at h
    cases h
    rw [Instance.fromJson_asJson, Instance.validate_eq_ok] at hread
    refine ⟨hread, ?_⟩
    have hid := record.fields_id
    rw [hread] at hid
    exact hid

theorem prepareBatch_ids {now : ℕ → String} {identifiers : List String} {instances : List Instance}
    {records : List Record} (h : prepareBatch now identifiers instances = .ok records) :
    (records.map Record.id).Nodup ∧ ∀ record ∈ records, record.id ∉ identifiers := by
  induction instances generalizing identifiers records with
  | nil =>
    cases h
    exact ⟨List.nodup_nil, List.forall_mem_nil _⟩
  | cons i instances ih =>
    obtain ⟨_, -, h⟩ := bind_eq_ok.mp h
    obtain ⟨_, hnew, h⟩ := bind_eq_ok.mp h
    obtain ⟨record, hrecord, h⟩ := bind_eq_ok.mp h
    obtain ⟨rest, hrest, h⟩ := bind_eq_ok.mp h
    cases h
    obtain ⟨hnodup, hfresh⟩ := ih hrest
    have hid := (prepareInstance_eq_ok hrecord).2
    have hnew : record.id ∉ identifiers := by
      have hcheck := require_eq_ok.mp hnew
      rw [hid, Value.isStr, Bool.not_true, Bool.or_false] at hcheck
      exact of_decide_eq_true hcheck
    constructor
    · rw [List.map_cons, List.nodup_cons]
      refine ⟨fun hmem => ?_, hnodup⟩
      obtain ⟨other, hother, heq⟩ := List.mem_map.mp hmem
      exact hfresh other hother (heq ▸ List.mem_cons_self)
    · refine List.forall_mem_cons.mpr ⟨hnew, fun other hother hmem => ?_⟩
      exact hfresh other hother (List.mem_cons_of_mem _ hmem)

/-- The records of a cohort are its entries, each with the times of the call. -/
theorem prepareBatch_entries {now : ℕ → String} {identifiers : List String}
    {instances : List Instance} {records : List Record}
    (h : prepareBatch now identifiers instances = .ok records) :
    List.Forall₂ (fun i record => ∃ time, record.fields = i.stamp time ∧ i.id = .str record.id)
      instances records := by
  induction instances generalizing identifiers records with
  | nil =>
    cases h
    exact .nil
  | cons i instances ih =>
    obtain ⟨_, -, h⟩ := bind_eq_ok.mp h
    obtain ⟨_, -, h⟩ := bind_eq_ok.mp h
    obtain ⟨record, hrecord, h⟩ := bind_eq_ok.mp h
    obtain ⟨rest, hrest, h⟩ := bind_eq_ok.mp h
    cases h
    exact .cons ⟨_, prepareInstance_eq_ok hrecord⟩ (ih hrest)

namespace Settled

def load (s : Settled) (identifier : String) : Except Failure Record :=
  match s.blocked with
  | some e => .error e
  | none => s.view.load identifier

def save (s : Settled) (now : String) (i : Instance) : Except Failure Unit × Settled :=
  match s.blocked with
  | some e => (.error e, s)
  | none =>
    match prepareInstance now i with
    | .error e => (.error e, s)
    | .ok record =>
      match destination record.id (s.view record.id) with
      | .error e => (.error e, s)
      | .ok () => (.ok (), ⟨s.view.put record, none⟩)

/-- The whole batch takes effect at once, even where it blocks what comes later. -/
def saveMany (s : Settled) (now : ℕ → String) (instances : List Instance) :
    Except Failure Unit × Settled :=
  match s.blocked with
  | some e => (.error e, s)
  | none =>
    match prepareBatch now [] instances with
    | .error e => (.error e, s)
    | .ok records =>
      match (publish records s.view).blocked with
      | some e => (.error e, publish records s.view)
      | none => (.ok (), publish records s.view)

def remove (s : Settled) (identifier : String) : Except Failure Unit × Settled :=
  match s.load identifier with
  | .error e => (.error e, s)
  | .ok record =>
    if record.fields.intent.text = "stopped" then
      (.ok (), ⟨Function.update s.view identifier none, none⟩)
    else (.error (.cyclo (.running identifier)), s)

/-- What `list_report` answers where no operation fails by itself. -/
def Reports (s : Settled) (answer : Except Failure (List Record × List Failure)) : Prop :=
  match s.blocked with
  | some e => answer = if e.isCyclo then .ok ([], [e]) else .error e
  | none => ∃ names : List String, names.Pairwise (· < ·) ∧
      (∀ name, name ∈ names ↔ (s.view name).isSome) ∧
      answer = .ok (sortedBy Record.id (gather (names.map s.view.report)).1,
        (gather (names.map s.view.report)).2)

/-- The state after an operation. -/
def after (s : Settled) (host : Host) : Operation → Settled
  | .save i => (s.save (host.now 0) i).2
  | .saveMany instances => (s.saveMany host.now instances).2
  | .remove identifier => (s.remove identifier).2
  | _ => s

/-- The answers of an operation, returned or raised, where none fails by itself. -/
def Answers (s : Settled) (host : Host) : Operation → Except Failure Result → Prop
  | .load identifier, r => r = (s.load identifier).map .record
  | .listReport, r => ∃ answer, s.Reports answer ∧
      r = answer.map fun found => .report found.1 found.2
  | .list, r => ∃ answer, s.Reports answer ∧ r = answer.bind fun found =>
      if found.2.isEmpty then .ok (.records found.1) else .error (.enumeration found.2)
  | .save i, r => r = (s.save (host.now 0) i).1.map fun _ => .done
  | .saveMany instances, r => r = (s.saveMany host.now instances).1.map fun _ => .done
  | .remove identifier, r => r = (s.remove identifier).1.map fun _ => .done

end Settled

end Cyclo.StateStore
