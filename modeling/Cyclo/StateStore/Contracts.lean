import Cyclo.StateStore.Settled

/-! What each part of an operation does to the settled entries, also when it is killed. -/
namespace Cyclo.StateStore
open Python Process

variable {α : Type} {F : Prop} {R P : Realm → Prop} {s t : Realm}

/-- `R` looks at no more than the operations do. -/
def Seen (R : Realm → Prop) : Prop :=
  ∀ s t : Realm, s.journal = t.journal → s.view = t.view → R s → R t

namespace Realm

@[simp] theorem entry_setEntry_self (name : String) (entry : Entry) :
    (s.setEntry name entry).entry name = some entry := AList.lookup_insert _

theorem entry_setEntry_of_ne {name other : String} (h : other ≠ name) (entry : Entry) :
    (s.setEntry name entry).entry other = s.entry other := AList.lookup_insert_ne h

@[simp] theorem entry_removeEntry_self (name : String) : (s.removeEntry name).entry name = none :=
  AList.lookup_erase _ _

theorem entry_removeEntry_of_ne {name other : String} (h : other ≠ name) :
    (s.removeEntry name).entry other = s.entry other := AList.lookup_erase_ne h

/-- Only the entries with other names than those changed count. -/
theorem view_of_entries {name : String} (h : isHidden name = true)
    (hentry : ∀ other, other ≠ name → t.entry other = s.entry other) : t.view = s.view := by
  funext other
  by_cases hother : other = name
  · rw [hother, view_hidden h, view_hidden h]
  · unfold view
    rw [hentry other hother]

theorem view_setEntry_hidden {name : String} (h : isHidden name = true) (entry : Entry) :
    (s.setEntry name entry).view = s.view :=
  view_of_entries h fun _ hother => entry_setEntry_of_ne hother entry

theorem view_removeEntry_hidden {name : String} (h : isHidden name = true) :
    (s.removeEntry name).view = s.view :=
  view_of_entries h fun _ hother => entry_removeEntry_of_ne hother

/-- A changed entry is the only difference that is seen. -/
theorem view_update {name : String} (h : validId name = true)
    (hentry : ∀ other, other ≠ name → isHidden other = false → t.entry other = s.entry other) :
    t.view = Function.update s.view name (tidy (t.entry name)) := by
  funext other
  by_cases hother : other = name
  · rw [hother, Function.update_self, view_valid h]
  · rw [Function.update_of_ne hother]
    cases hhidden : isHidden other with
    | true => rw [view_hidden hhidden, view_hidden hhidden]
    | false =>
      unfold view
      rw [hentry other hother hhidden]

end Realm

theorem isHidden_temporaryName (parent name suffix : String) :
    isHidden (temporaryName parent name suffix) = true := by
  simp [isHidden, temporaryName]

theorem isHidden_quarantineName (identifier suffix : String) :
    isHidden (quarantineName identifier suffix) = true := by
  simp [isHidden, quarantineName]

theorem ne_of_hidden {name hidden : String} (h : validId name = true)
    (hhidden : isHidden hidden = true) : name ≠ hidden := by
  intro heq
  rw [heq] at h
  rw [validId_not_hidden h] at hhidden
  cases hhidden

theorem validateInstanceId_valid {identifier : String} (h : validId identifier = true) :
    validateInstanceId (.str identifier) = .ok () := if_pos h

theorem validateInstanceId_invalid {identifier : String} (h : validId identifier ≠ true) :
    validateInstanceId (.str identifier) = .error (.cyclo (.invalidId (.str identifier))) := if_neg h

theorem readMetadata_reads (identifier : String) (hs : R s) :
    Reads realmStorage F R (readMetadata identifier) (openMetadata (s.entry identifier)) s :=
  .get hs (.ofExcept hs)

/-- What `instance_dir` says of an entry. -/
def notLinked (identifier : String) : Option Entry → Except Failure Unit
  | some .symlink => .error (.cyclo (.symlinkedDirectory identifier))
  | _ => .ok ()

theorem instanceDir_reads {identifier : String} (h : validId identifier = true) (hs : R s) :
    Reads realmStorage F R (instanceDir identifier)
      (notLinked identifier (s.entry identifier)) s := by
  unfold instanceDir
  rw [validateInstanceId_valid h]
  refine Reads.get (f := fun entry => _) hs ?_
  cases hentry : s.entry identifier with
  | none => exact .pure hs
  | some entry =>
    cases entry with
    | symlink => exact .raise hs
    | directory metadata others => exact .pure hs
    | file content => exact .pure hs
    | special => exact .pure hs

theorem validateExistingInstanceDocument_reads {identifier : String} {content : Content}
    {others : List String}
    (h : s.entry identifier = some (.directory (some (.regular content)) others)) (hs : R s) :
    Reads realmStorage F R (validateExistingInstanceDocument identifier)
      (existingDocument identifier (.regular content)) s := by
  have hread : openMetadata (s.entry identifier) = readJson (.regular content) := by
    rw [h]
    rfl
  unfold validateExistingInstanceDocument existingDocument
  rw [← hread]
  refine .bind (.mapError (fun _ _ => trivial)
    (.bind (readMetadata_reads identifier hs) fun _ _ => .ofExcept hs)) fun existing _ => ?_
  split
  · exact .pure hs
  · exact .raise hs

/-- How `_write_instance_document` lets an exception leave. -/
def savingFailure (identifier : String) (e : Failure) : Failure :=
  if e.isOs then .caused (.cannotSave identifier) e else e

theorem savingFailure_cyclo {identifier : String} {e : Failure} (h : e.isCyclo = true) :
    savingFailure identifier e = e := by
  cases e with
  | cyclo message => rfl
  | caused message cause => rfl
  | enumeration errors => rfl
  | _ => cases h

/-- The destination is checked where it is no link. -/
theorem checkDestination_reads {identifier : String}
    (h : notLinked identifier (s.entry identifier) = .ok ()) (hs : R s) :
    ∃ r, Reads realmStorage F R (checkDestination identifier) r s ∧
      destination identifier (s.entry identifier) = r.mapError (savingFailure identifier) := by
  unfold checkDestination
  cases hentry : s.entry identifier with
  | none =>
    refine ⟨.ok (), .get hs ?_, rfl⟩
    rw [hentry]
    refine .get hs ?_
    rw [hentry]
    exact .pure hs
  | some entry =>
    cases entry with
    | symlink =>
      rw [hentry] at h
      cases h
    | file content =>
      refine ⟨.error (.os "Not a directory"), .get hs ?_, rfl⟩
      rw [hentry]
      exact Leads.raise hs ⟨rfl, rfl⟩
    | special =>
      refine ⟨.error (.os "Not a directory"), .get hs ?_, rfl⟩
      rw [hentry]
      exact Leads.raise hs ⟨rfl, rfl⟩
    | directory metadata others =>
      cases metadata with
      | none =>
        refine ⟨if others = [] then .ok () else .error (.cyclo (.directoryNotEmpty identifier)),
          .get hs ?_, ?_⟩
        · rw [hentry]
          refine .get hs ?_
          rw [hentry]
          change Reads realmStorage F R
            (if others = [] then Pure.pure () else StateStore.fail (.directoryNotEmpty identifier)) _ s
          split_ifs
          · exact .pure hs
          · exact .raise hs
        · change (if others = [] then _ else _) = _
          split_ifs <;> rfl
      | some file =>
        cases file with
        | regular content =>
          refine ⟨existingDocument identifier (.regular content), .get hs ?_, ?_⟩
          · rw [hentry]
            exact validateExistingInstanceDocument_reads hentry hs
          · change existingDocument identifier (.regular content) = _
            cases hexisting : existingDocument identifier (.regular content) with
            | ok _ => rfl
            | error e =>
              have hdestination : destination identifier
                  (some (.directory (some (.regular content)) others)) = .error e := hexisting
              rw [Except.mapError, savingFailure_cyclo (destination_isCyclo hdestination)]
        | symlink dangling =>
          refine ⟨.error (.cyclo (.existingNotRegular identifier)), .get hs ?_, rfl⟩
          rw [hentry]
          exact .raise hs
        | directory =>
          refine ⟨.error (.cyclo (.existingNotRegular identifier)), .get hs ?_, rfl⟩
          rw [hentry]
          exact .raise hs
        | special =>
          refine ⟨.error (.cyclo (.existingNotRegular identifier)), .get hs ?_, rfl⟩
          rw [hentry]
          exact .raise hs

/-- The cleanup after a temporary file is not seen, and does nothing where there is none. -/
theorem unlinkTemporary_leads {temporary : String} (hhidden : isHidden temporary = true)
    (hseen : Seen R) (hs : R s) :
    Leads realmStorage F R (unlinkTemporary temporary)
      (fun _ t => s.entry temporary = none → s = t) (fun _ _ => s.entry temporary ≠ none) s := by
  unfold unlinkTemporary
  refine Leads.get hs ?_
  cases hentry : s.entry temporary with
  | none => exact Leads.pure hs fun _ => rfl
  | some entry =>
    refine Leads.change hs (fun _ _ _ => Option.some_ne_none entry) fun t ht => ?_
    have ht : Change.apply s (.unlinkTemporary temporary) = some t := ht
    rw [Change.apply, hentry] at ht
    split at ht
    · cases ht
      exact ⟨hseen s _ rfl (Realm.view_removeEntry_hidden hhidden).symm hs, fun h => by cases h⟩
    · cases ht

/-- A file is replaced at once: what is seen changes with the rename. -/
theorem replaceFile_leads {temporary : String} {document : Value} {rename : Change}
    (hhidden : isHidden temporary = true) (hfresh : s.entry temporary = none)
    (hseen : Seen R) (hs : R s)
    (hrename : ∀ u : Realm, u.journal = s.journal →
      (∀ other, other ≠ temporary → u.entry other = s.entry other) →
      u.entry temporary = some (.file (.parsed document)) →
      ∃ t, rename.apply u = some t ∧ R t ∧ t.entry temporary = none ∧ P t) :
    Leads realmStorage F R (replaceFile temporary document rename) (fun _ => P)
      (fun _ _ => False) s := by
  let created := s.setEntry temporary (.file .malformed)
  let written := created.setEntry temporary (.file (.parsed document))
  have hcreate : Change.apply s (.createTemporary temporary) = some created := by
    rw [Change.apply, hfresh]
  have hwrite : Change.apply created (.writeTemporary temporary document) = some written := by
    rw [Change.apply, Realm.entry_setEntry_self]
  have hcreated : R created := hseen s _ rfl (Realm.view_setEntry_hidden hhidden _).symm hs
  have hwritten : R written :=
    hseen created _ rfl (Realm.view_setEntry_hidden hhidden _).symm hcreated
  obtain ⟨t, ht, hRt, hgone, hP⟩ := hrename written rfl
    (fun other hother => (Realm.entry_setEntry_of_ne hother _).trans
      (Realm.entry_setEntry_of_ne hother _)) (Realm.entry_setEntry_self _ _)
  unfold replaceFile
  refine Leads.protect (P := fun _ u => t = u) (Y := fun _ _ => False) ?_ ?_ ?_ ?_
  · refine Leads.bind (Leads.changeTo (P := fun _ u => created = u) hs hcreate hcreated rfl)
      (fun _ _ _ h => h) fun _ u _ hu => ?_
    subst hu
    refine Leads.bind (Leads.changeTo (P := fun _ u => written = u) hcreated hwrite hwritten rfl)
      (fun _ _ _ h => h) fun _ u _ hu => ?_
    subst hu
    refine Leads.bind (Leads.changeTo (P := fun _ u => written = u) hwritten rfl hwritten rfl)
      (fun _ _ _ h => h) fun _ u _ hu => ?_
    subst hu
    refine Leads.bind (Leads.changeTo (P := fun _ u => t = u) hwritten ht hRt rfl)
      (fun _ _ _ h => h) fun _ u _ hu => ?_
    subst hu
    exact Leads.changeTo hRt rfl hRt rfl
  · intro _ u hRu hu
    subst hu
    refine (unlinkTemporary_leads hhidden hseen hRu).weaken (fun _ h => h) (fun _ v _ hv => ?_)
      fun _ _ _ hX => hX hgone
    rw [← hv hgone]
    exact hP
  · intro _ _ _ hfalse
    exact hfalse.elim
  · intro _ u hRu
    exact (unlinkTemporary_leads hhidden hseen hRu).weaken (fun _ h => h) (fun _ _ _ _ => trivial)
      fun _ _ _ _ => trivial

/-- A document goes to no entry, or into a directory. -/
theorem destination_ok {identifier : String} {entry : Option Entry}
    (h : destination identifier entry = .ok ()) :
    entry = none ∨ ∃ metadata others, entry = some (.directory metadata others) ∧
      metadata ≠ some .directory := by
  cases entry with
  | none => exact .inl rfl
  | some entry =>
    cases entry with
    | directory metadata others =>
      refine .inr ⟨metadata, others, rfl, ?_⟩
      rintro rfl
      cases h
    | _ => cases h

theorem prepareDirectory_leads {identifier : String} (hid : validId identifier = true)
    (hdestination : destination identifier (s.entry identifier) = .ok ()) (hseen : Seen R)
    (hs : R s) :
    Leads realmStorage F R (prepareDirectory identifier)
      (fun _ t => t.journal = s.journal ∧ t.view = s.view ∧ ∃ metadata,
        t.entry identifier = some (.directory metadata (othersOf (s.entry identifier))) ∧
          metadata ≠ some .directory) (fun _ _ => False) s := by
  unfold prepareDirectory
  refine Leads.get hs ?_
  obtain hentry | ⟨metadata, others, hentry, hmetadata⟩ := destination_ok hdestination
  · let made := s.setEntry identifier (.directory none [])
    have happly : Change.apply s (.makeDirectory identifier) = some made := by
      rw [Change.apply, hentry]
    have hmade : made.entry identifier = some (.directory none []) := Realm.entry_setEntry_self _ _
    have hview : made.view = s.view := by
      rw [Realm.view_update hid fun other hother _ => Realm.entry_setEntry_of_ne hother _, hmade]
      refine Function.update_eq_self_iff.mpr ?_
      rw [Realm.view_valid hid, hentry]
      rfl
    rw [hentry]
    exact Leads.changeTo hs happly (hseen s _ rfl hview.symm hs)
      ⟨rfl, hview, none, hmade, fun h => by cases h⟩
  · have happly : Change.apply s (.makeDirectory identifier) = some s := by
      rw [Change.apply, hentry]
    rw [hentry]
    exact Leads.changeTo hs happly hs ⟨rfl, rfl, metadata, hentry, hmetadata⟩

/-- One document is written completely or not at all, and is refused where its place is taken. -/
theorem writeInstanceDocument_leads (record : Record) (hseen : Seen R) (hs : R s)
    (hput : ∀ t : Realm, destination record.id (s.view record.id) = .ok () →
      t.journal = s.journal → t.view = s.view.put record → R t) :
    Leads realmStorage F R (writeInstanceDocument record.id record.document)
      (fun _ t => destination record.id (s.view record.id) = .ok () ∧ t.journal = s.journal ∧
        t.view = s.view.put record)
      (fun e t => s = t ∧ destination record.id (s.view record.id) = .error e) s := by
  have hid := record.validId
  have hview : destination record.id (s.view record.id) =
      destination record.id (s.entry record.id) := by
    rw [Realm.view_valid hid, destination_tidy]
  rw [hview] at hput ⊢
  have hlinked : ∀ e, notLinked record.id (s.entry record.id) = .error e →
      destination record.id (s.entry record.id) = .error e := by
    intro e he
    unfold notLinked at he
    split at he
    · rename_i hentry
      rw [hentry]
      exact he
    · cases he
  unfold writeInstanceDocument
  rw [validateInstanceId_valid hid]
  refine Leads.bind (Reads.ofExcept hs) (fun _ _ _ hX => by cases hX.2) fun _ t _ hP => ?_
  obtain ⟨rfl, -⟩ := hP
  refine Leads.bind (instanceDir_reads hid hs) (fun e t _ hX => ?_) fun _ t _ hP => ?_
  · exact ⟨hX.1, hlinked e hX.2⟩
  obtain ⟨rfl, hnotLinked⟩ := hP
  refine Leads.mapError (fun _ _ => trivial) ?_
  refine Leads.bind (instanceDir_reads hid hs) (fun e t _ hX => ?_) fun _ t _ hP => ?_
  · rw [hnotLinked] at hX
    cases hX.2
  obtain ⟨rfl, -⟩ := hP
  obtain ⟨r, hreads, hr⟩ := checkDestination_reads (F := F) hnotLinked hs
  refine Leads.bind hreads (fun e t _ hX => ?_) fun _ t _ hP => ?_
  · obtain ⟨rfl, rfl⟩ := hX
    exact ⟨rfl, hr⟩
  obtain ⟨rfl, rfl⟩ := hP
  have hdestination : destination record.id (s.entry record.id) = .ok () := hr
  refine Leads.bind (prepareDirectory_leads hid hdestination hseen hs) (fun _ _ _ h => h.elim)
    fun _ u hu hP => ?_
  obtain ⟨hjournal, hsame, metadata, hdirectory, hmetadata⟩ := hP
  refine Leads.ask hu ⟨_, Question.answers_answer .suffix u⟩ fun suffix hsuffix => ?_
  have hhidden := isHidden_temporaryName record.id "run.json" suffix
  have hne := ne_of_hidden hid hhidden
  have hreplace : Leads realmStorage F R
      (replaceFile (temporaryName record.id "run.json" suffix) record.document
        (.renameToMetadata (temporaryName record.id "run.json" suffix) record.id))
      (fun _ t => t.journal = s.journal ∧ t.view = s.view.put record) (fun _ _ => False) u := by
    refine replaceFile_leads hhidden (hsuffix _) hseen hu fun v hvjournal hventries htemporary => ?_
    let removed := v.removeEntry (temporaryName record.id "run.json" suffix)
    let t := removed.setEntry record.id (stored record (othersOf (s.entry record.id)))
    have hventry := (hventries record.id hne).trans hdirectory
    have happly : Change.apply v
        (.renameToMetadata (temporaryName record.id "run.json" suffix) record.id) = some t := by
      cases metadata with
      | none =>
        rw [Change.apply, htemporary, hventry]
        rfl
      | some file =>
        cases file with
        | directory => exact absurd rfl hmetadata
        | _ =>
          rw [Change.apply, htemporary, hventry]
          rfl
    have hentry : t.entry record.id = some (stored record (othersOf (s.entry record.id))) :=
      Realm.entry_setEntry_self _ _
    have htview : t.view = s.view.put record := by
      have hupdate : t.view = Function.update u.view record.id (tidy (t.entry record.id)) := by
        refine Realm.view_update hid fun other hother hvisible => ?_
        have hother' : other ≠ temporaryName record.id "run.json" suffix := by
          rintro rfl
          rw [hhidden] at hvisible
          cases hvisible
        rw [Realm.entry_setEntry_of_ne hother, Realm.entry_removeEntry_of_ne hother',
          hventries other hother']
      rw [hupdate, hsame, hentry, View.put, Realm.view_valid hid, othersOf_tidy]
      rfl
    have htjournal : t.journal = s.journal := hvjournal.trans hjournal
    refine ⟨t, happly, hput t hdestination htjournal htview, ?_, htjournal, htview⟩
    rw [Realm.entry_setEntry_of_ne hne.symm]
    exact Realm.entry_removeEntry_self _
  refine Leads.bind hreplace (fun _ _ _ h => h.elim) fun _ t ht hP => ?_
  refine Leads.bind (Leads.changeTo (P := fun _ v => t = v) ht rfl ht rfl)
    (fun _ _ _ h => h) fun _ v hv he => ?_
  subst he
  exact Leads.changeTo hv rfl hv ⟨hdestination, hP.1, hP.2⟩

theorem publishDocument_asJson (record : Record) :
    publishDocument record.fields.asJson = writeInstanceDocument record.id record.document := by
  have hlookup : record.fields.asJson.lookup "id" = some (.str record.id) := by
    rw [← record.fields_id]
    rfl
  unfold publishDocument
  rw [hlookup]
  rfl

/-- A batch is published document by document, up to the first one that is refused. -/
theorem publishInstanceBatch_leads {records : List Record} (hseen : Seen R) (hs : R s)
    (hpublish : ∀ done rest, records = done ++ rest → (publish done s.view).blocked = none →
      ∀ t : Realm, t.journal = s.journal → t.view = (publish done s.view).view → R t) :
    Leads realmStorage F R
      (publishInstanceBatch (records.map fun record => record.fields.asJson))
      (fun _ t => t.journal = s.journal ∧ t.view = (publish records s.view).view ∧
        (publish records s.view).blocked = none)
      (fun e t => t.journal = s.journal ∧ t.view = (publish records s.view).view ∧
        (publish records s.view).blocked = some e) s := by
  induction records generalizing s with
  | nil => exact Leads.pure hs ⟨rfl, rfl, rfl⟩
  | cons record records ih =>
    rw [List.map_cons, publishInstanceBatch, publishDocument_asJson]
    have hfirst : destination record.id (s.view record.id) = .ok () → ∀ done,
        publish (record :: done) s.view = publish done (s.view.put record) := by
      intro hdestination done
      rw [publish, hdestination]
    have hwrite := writeInstanceDocument_leads (F := F) record hseen hs
      fun t hdestination hjournal hview => by
        refine hpublish [record] records rfl ?_ t hjournal ?_
        · rw [hfirst hdestination]
          rfl
        · rw [hfirst hdestination]
          exact hview
    refine Leads.bind hwrite (fun e t _ hX => ?_) fun _ t ht hP => ?_
    · obtain ⟨rfl, hdestination⟩ := hX
      rw [publish, hdestination]
      exact ⟨rfl, rfl, rfl⟩
    · obtain ⟨hdestination, hjournal, hview⟩ := hP
      rw [hfirst hdestination]
      have hrest := ih ht fun done rest hsplit hblocked u hu huview => by
        rw [hview] at hblocked huview
        rw [hjournal] at hu
        refine hpublish (record :: done) rest (by rw [hsplit, List.cons_append]) ?_ u hu ?_
        · rw [hfirst hdestination]
          exact hblocked
        · rw [hfirst hdestination]
          exact huview
      rw [hview, hjournal] at hrest
      exact hrest

/-- A complete publication ends with the removal of the journal. -/
theorem completeBatch_leads {records : List Record} {content : Content} (hseen : Seen R) (hs : R s)
    (hjournal : s.journal = some (.regular content))
    (hpublish : ∀ done rest, records = done ++ rest → (publish done s.view).blocked = none →
      ∀ t : Realm, t.journal = s.journal → t.view = (publish done s.view).view → R t)
    (hunlink : (publish records s.view).blocked = none → ∀ t : Realm, t.journal = none →
      t.view = (publish records s.view).view → R t) :
    Leads realmStorage F R
      (completeBatch (records.map fun record => record.fields.asJson))
      (fun _ t => t.journal = none ∧ t.view = (publish records s.view).view ∧
        (publish records s.view).blocked = none)
      (fun e t => t.journal = s.journal ∧ t.view = (publish records s.view).view ∧
        (publish records s.view).blocked = some e) s := by
  unfold completeBatch
  refine Leads.bind (publishInstanceBatch_leads hseen hs hpublish) (fun _ _ _ hX => hX)
    fun _ t ht hP => ?_
  obtain ⟨htjournal, hview, hblocked⟩ := hP
  have happly : Change.apply t .unlinkJournal = some { t with journal := none } := by
    rw [Change.apply, htjournal, hjournal]
  have hRu : R { t with journal := none } := hunlink hblocked _ rfl hview
  refine Leads.bind (Leads.changeTo (P := fun _ v => { t with journal := none } = v) ht happly hRu
    rfl) (fun _ _ _ h => h) fun _ u hu he => ?_
  subst he
  exact Leads.changeTo hu rfl hu ⟨rfl, hview, hblocked⟩

theorem settled_of_records {records : List Record} (h : pending s.journal = .ok records)
    (hjournal : t.journal = s.journal) : t.settled = publish records t.view := by
  unfold Realm.settled settle
  rw [hjournal, h]

theorem settled_none (h : t.journal = none) : t.settled = ⟨t.view, none⟩ := by
  unfold Realm.settled settle
  rw [h]
  rfl

theorem settled_absent (h : exists? t.journal = false) : t.settled = ⟨t.view, none⟩ := by
  have hpending : pending t.journal = .ok [] := by
    rw [pending, h]
    rfl
  unfold Realm.settled settle
  rw [hpending]
  rfl

theorem Settled.eq_of_unblocked {w : Settled} (h : w.blocked = none) : w = ⟨w.view, none⟩ :=
  Settled.ext rfl h

/-- Recovery does what the settled entries already say, or finds them blocked. -/
theorem recoverPendingBatchLocked_leads (hseen : Seen R)
    (hsettled : ∀ t, t.settled = s.settled → R t) : Leads realmStorage F R recoverPendingBatchLocked
      (fun _ t => exists? t.journal = false ∧ t.settled = s.settled)
      (fun e t => t.settled = s.settled ∧ t.view = s.settled.view ∧ s.settled.blocked = some e)
      s := by
  have hs : R s := hsettled s rfl
  unfold recoverPendingBatchLocked
  refine Leads.get hs ?_
  cases hexists : exists? s.journal with
  | false => exact Leads.pure hs ⟨hexists, rfl⟩
  | true =>
    have hpending : pending s.journal = (readJournal s.journal >>= readBatch).mapError
        (fun e => if e.isOs || e.isType || e.isValue then .caused .cannotRecover e else e) :=
      if_pos hexists
    have hunreadable : ∀ e, readJournal s.journal >>= readBatch = .error e →
        s.settled.view = s.view ∧ s.settled.blocked = some
          (if e.isOs || e.isType || e.isValue then .caused .cannotRecover e else e) := by
      intro e he
      rw [he] at hpending
      unfold Realm.settled settle
      rw [hpending]
      exact ⟨rfl, rfl⟩
    refine Leads.mapError (fun _ _ => trivial)
      (Leads.get hs (Leads.bind (Reads.ofExcept hs) (fun e t _ hX => ?_) fun payload t _ hP => ?_))
    · obtain ⟨rfl, he⟩ := hX
      have hsettled := hunreadable e (by rw [he]; rfl)
      exact ⟨rfl, hsettled.1.symm, hsettled.2⟩
    obtain ⟨rfl, hpayload⟩ := hP
    refine Leads.bind (Reads.ofExcept hs) (fun e t _ hX => ?_) fun records t _ hP => ?_
    · obtain ⟨rfl, he⟩ := hX
      have hsettled := hunreadable e (by rw [hpayload]; exact he)
      exact ⟨rfl, hsettled.1.symm, hsettled.2⟩
    obtain ⟨rfl, hrecords⟩ := hP
    have hbatch : pending s.journal = .ok records := by
      rw [hpending, hpayload]
      change (readBatch payload).mapError _ = _
      rw [hrecords]
      rfl
    have hsettle : s.settled = publish records s.view := settled_of_records hbatch rfl
    obtain ⟨content, hcontent⟩ : ∃ content, s.journal = some (.regular content) := by
      cases hjournal : s.journal with
      | none =>
        rw [hjournal] at hexists
        cases hexists
      | some file =>
        rw [hjournal] at hpayload
        cases file with
        | regular content => exact ⟨content, rfl⟩
        | _ => cases hpayload
    have hids := pending_ids hbatch
    refine (completeBatch_leads hseen hs hcontent (fun done rest hsplit hblocked t ht hview => ?_)
      fun hblocked t ht hview => ?_).weaken (fun _ h => h) (fun _ t _ hP => ?_) fun e t _ hX => ?_
    · refine hsettled t ?_
      rw [hsplit] at hids
      rw [settled_of_records hbatch ht, hview, hsettle, hsplit]
      exact publish_resume hids hblocked
    · refine hsettled t ?_
      rw [settled_none ht, hview, hsettle]
      exact (Settled.eq_of_unblocked hblocked).symm
    · obtain ⟨hjournal, hview, hblocked⟩ := hP
      rw [settled_none hjournal, hview, hsettle]
      refine ⟨?_, (Settled.eq_of_unblocked hblocked).symm⟩
      rw [hjournal]
      rfl
    · obtain ⟨hjournal, hview, hblocked⟩ := hX
      have hcyclo := publish_isCyclo hblocked
      have hkept : (if e.isOs || e.isType || e.isValue then Failure.caused .cannotRecover e else e) =
          e := by
        cases e with
        | cyclo message => rfl
        | caused message cause => rfl
        | enumeration errors => rfl
        | _ => cases hcyclo
      rw [hkept, hsettle]
      refine ⟨?_, hview, hblocked⟩
      rw [settled_of_records hbatch hjournal, hview]
      exact publish_again hids

theorem recoverPendingBatch_leads (hseen : Seen R) (hsettled : ∀ t, t.settled = s.settled → R t) :
    Leads realmStorage F R recoverPendingBatch
      (fun _ t => exists? t.journal = false ∧ t.settled = s.settled)
      (fun e t => t.settled = s.settled ∧ t.view = s.settled.view ∧ s.settled.blocked = some e)
      s := by
  have hs : R s := hsettled s rfl
  unfold recoverPendingBatch
  refine Leads.get hs ?_
  cases hexists : exists? s.journal with
  | false => exact Leads.pure hs ⟨hexists, rfl⟩
  | true => exact recoverPendingBatchLocked_leads hseen hsettled

/-- Without a batch the recovery is a look at the journal. -/
theorem recoverPendingBatch_reads (hs : R s) (h : exists? s.journal = false) :
    Reads realmStorage F R recoverPendingBatch (.ok ()) s := by
  unfold recoverPendingBatch
  refine .get hs ?_
  rw [h]
  exact .pure hs

theorem View.load_eq {view : View} {identifier : String} (h : validId identifier = true) :
    view.load identifier = (do
      notLinked identifier (view identifier)
      let record ← (openMetadata (view identifier) >>= fromJson).mapError (loadFailure identifier)
      if record.id = identifier then .ok record
      else .error (.cyclo (.idMismatch identifier record.id))) := by
  unfold View.load
  rw [validateInstanceId_valid h]
  cases view identifier with
  | none => rfl
  | some entry => cases entry <;> rfl

theorem notLinked_tidy (identifier : String) (entry : Option Entry) :
    notLinked identifier (tidy entry) = notLinked identifier entry := by
  obtain h | ⟨h, ht⟩ := tidy_cases entry
  · rw [h]
  · rw [ht, h]
    rfl

theorem readInstance_reads (identifier : String) (hs : R s) :
    Reads realmStorage F R (readInstance identifier) (s.view.load identifier) s := by
  by_cases hid : validId identifier = true
  · rw [View.load_eq hid, Realm.view_valid hid, notLinked_tidy, openMetadata_tidy]
    refine .bind (instanceDir_reads hid hs) fun _ _ =>
      .bind (.mapError (fun _ _ => trivial) ?_) fun record _ => ?_
    · exact .bind (readMetadata_reads identifier hs) fun _ _ => .ofExcept hs
    · split
      · exact .pure hs
      · exact .raise hs
  · have hinvalid : s.view.load identifier =
        .error (.cyclo (.invalidId (.str identifier))) := by
      unfold View.load
      rw [validateInstanceId_invalid hid]
      rfl
    unfold readInstance instanceDir
    rw [hinvalid, validateInstanceId_invalid hid]
    exact Reads.raise hs

theorem Settled.load_unblocked {w : Settled} (h : w.blocked = none) (identifier : String) :
    w.load identifier = w.view.load identifier := by
  unfold Settled.load
  rw [h]

theorem Settled.load_blocked {w : Settled} {e : Failure} (h : w.blocked = some e)
    (identifier : String) : w.load identifier = .error e := by
  unfold Settled.load
  rw [h]

/-- The realm is at rest: nothing is pending, and the entries are as they are settled. -/
def Clear (w : Settled) (t : Realm) : Prop := exists? t.journal = false ∧ t.settled = w

theorem Clear.unblocked {w : Settled} (h : Clear w t) : w.blocked = none := by
  rw [← h.2, settled_absent h.1]

theorem Clear.view {w : Settled} (h : Clear w t) : t.view = w.view := by
  rw [← h.2, settled_absent h.1]

/-- The settled state, and the entries as recovery leaves them. -/
def Stopped (w : Settled) (t : Realm) : Prop := t.settled = w ∧ t.view = w.view

theorem Clear.stopped {w : Settled} (h : Clear w t) : Stopped w t := ⟨h.2, h.view⟩

theorem load_leads (identifier : String) (hseen : Seen R)
    (hsettled : ∀ t, t.settled = s.settled → R t) : Leads realmStorage F R (load identifier)
      (fun record t => Clear s.settled t ∧ s.settled.load identifier = .ok record)
      (fun e t => Stopped s.settled t ∧ s.settled.load identifier = .error e) s := by
  unfold load
  refine Leads.bind (recoverPendingBatch_leads hseen hsettled) (fun e t _ hX => ?_)
    fun _ t ht hP => ?_
  · obtain ⟨hsame, hview, hblocked⟩ := hX
    exact ⟨⟨hsame, hview⟩, Settled.load_blocked hblocked identifier⟩
  · have hclear : Clear s.settled t := hP
    have hload : s.settled.load identifier = t.view.load identifier := by
      rw [Settled.load_unblocked hclear.unblocked, hclear.view]
    refine (readInstance_reads identifier ht).weaken (fun _ h => h) (fun record u _ hP => ?_)
      fun e u _ hX => ?_
    · obtain ⟨rfl, hrecord⟩ := hP
      exact ⟨hclear, hload.trans hrecord⟩
    · obtain ⟨rfl, he⟩ := hX
      exact ⟨hclear.stopped, hload.trans he⟩

end Cyclo.StateStore
