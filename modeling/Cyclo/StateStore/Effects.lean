import Cyclo.StateStore.Contracts

/-! What each operation does to the settled entries and answers, killed at any point or not. -/
namespace Cyclo.StateStore
open Python Process

variable {F : Prop} {R : Realm → Prop} {s t : Realm}

theorem save_leads (host : Host) (i : Instance) (hseen : Seen R)
    (hsettled : ∀ t, t.settled = s.settled → R t)
    (hafter : ∀ t, t.settled = (s.settled.save (host.now 0) i).2 → R t) :
    Leads realmStorage F R (save host i)
      (fun _ t => Stopped (s.settled.save (host.now 0) i).2 t ∧
        (s.settled.save (host.now 0) i).1 = .ok ())
      (fun e t => Stopped (s.settled.save (host.now 0) i).2 t ∧
        (s.settled.save (host.now 0) i).1 = .error e) s := by
  unfold save
  refine Leads.bind (recoverPendingBatch_leads hseen hsettled) (fun e t _ hX => ?_)
    fun _ t ht hP => ?_
  · obtain ⟨hsame, hview, hblocked⟩ := hX
    have hsave : s.settled.save (host.now 0) i = (.error e, s.settled) := by
      unfold Settled.save
      rw [hblocked]
    rw [hsave]
    exact ⟨⟨hsame, hview⟩, rfl⟩
  have hclear : Clear s.settled t := hP
  cases hprepared : prepareInstance (host.now 0) i with
  | error e =>
    have hsave : s.settled.save (host.now 0) i = (.error e, s.settled) := by
      unfold Settled.save
      rw [hclear.unblocked, hprepared]
    rw [hsave]
    exact Leads.raise ht ⟨hclear.stopped, rfl⟩
  | ok record =>
    refine Leads.bind (Reads.ofExcept ht) (fun _ _ _ hX => by cases hX.2) fun found u _ hP => ?_
    obtain ⟨rfl, hfound⟩ := hP
    cases hfound
    cases hdestination : destination record.id (t.view record.id) with
    | error e =>
      have hsave : s.settled.save (host.now 0) i = (.error e, s.settled) := by
        unfold Settled.save
        rw [hclear.unblocked, hprepared, ← hclear.view]
        simp only [hdestination]
      rw [hsave]
      refine (writeInstanceDocument_leads record hseen ht fun u hok => ?_).weaken (fun _ h => h)
        (fun _ u _ hP => ?_) fun e' u _ hX => ?_
      · rw [hdestination] at hok
        cases hok
      · rw [hdestination] at hP
        cases hP.1
      · obtain ⟨rfl, he⟩ := hX
        rw [hdestination] at he
        cases he
        exact ⟨hclear.stopped, rfl⟩
    | ok _ =>
      have hsave : s.settled.save (host.now 0) i = (.ok (), ⟨t.view.put record, none⟩) := by
        unfold Settled.save
        rw [hclear.unblocked, hprepared, ← hclear.view]
        simp only [hdestination]
      have hput : ∀ u : Realm, u.journal = t.journal → u.view = t.view.put record →
          u.settled = ⟨t.view.put record, none⟩ := by
        intro u hjournal hview
        have hexists := hclear.1
        rw [← hjournal] at hexists
        rw [settled_absent hexists, hview]
      rw [hsave] at hafter ⊢
      refine (writeInstanceDocument_leads record hseen ht fun u _ hjournal hview =>
        hafter u (hput u hjournal hview)).weaken (fun _ h => h) (fun _ u _ hP => ?_)
        fun e u _ hX => ?_
      · exact ⟨⟨hput u hP.2.1 hP.2.2, hP.2.2⟩, rfl⟩
      · rw [hdestination] at hX
        cases hX.2

/-- The journal of a cohort is written at once. -/
theorem writeJournal_leads {temporary : String} {document : Value}
    (hhidden : isHidden temporary = true) (hfresh : s.entry temporary = none)
    (habsent : exists? s.journal = false) (hseen : Seen R) (hs : R s)
    (hR : ∀ t : Realm, t.journal = some (.regular (.parsed document)) → t.view = s.view → R t) :
    Leads realmStorage F R (replaceFile temporary document (.renameToJournal temporary))
      (fun _ t => t.journal = some (.regular (.parsed document)) ∧ t.view = s.view)
      (fun _ _ => False) s := by
  refine replaceFile_leads hhidden hfresh hseen hs fun u hjournal hentries htemporary => ?_
  let t := { u.removeEntry temporary with journal := some (.regular (.parsed document)) }
  have happly : Change.apply u (.renameToJournal temporary) = some t := by
    rw [← hjournal] at habsent
    rw [Change.apply, htemporary]
    · cases hu : u.journal with
      | none => rfl
      | some file =>
        rw [hu] at habsent
        cases file with
        | symlink dangling => rfl
        | _ => cases habsent
  have hview : t.view = s.view := Realm.view_of_entries hhidden fun other hother =>
    (Realm.entry_removeEntry_of_ne hother).trans (hentries other hother)
  exact ⟨t, happly, hR t rfl hview, Realm.entry_removeEntry_self temporary, rfl, hview⟩

theorem prepareBatch_ne_nil {now : ℕ → String} {identifiers : List String}
    {instances : List Instance} {records : List Record} (hne : instances ≠ [])
    (h : prepareBatch now identifiers instances = .ok records) : records ≠ [] := by
  rintro rfl
  cases prepareBatch_entries h
  exact hne rfl

theorem saveMany_leads (host : Host) (instances : List Instance) (hseen : Seen R)
    (hsettled : ∀ t, t.settled = s.settled → R t)
    (hafter : ∀ t, t.settled = (s.settled.saveMany host.now instances).2 → R t) :
    Leads realmStorage F R (saveMany host instances)
      (fun _ t => Stopped (s.settled.saveMany host.now instances).2 t ∧
        (s.settled.saveMany host.now instances).1 = .ok ())
      (fun e t => Stopped (s.settled.saveMany host.now instances).2 t ∧
        (s.settled.saveMany host.now instances).1 = .error e) s := by
  unfold saveMany
  refine Leads.bind (recoverPendingBatchLocked_leads hseen hsettled) (fun e t _ hX => ?_)
    fun _ t ht hP => ?_
  · obtain ⟨hsame, hview, hblocked⟩ := hX
    have hsave : s.settled.saveMany host.now instances = (.error e, s.settled) := by
      unfold Settled.saveMany
      rw [hblocked]
    rw [hsave]
    exact ⟨⟨hsame, hview⟩, rfl⟩
  have hclear : Clear s.settled t := hP
  split
  · rename_i hempty
    have hsave : s.settled.saveMany host.now instances = (.ok (), s.settled) := by
      unfold Settled.saveMany
      rw [hclear.unblocked, hempty]
      exact congrArg _ (Settled.eq_of_unblocked hclear.unblocked).symm
    rw [hsave]
    exact Leads.pure ht ⟨hclear.stopped, rfl⟩
  rename_i hne
  cases hprepared : prepareBatch host.now [] instances with
  | error e =>
    have hsave : s.settled.saveMany host.now instances = (.error e, s.settled) := by
      unfold Settled.saveMany
      rw [hclear.unblocked, hprepared]
    rw [hsave]
    exact Leads.raise ht ⟨hclear.stopped, rfl⟩
  | ok records =>
    refine Leads.bind (Reads.ofExcept ht) (fun _ _ _ hX => by cases hX.2) fun found u _ hP => ?_
    obtain ⟨rfl, hfound⟩ := hP
    cases hfound
    have hids := (prepareBatch_ids hprepared).1
    have hstate : (s.settled.saveMany host.now instances).2 = publish records t.view := by
      unfold Settled.saveMany
      rw [hclear.unblocked, hprepared, ← hclear.view]
      cases hblocked : (publish records t.view).blocked <;> simp only [hblocked]
    have hanswer : (s.settled.saveMany host.now instances).1 =
        (publish records t.view).blocked.elim (.ok ()) .error := by
      unfold Settled.saveMany
      rw [hclear.unblocked, hprepared, ← hclear.view]
      cases hblocked : (publish records t.view).blocked <;> simp only [hblocked, Option.elim]
    have hpending := pending_batchDocument hids (prepareBatch_ne_nil hne hprepared)
    have hjournaled : ∀ u : Realm, u.journal = some (.regular (.parsed (batchDocument records))) →
        u.settled = publish records u.view := by
      intro u hu
      refine settled_of_records (s := u) ?_ rfl
      rw [hu]
      exact hpending
    rw [hstate] at hafter ⊢
    rw [hanswer]
    refine Leads.mapError (fun _ _ => trivial)
      (Leads.ask ht ⟨_, Question.answers_answer .suffix t⟩ fun suffix hsuffix => ?_)
    refine Leads.bind (writeJournal_leads
      (isHidden_temporaryName host.root "pending-instance-batch.json" suffix) (hsuffix _) hclear.1
      hseen ht fun u hu hview => hafter u (by rw [hjournaled u hu, hview])) (fun _ _ _ h =>
        h.elim) fun _ u hu hP => ?_
    obtain ⟨hujournal, huview⟩ := hP
    refine (completeBatch_leads hseen hu hujournal (fun done rest hsplit hblocked v hv hview => ?_)
      fun hblocked v hv hview => ?_).weaken (fun _ h => h) (fun _ v _ hP => ?_) fun e v _ hX => ?_
    · refine hafter v ?_
      rw [hsplit] at hids
      rw [hjournaled v (hv.trans hujournal), hview, huview, hsplit]
      rw [huview] at hblocked
      exact publish_resume hids hblocked
    · refine hafter v ?_
      rw [huview] at hview hblocked
      rw [settled_none hv, hview]
      exact (Settled.eq_of_unblocked hblocked).symm
    · obtain ⟨hv, hview, hblocked⟩ := hP
      rw [huview] at hview hblocked
      rw [hblocked]
      refine ⟨⟨?_, hview⟩, rfl⟩
      rw [settled_none hv, hview]
      exact (Settled.eq_of_unblocked hblocked).symm
    · obtain ⟨hv, hview, hblocked⟩ := hX
      rw [huview] at hview hblocked
      have hcyclo := publish_isCyclo hblocked
      have hkept : (if e.isOs then Failure.caused .cannotPublish e else e) = e := by
        cases e with
        | cyclo message => rfl
        | caused message cause => rfl
        | enumeration errors => rfl
        | _ => cases hcyclo
      rw [hblocked, hkept]
      refine ⟨⟨?_, hview⟩, rfl⟩
      rw [hjournaled v (hv.trans hujournal), hview]
      exact publish_again hids

theorem View.of_load {view : View} {identifier : String} {record : Record}
    (h : view.load identifier = .ok record) :
    validId identifier = true ∧ record.id = identifier ∧
      ∃ file others, view identifier = some (.directory (some file) others) := by
  by_cases hid : validId identifier = true
  · rw [View.load_eq hid] at h
    obtain ⟨_, hlinked, h⟩ := bind_eq_ok.mp h
    obtain ⟨found, hfound, h⟩ := bind_eq_ok.mp h
    refine ⟨hid, ?_, ?_⟩
    · split_ifs at h with heq
      cases h
      exact heq
    · cases hentry : view identifier with
      | none =>
        rw [hentry] at hfound
        cases hfound
      | some entry =>
        rw [hentry] at hfound hlinked
        cases entry with
        | directory metadata others =>
          cases metadata with
          | none => cases hfound
          | some file => exact ⟨file, others, rfl⟩
        | symlink => cases hlinked
        | file content => cases hfound
        | special => cases hfound
  · unfold View.load at h
    rw [validateInstanceId_invalid hid] at h
    cases h

theorem remove_leads (identifier : String) (hseen : Seen R)
    (hsettled : ∀ t, t.settled = s.settled → R t)
    (hafter : ∀ t, t.settled = (s.settled.remove identifier).2 → R t) :
    Leads realmStorage F R (remove identifier)
      (fun _ t => Stopped (s.settled.remove identifier).2 t ∧
        (s.settled.remove identifier).1 = .ok ())
      (fun e t => Stopped (s.settled.remove identifier).2 t ∧
        (s.settled.remove identifier).1 = .error e) s := by
  unfold remove
  refine Leads.bind (load_leads identifier hseen hsettled) (fun e t _ hX => ?_)
    fun record t ht hP => ?_
  · obtain ⟨hstopped, he⟩ := hX
    have hremove : s.settled.remove identifier = (.error e, s.settled) := by
      unfold Settled.remove
      rw [he]
    rw [hremove]
    exact ⟨hstopped, rfl⟩
  obtain ⟨hclear, hrecord⟩ := hP
  by_cases hintent : record.fields.intent.text = "stopped"
  swap
  · have hremove : s.settled.remove identifier =
        (.error (.cyclo (.running identifier)), s.settled) := by
      unfold Settled.remove
      rw [hrecord]
      exact if_neg hintent
    rw [hremove, if_neg hintent]
    exact Leads.raise ht ⟨hclear.stopped, rfl⟩
  have hremove : s.settled.remove identifier =
      (.ok (), ⟨Function.update s.settled.view identifier none, none⟩) := by
    unfold Settled.remove
    rw [hrecord]
    exact if_pos hintent
  rw [hremove] at hafter ⊢
  rw [if_pos hintent]
  have hload := hrecord
  rw [Settled.load_unblocked hclear.unblocked, ← hclear.view] at hload
  obtain ⟨hid, -, file, others, hentry⟩ := View.of_load hload
  rw [Realm.view_valid hid] at hentry
  have hentry : t.entry identifier = some (.directory (some file) others) := by
    obtain h | ⟨-, hnone⟩ := tidy_cases (t.entry identifier)
    · rw [← h]
      exact hentry
    · rw [hnone] at hentry
      cases hentry
  refine Leads.bind (Leads.pure (P := fun _ u => t = u) ht rfl) (fun _ _ _ h => h)
    fun _ u _ he => ?_
  subst he
  refine Leads.bind (instanceDir_reads hid ht) (fun e u _ hX => ?_) fun _ u _ hP => ?_
  · rw [hentry] at hX
    cases hX.2
  obtain ⟨rfl, -⟩ := hP
  refine Leads.ask ht ⟨_, Question.answers_answer .suffix t⟩ fun suffix hsuffix => ?_
  have hhidden := isHidden_quarantineName identifier suffix
  have hne := ne_of_hidden hid hhidden
  have hfresh : t.entry (quarantineName identifier suffix) = none := hsuffix _
  let moved := (t.removeEntry identifier).setEntry (quarantineName identifier suffix)
    (.directory (some file) others)
  have hrename : Change.apply t (.renameDirectory identifier (quarantineName identifier suffix)) =
      some moved := by
    rw [Change.apply, hentry, hfresh]
  have hmoved : moved.entry (quarantineName identifier suffix) =
      some (.directory (some file) others) := Realm.entry_setEntry_self _ _
  have hgone : ∀ u : Realm, u.journal = t.journal →
      (∀ other, other ≠ quarantineName identifier suffix → u.entry other = moved.entry other) →
      u.view = Function.update s.settled.view identifier none ∧
        u.settled = ⟨Function.update s.settled.view identifier none, none⟩ := by
    intro u hjournal hentries
    have hremoved : moved.entry identifier = none :=
      (Realm.entry_setEntry_of_ne hne _).trans (Realm.entry_removeEntry_self _)
    have hview : u.view = Function.update s.settled.view identifier none := by
      rw [← hclear.view, Realm.view_update hid fun other hother hvisible => ?_,
        hentries identifier hne, hremoved]
      · rfl
      · have hother' : other ≠ quarantineName identifier suffix := by
          rintro rfl
          rw [hhidden] at hvisible
          cases hvisible
        rw [hentries other hother', Realm.entry_setEntry_of_ne hother',
          Realm.entry_removeEntry_of_ne hother]
    refine ⟨hview, ?_⟩
    have hexists := hclear.1
    rw [← hjournal] at hexists
    rw [settled_absent hexists, hview]
  have hRmoved : R moved := hafter _ (hgone moved rfl fun _ _ => rfl).2
  let cleaned := moved.removeEntry (quarantineName identifier suffix)
  have hcleaned := hgone cleaned rfl fun other hother => Realm.entry_removeEntry_of_ne hother
  have hremoveTree : Change.apply moved (.removeTree (quarantineName identifier suffix)) =
      some cleaned := by
    rw [Change.apply, hmoved]
  refine Leads.mapError (fun _ _ => trivial) ?_
  refine Leads.bind (Leads.changeTo (P := fun _ u => moved = u) ht hrename hRmoved rfl)
    (fun _ _ (_ : R _) (h : False) => h.elim) fun _ u _ he => ?_
  subst he
  refine Leads.bind (Leads.changeTo (P := fun _ u => moved = u) hRmoved rfl hRmoved rfl)
    (fun _ _ (_ : R _) (h : False) => h.elim) fun _ u _ he => ?_
  subst he
  have hRcleaned : R cleaned := hafter _ hcleaned.2
  refine Leads.bind (Leads.changeTo (P := fun _ u => cleaned = u) hRmoved hremoveTree hRcleaned rfl)
    (fun _ _ (_ : R _) (h : False) => h.elim) fun _ u _ he => ?_
  subst he
  exact Leads.changeTo hRcleaned rfl hRcleaned ⟨⟨hcleaned.2, hcleaned.1⟩, rfl⟩

/-- What an enumeration tells of the instances, also where one of its operations failed. -/
structure Settled.Shows (w : Settled) (records : List Record) (errors : List Failure) : Prop where
  sound : ∀ record ∈ records, w.load record.id = .ok record
  complete : ∀ identifier record, w.load identifier = .ok record →
    record ∈ records ∨ (∃ e, .caused (.entry identifier) e ∈ errors) ∨ (records = [] ∧ errors ≠ [])

/-- What an enumeration finds at a name that is listed. -/
def View.found (view : View) (name : String) : Except Failure (Option Record) :=
  match view name with
  | none => .ok none
  | some _ => view.loadEntry name

theorem View.load_isCyclo {view : View} {identifier : String} {e : Failure}
    (h : view.load identifier = .error e) : e.isCyclo = true := by
  by_cases hid : validId identifier = true
  · rw [View.load_eq hid] at h
    cases hlinked : notLinked identifier (view identifier) with
    | error e' =>
      rw [hlinked] at h
      cases h
      unfold notLinked at hlinked
      split at hlinked
      · cases hlinked
        rfl
      · cases hlinked
    | ok _ =>
      rw [hlinked] at h
      cases hread : openMetadata (view identifier) >>= fromJson with
      | error cause =>
        rw [hread] at h
        cases h
        cases cause <;> rfl
      | ok record =>
        rw [hread] at h
        change (if record.id = identifier then _ else _) = _ at h
        split_ifs at h
        cases h
        rfl
  · unfold View.load at h
    rw [validateInstanceId_invalid hid] at h
    cases h
    rfl

theorem View.found_isCyclo {view : View} {name : String} {e : Failure}
    (h : view.found name = .error e) : e.isCyclo = true := by
  unfold View.found at h
  split at h
  · cases h
  · by_cases hid : validId name = true
    · unfold View.loadEntry at h
      rw [validateInstanceId_valid hid] at h
      simp only [bind, Except.bind] at h
      split at h
      · split_ifs at h
        · cases hload : view.load name with
          | error e' =>
            rw [hload] at h
            cases h
            exact View.load_isCyclo hload
          | ok record =>
            rw [hload] at h
            cases h
        · cases h
          rfl
      · cases h
        rfl
    · unfold View.loadEntry at h
      rw [validateInstanceId_invalid hid] at h
      cases h
      rfl

/-- One listed name, once nothing is pending. -/
theorem loadEntry_reads {name : String} (hs : R s) (hexists : exists? s.journal = false)
    (hsome : (s.entry name).isSome) (hvisible : isHidden name = false) :
    Reads realmStorage F R (loadEntry name) (s.view.found name) s := by
  unfold loadEntry
  by_cases hid : validId name = true
  swap
  · have hview : s.view name = s.entry name := by
      unfold Realm.view
      rw [hvisible, Bool.not_eq_true] at *
      rw [hid]
      rfl
    have hfound : s.view.found name = .error (.cyclo (.invalidId (.str name))) := by
      obtain ⟨entry, hentry⟩ := Option.isSome_iff_exists.mp hsome
      unfold View.found View.loadEntry
      rw [hview, hentry, validateInstanceId_invalid hid]
      rfl
    rw [hfound, validateInstanceId_invalid hid]
    exact Reads.raise hs
  have hview : s.view name = tidy (s.entry name) := Realm.view_valid hid
  have hlisted : ∀ metadata others, s.view name = some (.directory metadata others) →
      s.view.found name = if exists? metadata then (do return some (← s.view.load name))
        else .error (.cyclo .entryNoMetadata) := by
    intro metadata others hentry
    unfold View.found View.loadEntry
    rw [validateInstanceId_valid hid, hentry]
    rfl
  have hother : ∀ entry, s.entry name = some entry → tidy (some entry) = some entry →
      (∀ metadata others, entry ≠ .directory metadata others) →
      s.view.found name = .error (.cyclo .entryNotDirectory) := by
    intro entry hentry htidy hnot
    unfold View.found View.loadEntry
    rw [validateInstanceId_valid hid, hview, hentry, htidy]
    cases entry with
    | directory metadata others => exact absurd rfl (hnot metadata others)
    | _ => rfl
  rw [validateInstanceId_valid hid]
  refine Leads.bind (Reads.ofExcept hs) (fun _ _ _ hX => by cases hX.2) fun _ t _ hP => ?_
  obtain ⟨rfl, -⟩ := hP
  unfold requireDirectory
  obtain ⟨entry, hentry⟩ := Option.isSome_iff_exists.mp hsome
  cases entry with
  | symlink =>
    rw [hother _ hentry rfl fun _ _ h => by cases h]
    refine Leads.bind (P := fun _ _ => False) (Leads.get hs ?_) (fun _ _ _ h => h)
      fun _ _ _ h => h.elim
    rw [hentry]
    exact Leads.raise hs ⟨rfl, rfl⟩
  | file content =>
    rw [hother _ hentry rfl fun _ _ h => by cases h]
    refine Leads.bind (P := fun _ _ => False) (Leads.get hs ?_) (fun _ _ _ h => h)
      fun _ _ _ h => h.elim
    rw [hentry]
    exact Leads.raise hs ⟨rfl, rfl⟩
  | special =>
    rw [hother _ hentry rfl fun _ _ h => by cases h]
    refine Leads.bind (P := fun _ _ => False) (Leads.get hs ?_) (fun _ _ _ h => h)
      fun _ _ _ h => h.elim
    rw [hentry]
    exact Leads.raise hs ⟨rfl, rfl⟩
  | directory metadata others =>
    refine Leads.bind (P := fun _ t => s = t) (Leads.get hs ?_) (fun _ _ _ h => h) fun _ t _ he => ?_
    · rw [hentry]
      exact Leads.pure hs rfl
    subst he
    refine Leads.bind (instanceDir_reads hid hs) (fun e t _ hX => ?_) fun _ t _ hP => ?_
    · rw [hentry] at hX
      cases hX.2
    obtain ⟨rfl, -⟩ := hP
    refine Leads.get hs ?_
    rw [hentry]
    change Leads realmStorage F R
      (if exists? metadata then (do return some (← load name))
        else if metadata.isNone && others.isEmpty then Pure.pure none
        else StateStore.fail .entryNoMetadata) _ _ s
    by_cases hmetadata : exists? metadata = true
    · have htidy : s.view name = some (.directory metadata others) := by
        rw [hview, hentry]
        cases metadata with
        | none => cases hmetadata
        | some file => rfl
      rw [if_pos hmetadata, hlisted _ _ htidy]
      rw [if_pos hmetadata]
      refine Reads.bind ?_ fun _ _ => Reads.pure hs
      unfold load
      refine Leads.bind (recoverPendingBatch_reads hs hexists) (fun _ _ _ hX => by cases hX.2)
        fun _ t _ hP => ?_
      obtain ⟨rfl, -⟩ := hP
      exact readInstance_reads name hs
    · rw [if_neg hmetadata]
      by_cases hempty : (metadata.isNone && others.isEmpty) = true
      · have htidy : s.view.found name = .ok none := by
          obtain ⟨hnone, hothers⟩ := Bool.and_eq_true_iff.mp hempty
          have hnil : tidy (some (.directory metadata others)) = none := by
            rw [Option.isNone_iff_eq_none.mp hnone, List.isEmpty_iff.mp hothers]
            rfl
          unfold View.found
          rw [hview, hentry, hnil]
        rw [if_pos hempty, htidy]
        exact Reads.pure hs
      · have htidy : s.view name = some (.directory metadata others) := by
          rw [hview, hentry]
          cases metadata with
          | some file => rfl
          | none =>
            cases others with
            | nil => exact absurd rfl hempty
            | cons other others => rfl
        rw [if_neg hempty, hlisted _ _ htidy]
        rw [if_neg hmetadata]
        exact Reads.raise hs

/-- The report of one name: as found, or an error where an operation failed. -/
def Reported (F : Prop) (view : View) (name : String)
    (report : Except Failure (Option Record)) : Prop :=
  report = (view.found name).mapError (.caused (.entry name)) ∨
    F ∧ ∃ e, report = .error (.caused (.entry name) e)

theorem reportEntry_leads {name : String} (hexists : exists? s.journal = false)
    (hsome : (s.entry name).isSome) (hvisible : isHidden name = false) :
    Leads realmStorage F (s = ·) (reportEntry name)
      (fun report _ => Reported F s.view name report) (fun _ _ => False) s := by
  have hfound : Reads realmStorage F (s = ·) (do
      let record ← loadEntry name
      return (.ok record : Except Failure (Option Record)))
      (s.view.found name >>= fun record => .ok (.ok record)) s :=
    .bind (loadEntry_reads rfl hexists hsome hvisible) fun _ _ => .pure rfl
  refine Leads.rescue (hfound.weaken (fun _ h => h) (fun report t _ hP => ?_) fun _ _ _ h => h)
    fun e t ht he => ?_
  · obtain ⟨-, hreport⟩ := hP
    obtain ⟨record, hrecord, hok⟩ := bind_eq_ok.mp hreport
    cases hok
    rw [Reported, hrecord]
    exact .inl rfl
  · cases hreported : e.isReported with
    | true =>
      refine Leads.pure ht ?_
      obtain hf | ⟨-, hX⟩ := he
      · exact .inr ⟨hf.1, e, rfl⟩
      · cases hcase : s.view.found name with
        | ok record =>
          rw [hcase] at hX
          cases hX
        | error e' =>
          rw [hcase] at hX
          cases hX
          rw [Reported, hcase]
          exact .inl rfl
    | false =>
      obtain hf | ⟨-, hX⟩ := he
      · exact ⟨ht, .inl hf⟩
      · cases hcase : s.view.found name with
        | ok record =>
          rw [hcase] at hX
          cases hX
        | error e' =>
          rw [hcase] at hX
          cases hX
          have hcyclo := View.found_isCyclo hcase
          rw [Failure.isReported, hcyclo, Bool.or_true] at hreported
          cases hreported

theorem reportEntries_leads {names : List String} (hexists : exists? s.journal = false)
    (hsome : ∀ name ∈ names, (s.entry name).isSome) :
    Leads realmStorage F (s = ·) (reportEntries names)
      (fun found _ => ∃ reports, List.Forall₂ (Reported F s.view)
        (names.filter fun name => !isHidden name) reports ∧ found = gather reports)
      (fun _ _ => False) s := by
  induction names with
  | nil => exact Leads.pure rfl ⟨[], .nil, rfl⟩
  | cons name names ih =>
    obtain ⟨hname, hnames⟩ := List.forall_mem_cons.mp hsome
    unfold reportEntries
    cases hhidden : isHidden name with
    | true =>
      rw [List.filter_cons, hhidden]
      exact ih hnames
    | false =>
      rw [List.filter_cons, hhidden]
      refine Leads.bind (reportEntry_leads hexists hname hhidden) (fun _ _ _ h => h)
        fun report t ht hreport => ?_
      subst ht
      refine Leads.bind (ih hnames) (fun _ _ _ h => h) fun found t ht hfound => ?_
      obtain ⟨reports, hreports, rfl⟩ := hfound
      cases report with
      | error e => exact Leads.pure ht ⟨_, .cons hreport hreports, rfl⟩
      | ok record =>
        cases record with
        | none => exact Leads.pure ht ⟨_, .cons hreport hreports, rfl⟩
        | some record => exact Leads.pure ht ⟨_, .cons hreport hreports, rfl⟩

theorem mem_gather {reports : List (Except Failure (Option Record))} :
    (∀ record, record ∈ (gather reports).1 ↔ .ok (some record) ∈ reports) ∧
      ∀ e, e ∈ (gather reports).2 ↔ .error e ∈ reports := by
  induction reports with
  | nil => simp [gather]
  | cons report reports ih =>
    obtain ⟨hrecords, herrors⟩ := ih
    cases report with
    | error e => simp [gather, hrecords, herrors]
    | ok record => cases record <;> simp [gather, hrecords, herrors]

/-- Names without an entry to tell of do not change what is gathered. -/
theorem gather_found (view : View) (names : List String) :
    gather (names.map fun name => (view.found name).mapError (.caused (.entry name))) =
      gather ((names.filter fun name => (view name).isSome).map view.report) := by
  induction names with
  | nil => rfl
  | cons name names ih =>
    rw [List.map_cons, List.filter_cons]
    cases hview : view name with
    | none =>
      have hfound : view.found name = .ok none := by
        rw [View.found, hview]
      rw [hfound]
      exact ih
    | some entry =>
      have hfound : (view.found name).mapError (.caused (.entry name)) = view.report name := by
        rw [View.found, hview]
        rfl
      rw [hfound, Option.isSome_some, if_pos rfl, List.map_cons]
      cases view.report name with
      | error e => simp only [gather, ih]
      | ok record => cases record <;> simp only [gather, ih]

end Cyclo.StateStore
