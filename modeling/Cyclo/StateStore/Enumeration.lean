import Cyclo.StateStore.Effects

/-! Enumerations of the instances, and all operations together. -/
namespace Cyclo.StateStore
open Python Process

variable {F : Prop} {R : Realm → Prop} {s t : Realm}

theorem shows_failed (w : Settled) {errors : List Failure} (h : errors ≠ []) :
    w.Shows [] errors where
  sound _ hmem := nomatch hmem
  complete _ _ _ := .inr (.inr ⟨rfl, h⟩)

/-- An enumeration of the entries of a realm at rest. -/
theorem listed_shows {w : Settled} {names : List String}
    {reports : List (Except Failure (Option Record))} (hclear : Clear w s)
    (hnames : Question.names.answers s names)
    (hreports : List.Forall₂ (Reported F s.view)
      ((sortedBy id names).filter fun name => !isHidden name) reports) :
    w.Shows (sortedBy Record.id (gather reports).1) (gather reports).2 := by
  have hload : ∀ identifier, w.load identifier = s.view.load identifier := fun identifier => by
    rw [Settled.load_unblocked hclear.unblocked, hclear.view]
  obtain ⟨hleft, hright⟩ := mem_of_forall₂ hreports
  constructor
  · intro record hmem
    rw [(sortedBy_perm _ _).mem_iff, mem_gather.1] at hmem
    obtain ⟨name, -, hreport⟩ := hleft _ hmem
    obtain hfound | ⟨-, e, he⟩ := hreport
    · have hfound : s.view.found name = .ok (some record) := by
        cases hcase : s.view.found name with
        | error e =>
          rw [hcase] at hfound
          cases hfound
        | ok found =>
          rw [hcase] at hfound
          cases hfound
          rfl
      unfold View.found at hfound
      split at hfound
      · cases hfound
      · unfold View.loadEntry at hfound
        obtain ⟨_, -, hfound⟩ := bind_eq_ok.mp hfound
        split at hfound
        · split_ifs at hfound
          · obtain ⟨found, hrecord, hfound⟩ := bind_eq_ok.mp hfound
            cases hfound
            obtain ⟨-, rfl, -⟩ := View.of_load hrecord
            exact (hload _).trans hrecord
        · cases hfound
    · cases he
  · intro identifier record hrecord
    rw [hload] at hrecord
    obtain ⟨hid, -, file, others, hentry⟩ := View.of_load hrecord
    have hsome : (s.view identifier).isSome := by
      rw [hentry]
      rfl
    obtain ⟨hlisted, hhidden⟩ := Realm.view_isSome hsome
    have hmem : identifier ∈ (sortedBy id names).filter fun name => !isHidden name := by
      rw [List.mem_filter, (sortedBy_perm _ _).mem_iff, hhidden]
      exact ⟨(hnames.2 identifier).mpr hlisted, rfl⟩
    obtain ⟨report, hreport, hreported⟩ := hright identifier hmem
    rw [(sortedBy_perm _ _).mem_iff, mem_gather.1]
    obtain hfound | ⟨-, e, rfl⟩ := hreported
    · have hentered : s.view.loadEntry identifier = if exists? (some file) then .ok (some record)
          else .error (.cyclo .entryNoMetadata) := by
        unfold View.loadEntry
        rw [validateInstanceId_valid hid, hentry]
        change (if exists? (some file) then (do return some (← s.view.load identifier)) else _) = _
        rw [hrecord]
        rfl
      rw [View.found, hentry] at hfound
      change report = (s.view.loadEntry identifier).mapError _ at hfound
      rw [hentered] at hfound
      split_ifs at hfound
      · rw [hfound] at hreport
        exact .inl hreport
      · rw [hfound] at hreport
        exact .inr (.inl ⟨_, mem_gather.2 _ |>.mpr hreport⟩)
    · exact .inr (.inl ⟨e, mem_gather.2 _ |>.mpr hreport⟩)

theorem reported_exact {view : View} {names : List String}
    {reports : List (Except Failure (Option Record))} (hfault : ¬ F)
    (h : List.Forall₂ (Reported F view) names reports) :
    reports = names.map fun name => (view.found name).mapError (.caused (.entry name)) := by
  induction h with
  | nil => rfl
  | cons hreport _ ih =>
    have hreport := hreport.resolve_right fun hf => hfault hf.1
    rw [hreport, ih]
    rfl

/-- Without faults the enumeration is the one of the settled entries. -/
theorem listed_reports {w : Settled} {names : List String}
    {reports : List (Except Failure (Option Record))} (hclear : Clear w s)
    (hnames : Question.names.answers s names) (hfault : ¬ F)
    (hreports : List.Forall₂ (Reported F s.view)
      ((sortedBy id names).filter fun name => !isHidden name) reports) :
    w.Reports (.ok (sortedBy Record.id (gather reports).1, (gather reports).2)) := by
  have hsorted : (sortedBy id names).Pairwise (· < ·) := by
    have hnodup : (sortedBy id names).Nodup := (sortedBy_perm id names).nodup_iff.mpr hnames.1
    have hle : (sortedBy id names).Pairwise (· ≤ ·) :=
      List.pairwise_insertionSort (fun x y : String => x ≤ y) names
    exact hle.imp₂ (fun _ _ hle hne => lt_of_le_of_ne hle hne) hnodup
  unfold Settled.Reports
  rw [hclear.unblocked, reported_exact hfault hreports, gather_found, ← hclear.view]
  refine ⟨_, (hsorted.filter _).filter _, fun name => ?_, rfl⟩
  rw [List.mem_filter, List.mem_filter, (sortedBy_perm _ _).mem_iff, hnames.2]
  constructor
  · intro h
    exact h.2
  · intro h
    obtain ⟨hlisted, hhidden⟩ := Realm.view_isSome h
    rw [hhidden]
    exact ⟨⟨hlisted, rfl⟩, h⟩

theorem listNames_leads :
    Leads realmStorage F (s = ·) listNames
      (fun names _ => (∃ listed, names = .ok listed ∧ Question.names.answers s listed) ∨
        F ∧ ∃ e, names = .error e) (fun _ _ => False) s := by
  unfold listNames
  refine Leads.rescue (Y := fun _ _ => False) (Leads.ask rfl ⟨_, Question.answers_answer .names s⟩
    fun listed hlisted => Leads.pure rfl (.inl ⟨listed, rfl, hlisted⟩)) fun e t ht he => ?_
  have hf : F := (he.resolve_right id).1
  split
  · exact Leads.pure ht (.inr ⟨hf, e, rfl⟩)
  · exact ⟨ht, .inl ⟨hf, trivial⟩⟩

theorem listReportLocked_leads (hclear : exists? s.journal = false) :
    Leads realmStorage F (s = ·) (do
        match ← listNames with
        | .error e => return ([], [.caused .cannotEnumerate e])
        | .ok names =>
          let (records, errors) ← reportEntries (sortedBy id names)
          return (sortedBy Record.id records, errors))
      (fun found _ => s.settled.Shows found.1 found.2 ∧
        (F ∨ s.settled.Reports (.ok found))) (fun _ _ => False) s := by
  have hrest : Clear s.settled s := ⟨hclear, rfl⟩
  refine Leads.bind listNames_leads (fun _ _ _ h => h) fun names t ht hnames => ?_
  subst ht
  obtain ⟨listed, rfl, hlisted⟩ | ⟨hf, e, rfl⟩ := hnames
  · have hsome : ∀ name ∈ sortedBy id listed, (s.entry name).isSome := by
      intro name hmem
      rw [(sortedBy_perm _ _).mem_iff] at hmem
      exact (hlisted.2 name).mp hmem
    refine Leads.bind (reportEntries_leads hclear hsome) (fun _ _ _ h => h) fun found t ht hfound => ?_
    obtain ⟨reports, hreports, rfl⟩ := hfound
    refine Leads.pure ht ⟨listed_shows hrest hlisted hreports, ?_⟩
    by_cases hf : F
    · exact .inl hf
    · exact .inr (listed_reports hrest hlisted hf hreports)
  · exact Leads.pure rfl ⟨shows_failed _ nofun, .inl hf⟩

/-- An enumeration changes nothing that is settled, and tells of what is. -/
theorem listReport_leads (hsettled : ∀ t, t.settled = s.settled → R t) :
    Leads realmStorage F R listReport
      (fun found t => t.settled = s.settled ∧ s.settled.Shows found.1 found.2 ∧
        (F ∨ t.view = s.settled.view ∧ s.settled.Reports (.ok found)))
      (fun e t => Stopped s.settled t ∧ s.settled.Reports (.error e)) s := by
  have hsame : Seen fun t => t.settled = s.settled := by
    intro t u hjournal hview ht
    unfold Realm.settled at ht ⊢
    rw [← hjournal, ← hview]
    exact ht
  have hblocked : ∀ e, s.settled.blocked = some e → s.settled.Reports
      (if e.isCyclo then .ok ([], [e]) else .error e) := by
    intro e he
    unfold Settled.Reports
    rw [he]
  have hall : Leads realmStorage F (fun t => t.settled = s.settled) listReport
      (fun found t => s.settled.Shows found.1 found.2 ∧
        (F ∨ t.view = s.settled.view ∧ s.settled.Reports (.ok found)))
      (fun e t => Stopped s.settled t ∧ s.settled.Reports (.error e)) s := by
    refine Leads.rescue (Y := fun e t => t.view = s.settled.view ∧ s.settled.blocked = some e)
      (Leads.bind (recoverPendingBatchLocked_leads hsame fun _ h => h) (fun e t _ hX => hX.2)
        fun _ t ht hP => ?_) fun e t ht he => ?_
    · have hclear : Clear s.settled t := hP
      have hlisted := listReportLocked_leads (F := F) hclear.1
      rw [hclear.2] at hlisted
      refine hlisted.weaken (fun u hu => hu ▸ hclear.2) (fun found u hu hfound => ?_)
        fun _ _ _ h => h.elim
      subst hu
      exact ⟨hfound.1, hfound.2.imp_right fun hreports => ⟨hclear.view, hreports⟩⟩
    · cases hcyclo : e.isCyclo with
      | true =>
        refine Leads.pure ht ⟨shows_failed _ nofun, he.imp And.left fun hX => ⟨hX.1, ?_⟩⟩
        have hreports := hblocked e hX.2
        rw [hcyclo, if_pos rfl] at hreports
        exact hreports
      | false =>
        refine ⟨ht, he.imp_right fun hX => ⟨⟨ht, hX.1⟩, ?_⟩⟩
        have hreports := hblocked e hX.2
        rw [hcyclo, if_neg Bool.false_ne_true] at hreports
        exact hreports
  exact hall.weaken hsettled (fun found t ht hP => ⟨ht, hP⟩) fun _ _ _ hX => hX

/-- What a returned result tells, also where an operation failed on the way. -/
def Settled.Tells (w : Settled) (host : Host) : Operation → Result → Prop
  | .listReport, .report records errors => w.Shows records errors
  | .list, .records records => w.Shows records []
  | operation, result => w.Answers host operation (.ok result)

theorem settled_seen {w v : Settled} : Seen fun t => t.settled = w ∨ t.settled = v := by
  intro t u hjournal hview ht
  unfold Realm.settled at ht ⊢
  rw [← hjournal, ← hview]
  exact ht

/-- Every operation leaves the settled state as it was or as it should be, wherever it stops; what
it returns and raises is what the settled state says. -/
theorem operation_leads (host : Host) (operation : Operation) (s : Realm) :
    Leads realmStorage F
      (fun t => t.settled = s.settled ∨ t.settled = s.settled.after host operation)
      (operation.call host)
      (fun r t => t.settled = s.settled.after host operation ∧ s.settled.Tells host operation r ∧
        (F ∨ t.view = (s.settled.after host operation).view ∧
          s.settled.Answers host operation (.ok r)))
      (fun e t => Stopped (s.settled.after host operation) t ∧
        s.settled.Answers host operation (.error e)) s := by
  cases operation with
  | load identifier =>
    refine Leads.bind (load_leads identifier settled_seen fun _ h => .inl h)
      (fun e t _ hX => ?_) fun record t ht hP => ?_
    · refine ⟨hX.1, ?_⟩
      rw [Settled.Answers, hX.2]
      rfl
    · have hanswer : s.settled.Answers host (.load identifier) (.ok (.record record)) := by
        rw [Settled.Answers, hP.2]
        rfl
      exact Leads.pure ht ⟨hP.1.2, hanswer, .inr ⟨hP.1.view, hanswer⟩⟩
  | listReport =>
    refine Leads.bind (listReport_leads fun _ h => .inl h)
      (fun e t _ hX => ⟨hX.1, .error e, hX.2, rfl⟩) fun found t ht hP => ?_
    exact Leads.pure ht ⟨hP.1, hP.2.1, hP.2.2.imp_right fun h => ⟨h.1, .ok found, h.2, rfl⟩⟩
  | list =>
    have hlist : Leads realmStorage F
        (fun t => t.settled = s.settled ∨ t.settled = s.settled) list
        (fun records t => t.settled = s.settled ∧ s.settled.Shows records [] ∧
          (F ∨ t.view = s.settled.view ∧ s.settled.Reports (.ok (records, []))))
        (fun e t => Stopped s.settled t ∧ s.settled.Answers host .list (.error e)) s := by
      refine Leads.bind (listReport_leads fun _ h => .inl h)
        (fun e t _ hX => ⟨hX.1, .error e, hX.2, rfl⟩) fun found t ht hP => ?_
      obtain ⟨records, errors⟩ := found
      obtain ⟨hsame, hshows, hexact⟩ := hP
      change Leads realmStorage F _
        (if errors.isEmpty then Pure.pure records else throw (.enumeration errors)) _ _ t
      cases errors with
      | nil => exact Leads.pure ht ⟨hsame, hshows, hexact⟩
      | cons error errors =>
        refine ⟨ht, hexact.imp (fun hf => ⟨hf, trivial⟩) fun h =>
          ⟨⟨hsame, h.1⟩, .ok (records, error :: errors), h.2, rfl⟩⟩
    refine Leads.bind hlist (fun _ _ _ hX => hX) fun records t ht hP => ?_
    exact Leads.pure ht ⟨hP.1, hP.2.1,
      hP.2.2.imp_right fun h => ⟨h.1, .ok (records, []), h.2, rfl⟩⟩
  | save i =>
    refine Leads.bind (save_leads host i settled_seen (fun _ h => .inl h) fun _ h => .inr h)
      (fun e t _ hX => ?_) fun _ t ht hP => ?_
    · refine ⟨hX.1, ?_⟩
      rw [Settled.Answers, hX.2]
      rfl
    · have hanswer : s.settled.Answers host (.save i) (.ok .done) := by
        rw [Settled.Answers, hP.2]
        rfl
      exact Leads.pure ht ⟨hP.1.1, hanswer, .inr ⟨hP.1.2, hanswer⟩⟩
  | saveMany instances =>
    refine Leads.bind (saveMany_leads host instances settled_seen (fun _ h => .inl h)
      fun _ h => .inr h) (fun e t _ hX => ?_) fun _ t ht hP => ?_
    · refine ⟨hX.1, ?_⟩
      rw [Settled.Answers, hX.2]
      rfl
    · have hanswer : s.settled.Answers host (.saveMany instances) (.ok .done) := by
        rw [Settled.Answers, hP.2]
        rfl
      exact Leads.pure ht ⟨hP.1.1, hanswer, .inr ⟨hP.1.2, hanswer⟩⟩
  | remove identifier =>
    refine Leads.bind (remove_leads identifier settled_seen (fun _ h => .inl h) fun _ h => .inr h)
      (fun e t _ hX => ?_) fun _ t ht hP => ?_
    · refine ⟨hX.1, ?_⟩
      rw [Settled.Answers, hX.2]
      rfl
    · have hanswer : s.settled.Answers host (.remove identifier) (.ok .done) := by
        rw [Settled.Answers, hP.2]
        rfl
      exact Leads.pure ht ⟨hP.1.1, hanswer, .inr ⟨hP.1.2, hanswer⟩⟩

end Cyclo.StateStore
