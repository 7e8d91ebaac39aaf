import Cyclo.Team.PiSession

/-! Which outcomes a prompt gets from the reader, and that no prompt is left waiting. -/
namespace Cyclo.Team.PiRpc
open Process

variable {Id : Type} [DecidableEq Id] {request : ℕ → Id} {s t : Session Id}
  {past : List (Action Id)}

/-- What a step does. -/
inductive Steps (request : ℕ → Id) (s : Session Id) : Action Id → Session Id → Prop
  | take (line : Line Id) (h : s.reader = .reading) :
    Steps request s (.take line) { s with reader := .taken line }
  | close (h : s.reader = .reading) : Steps request s .close { s with reader := .finishing }
  | breakOff (h : s.reader = .reading) : Steps request s .breakOff { s with reader := .failing }
  | malformed (h : s.reader = .taken .malformed) :
    Steps request s .classify { s with reader := .failing }
  | classify (line : Line Id) (h : s.reader = .taken line) :
    Steps request s .classify { s with reader := .rendering (line.outcome s.activeRequest) }
  | render (accepted : Bool) (outcome : Option Outcome) (reader : Reader Id)
    (h : s.reader = .rendering outcome) (hr : reader = .failing ∨ reader = .reading ∨
      ∃ o, outcome = some o ∧ reader = .completing o .reading) :
    Steps request s (.render accepted) { s with reader := reader }
  | look (outcome : Outcome) (next : Next) (h : s.reader = .completing outcome next) :
    Steps request s .look { s with reader := s.completeActive outcome next }
  | put (c : ℕ) (outcome : Outcome) (next : Next) (h : s.reader = .putting c outcome next) :
    Steps request s (.put c outcome) { s with
      reader := next.reader
      queues := if s.queues c = none then Function.update s.queues c (some outcome)
        else s.queues }
  | fail (h : s.reader = .failing) :
    Steps request s .fail { s with error := true, reader := .completing .failed .reporting }
  | report (h : s.reader = .reporting) : Steps request s .report { s with reader := .finishing }
  | finish (h : s.reader = .finishing) :
    Steps request s .finish { s with eof := true, reader := .completing .exited .ended }
  | acquire (c : ℕ) (h : s.calls c = .idle) (hlock : s.promptLock = none) :
    Steps request s (.acquire c) { s.setCall c .locked with promptLock := some c }
  | refuse (c : ℕ) (outcome : Outcome) (h : s.calls c = .locked) (ho : outcome.ofLine = false) :
    Steps request s (.refuse c) { s.setCall c (.done outcome) with promptLock := none }
  | register (c : ℕ) (h : s.calls c = .locked) (heof : s.eof = false) :
    Steps request s (.register c) { s.setCall c .registered with
      activeRequest := some (request c)
      activeResult := some c
      queues := Function.update s.queues c none }
  | send (c : ℕ) (written : Bool) (h : s.calls c = .registered) :
    Steps request s (.send c written)
      (s.setCall c (if written then .waiting else .leaving .unwritten))
  | receive (c : ℕ) (outcome : Outcome) (h : s.calls c = .waiting)
    (hq : s.queues c = some outcome) :
    Steps request s (.receive c)
      { s.setCall c (.leaving outcome) with queues := Function.update s.queues c none }
  | unregister (c : ℕ) (outcome : Outcome) (h : s.calls c = .leaving outcome) :
    Steps request s (.unregister c) { s.setCall c (.done outcome) with
      activeRequest := if s.activeResult = some c then none else s.activeRequest
      activeResult := if s.activeResult = some c then none else s.activeResult
      promptLock := none }

theorem steps_of_step {a : Action Id} (h : step request s a = some t) : Steps request s a t := by
  cases a with
  | take line =>
    obtain ⟨hr, h⟩ := Option.ite_none_right_eq_some.mp h
    cases h
    exact .take line hr
  | close =>
    obtain ⟨hr, h⟩ := Option.ite_none_right_eq_some.mp h
    cases h
    exact .close hr
  | breakOff =>
    obtain ⟨hr, h⟩ := Option.ite_none_right_eq_some.mp h
    cases h
    exact .breakOff hr
  | classify =>
    unfold step at h
    dsimp only at h
    split at h
    · rename_i hr
      cases h
      exact .malformed hr
    · rename_i line _ hr
      cases h
      exact .classify line hr
    · cases h
  | render accepted =>
    unfold step at h
    dsimp only at h
    split at h
    · rename_i outcome hr
      cases h
      refine .render accepted outcome _ hr ?_
      cases accepted with
      | false => exact .inl rfl
      | true =>
        cases outcome with
        | none => exact .inr (.inl rfl)
        | some o => exact .inr (.inr ⟨o, rfl, rfl⟩)
    · cases h
  | look =>
    unfold step at h
    dsimp only at h
    split at h
    · rename_i outcome next hr
      cases h
      exact .look outcome next hr
    · cases h
  | put c outcome =>
    unfold step at h
    dsimp only at h
    split at h
    · rename_i c' outcome' next hr
      obtain ⟨he, h⟩ := Option.ite_none_right_eq_some.mp h
      obtain ⟨rfl, rfl⟩ := he
      cases h
      exact .put c' outcome' next hr
    · cases h
  | fail =>
    obtain ⟨hr, h⟩ := Option.ite_none_right_eq_some.mp h
    cases h
    exact .fail hr
  | report =>
    obtain ⟨hr, h⟩ := Option.ite_none_right_eq_some.mp h
    cases h
    exact .report hr
  | finish =>
    obtain ⟨hr, h⟩ := Option.ite_none_right_eq_some.mp h
    cases h
    exact .finish hr
  | acquire c =>
    obtain ⟨hc, h⟩ := Option.ite_none_right_eq_some.mp h
    cases h
    exact .acquire c hc.1 hc.2
  | refuse c =>
    obtain ⟨hc, h⟩ := Option.ite_none_right_eq_some.mp h
    cases h
    refine .refuse c _ hc.1 ?_
    split_ifs <;> rfl
  | register c =>
    obtain ⟨hc, h⟩ := Option.ite_none_right_eq_some.mp h
    cases h
    exact .register c hc.1 (Bool.or_eq_false_iff.mp hc.2).2
  | send c written =>
    obtain ⟨hc, h⟩ := Option.ite_none_right_eq_some.mp h
    cases h
    exact .send c written hc
  | receive c =>
    unfold step at h
    dsimp only at h
    split at h
    · rename_i outcome hc hq
      cases h
      exact .receive c outcome hc hq
    · cases h
  | unregister c =>
    unfold step at h
    dsimp only at h
    split at h
    · rename_i outcome hc
      cases h
      exact .unregister c outcome hc
    · cases h

/-- Who holds the prompt lock, and who is registered. -/
structure Locked (request : ℕ → Id) (s : Session Id) : Prop where
  lock : ∀ c, (s.calls c).holdsLock = true ↔ s.promptLock = some c
  active : ∀ c, (s.calls c).isRegistered = true ↔ s.activeResult = some c
  request : s.activeRequest = s.activeResult.map request

omit [DecidableEq Id] in
theorem locked_initial : Locked request (Session.initial : Session Id) := by
  constructor
  · intro c
    simp [Session.initial, Call.holdsLock]
  · intro c
    simp [Session.initial, Call.isRegistered]
  · rfl

/-- A property of calls after one of them has changed. -/
theorem forall_update {p : Call → Bool} {calls : ℕ → Call} {Q Q' : ℕ → Prop} {c : ℕ} {call : Call}
    (h : ∀ d, p (calls d) = true ↔ Q d) (hc : p call = true ↔ Q' c)
    (hother : ∀ d, d ≠ c → (Q d ↔ Q' d)) :
    ∀ d, p (Function.update calls c call d) = true ↔ Q' d := by
  intro d
  by_cases hd : d = c
  · rw [hd, Function.update_self]
    exact hc
  · rw [Function.update_of_ne hd, h d]
    exact hother d hd

theorem Locked.step {a : Action Id} (h : Locked request s) (hs : Steps request s a t) :
    Locked request t := by
  -- a call that holds the lock is alone
  have hlocked : ∀ c, (s.calls c).holdsLock = true → s.promptLock = some c := fun c => (h.lock c).mp
  have hsame : ∀ c, s.promptLock = some c → ∀ d, d ≠ c → s.promptLock ≠ some d := by
    intro c hc d hd he
    rw [hc] at he
    exact hd (Option.some.inj he).symm
  have hactive : ∀ c, s.activeResult = some c → s.promptLock = some c := by
    intro c hc
    have hr := (h.active c).mpr hc
    apply hlocked
    cases hcall : s.calls c <;> rw [hcall] at hr <;> first | rfl | cases hr
  have hnotActive : ∀ c, s.promptLock = some c → ∀ d, d ≠ c → s.activeResult ≠ some d := by
    intro c hc d hd he
    exact hsame c hc d hd (hactive d he)
  cases hs with
  | take line _ => exact ⟨h.lock, h.active, h.request⟩
  | close _ => exact ⟨h.lock, h.active, h.request⟩
  | breakOff _ => exact ⟨h.lock, h.active, h.request⟩
  | malformed _ => exact ⟨h.lock, h.active, h.request⟩
  | classify line _ => exact ⟨h.lock, h.active, h.request⟩
  | render accepted outcome reader _ _ => exact ⟨h.lock, h.active, h.request⟩
  | look outcome next _ => exact ⟨h.lock, h.active, h.request⟩
  | put c outcome next _ => exact ⟨h.lock, h.active, h.request⟩
  | fail _ => exact ⟨h.lock, h.active, h.request⟩
  | report _ => exact ⟨h.lock, h.active, h.request⟩
  | finish _ => exact ⟨h.lock, h.active, h.request⟩
  | acquire c hc hlock =>
    have hnone : s.activeResult ≠ some c := by
      intro he
      rw [hactive c he] at hlock
      cases hlock
    constructor
    case lock =>
      refine forall_update h.lock (iff_of_true rfl rfl) ?_
      intro d hd
      rw [hlock]
      exact iff_of_false nofun fun he => hd (Option.some.inj he).symm
    case active => exact forall_update h.active (iff_of_false nofun hnone) fun _ _ => Iff.rfl
    case request => exact h.request
  | refuse c outcome hc _ =>
    have hlock := hlocked c (by rw [hc]; rfl)
    have hnone : s.activeResult ≠ some c := by
      intro he
      have hr := (h.active c).mpr he
      rw [hc] at hr
      cases hr
    constructor
    case lock =>
      refine forall_update h.lock (iff_of_false nofun nofun) ?_
      intro d hd
      exact iff_of_false (hsame c hlock d hd) nofun
    case active => exact forall_update h.active (iff_of_false nofun hnone) fun _ _ => Iff.rfl
    case request => exact h.request
  | register c hc _ =>
    have hlock := hlocked c (by rw [hc]; rfl)
    constructor
    case lock => exact forall_update h.lock (iff_of_true rfl hlock) fun _ _ => Iff.rfl
    case active =>
      refine forall_update h.active (iff_of_true rfl rfl) ?_
      intro d hd
      exact iff_of_false (hnotActive c hlock d hd) fun he => hd (Option.some.inj he).symm
    case request => rfl
  | send c written hc =>
    have hlock := hlocked c (by rw [hc]; rfl)
    have hactive := (h.active c).mp (by rw [hc]; rfl)
    constructor
    case lock =>
      refine forall_update h.lock (iff_of_true ?_ hlock) fun _ _ => Iff.rfl
      cases written <;> rfl
    case active =>
      refine forall_update h.active (iff_of_true ?_ hactive) fun _ _ => Iff.rfl
      cases written <;> rfl
    case request => exact h.request
  | receive c outcome hc _ =>
    have hlock := hlocked c (by rw [hc]; rfl)
    have hactive := (h.active c).mp (by rw [hc]; rfl)
    constructor
    case lock => exact forall_update h.lock (iff_of_true rfl hlock) fun _ _ => Iff.rfl
    case active => exact forall_update h.active (iff_of_true rfl hactive) fun _ _ => Iff.rfl
    case request => exact h.request
  | unregister c outcome hc =>
    have hlock := hlocked c (by rw [hc]; rfl)
    have hactive := (h.active c).mp (by rw [hc]; rfl)
    constructor
    case lock =>
      refine forall_update h.lock (iff_of_false nofun nofun) ?_
      intro d hd
      exact iff_of_false (hsame c hlock d hd) nofun
    case active =>
      have hnone : ∀ d, (if s.activeResult = some c then none else s.activeResult) ≠ some d := by
        intro d
        rw [if_pos hactive]
        nofun
      refine forall_update h.active (iff_of_false nofun (hnone c)) ?_
      intro d hd
      exact iff_of_false (hnotActive c hlock d hd) (hnone d)
    case request =>
      dsimp only
      rw [if_pos hactive, if_pos hactive]
      rfl

/-- The reader is behind the end of the stream. -/
def Reader.isClosing : Reader Id → Bool
  | .completing _ .ended => true
  | .putting _ _ .ended => true
  | .ended => true
  | _ => false

/-- Behind the end of the stream no call is left without a result, but the one that the reader is
about to serve. -/
structure Awake (s : Session Id) : Prop where
  eof : s.reader.isClosing = true → s.eof = true
  putting : ∀ c outcome, s.reader = .putting c outcome .ended →
    ∀ d, (s.calls d).awaits = true → d = c ∨ s.queues d ≠ none
  ended : s.reader = .ended → ∀ d, (s.calls d).awaits = true → s.queues d ≠ none

theorem isRegistered_of_awaits {call : Call} (h : call.awaits = true) : call.isRegistered = true := by
  cases call <;> first | rfl | cases h

omit [DecidableEq Id] in
theorem Awake.of_open (h : t.reader.isClosing = false) : Awake t := by
  constructor
  · intro hc
    rw [h] at hc
    cases hc
  · intro c outcome hr
    rw [hr] at h
    cases h
  · intro hr
    rw [hr] at h
    cases h

omit [DecidableEq Id] in
/-- What calls do on their own leaves the results where they are needed. -/
theorem Awake.of_calls (h : Awake s) (hreader : t.reader = s.reader) (heof : t.eof = s.eof)
    (hcalls : ∀ d, (t.calls d).awaits = true →
      (s.calls d).awaits = true ∧ t.queues d = s.queues d) : Awake t := by
  constructor
  · rw [hreader, heof]
    exact h.eof
  · intro c outcome hr d hd
    obtain ⟨hd, hqueue⟩ := hcalls d hd
    rw [hreader] at hr
    rw [hqueue]
    exact h.putting c outcome hr d hd
  · intro hr d hd
    obtain ⟨hd, hqueue⟩ := hcalls d hd
    rw [hreader] at hr
    rw [hqueue]
    exact h.ended hr d hd

/-- A call that takes up no wait changes none. -/
theorem awaits_of_update {calls : ℕ → Call} {c : ℕ} {call : Call} (hc : call.awaits = false) (d : ℕ)
    (hd : (Function.update calls c call d).awaits = true) : d ≠ c ∧ (calls d).awaits = true := by
  by_cases he : d = c
  · rw [he, Function.update_self, hc] at hd
    cases hd
  · rw [Function.update_of_ne he] at hd
    exact ⟨he, hd⟩

theorem Awake.step {a : Action Id} (hlocked : Locked request s) (h : Awake s)
    (hs : Steps request s a t) : Awake t := by
  have hactive : ∀ d, (s.calls d).awaits = true → s.activeResult = some d :=
    fun d hd => (hlocked.active d).mp (isRegistered_of_awaits hd)
  cases hs with
  | take line _ => exact .of_open rfl
  | close _ => exact .of_open rfl
  | breakOff _ => exact .of_open rfl
  | malformed _ => exact .of_open rfl
  | classify line _ => exact .of_open rfl
  | render accepted outcome reader _ hr =>
    rcases hr with rfl | rfl | ⟨o, _, rfl⟩ <;> exact .of_open rfl
  | fail _ => exact .of_open rfl
  | report _ => exact .of_open rfl
  | look outcome next hr =>
    unfold Session.completeActive
    cases next with
    | reading => cases ha : s.activeResult <;> exact .of_open rfl
    | reporting => cases ha : s.activeResult <;> exact .of_open rfl
    | ended =>
      have heof := h.eof (by rw [hr]; rfl)
      cases ha : s.activeResult with
      | none =>
        refine ⟨fun _ => heof, nofun, fun _ d hd => ?_⟩
        have hd := hactive d hd
        rw [ha] at hd
        cases hd
      | some c =>
        refine ⟨fun _ => heof, ?_, nofun⟩
        intro c' outcome' hput d hd
        cases hput
        have hd := hactive d hd
        rw [ha] at hd
        exact .inl (Option.some.inj hd).symm
  | put c outcome next hr =>
    cases next with
    | reading => exact .of_open rfl
    | reporting => exact .of_open rfl
    | ended =>
      have heof := h.eof (by rw [hr]; rfl)
      refine ⟨fun _ => heof, nofun, fun _ d hd => ?_⟩
      have hserved := h.putting c outcome hr d hd
      dsimp only
      split_ifs with hempty
      · by_cases he : d = c
        · rw [he, Function.update_self]
          nofun
        · rw [Function.update_of_ne he]
          exact hserved.resolve_left he
      · rcases hserved with rfl | hserved
        · exact hempty
        · exact hserved
  | finish _ => exact ⟨fun _ => rfl, nofun, nofun⟩
  | acquire c _ _ =>
    refine h.of_calls rfl rfl fun d hd => ?_
    exact ⟨(awaits_of_update rfl d hd).2, rfl⟩
  | refuse c outcome _ _ =>
    refine h.of_calls rfl rfl fun d hd => ?_
    exact ⟨(awaits_of_update rfl d hd).2, rfl⟩
  | register c _ heof =>
    apply Awake.of_open
    by_contra hc
    have hclosing : s.reader.isClosing = true := (Bool.not_eq_false _).mp hc
    have heof' := h.eof hclosing
    rw [heof] at heof'
    cases heof'
  | send c written hc =>
    refine h.of_calls rfl rfl fun d hd => ⟨?_, rfl⟩
    by_cases he : d = c
    · rw [he, hc]
      rfl
    · exact (Function.update_of_ne he _ s.calls ▸ hd : (s.calls d).awaits = true)
  | receive c outcome _ _ =>
    refine h.of_calls rfl rfl fun d hd => ?_
    obtain ⟨he, hd⟩ := awaits_of_update rfl d hd
    exact ⟨hd, Function.update_of_ne he _ _⟩
  | unregister c outcome _ =>
    refine h.of_calls rfl rfl fun d hd => ?_
    exact ⟨(awaits_of_update rfl d hd).2, rfl⟩

/-- The line was taken after the call had registered itself. -/
def TakenSince (past : List (Action Id)) (c : ℕ) (line : Line Id) : Prop :=
  ∃ before after, past = before ++ .register c :: after ∧ .take line ∈ after

/-- And no line has been taken since. -/
def LastSince (past : List (Action Id)) (c : ℕ) (line : Line Id) : Prop :=
  ∃ before between after, past = before ++ .register c :: (between ++ .take line :: after) ∧
    ∀ later, .take later ∉ after

/-- An outcome of a line is that of a line for the call, taken after its registration. -/
def Earned (request : ℕ → Id) (past : List (Action Id)) (c : ℕ) (o : Outcome) : Prop :=
  o.ofLine = true → ∃ line, TakenSince past c line ∧ line.outcome (some (request c)) = some o

def EarnedLast (request : ℕ → Id) (past : List (Action Id)) (c : ℕ) (o : Outcome) : Prop :=
  o.ofLine = true → ∃ line, LastSince past c line ∧ line.outcome (some (request c)) = some o

omit [DecidableEq Id] in
theorem LastSince.takenSince {c : ℕ} {line : Line Id} (h : LastSince past c line) :
    TakenSince past c line := by
  obtain ⟨before, between, after, rfl, -⟩ := h
  exact ⟨before, _, rfl, List.mem_append_right _ List.mem_cons_self⟩

theorem EarnedLast.earned {c : ℕ} {o : Outcome} (h : EarnedLast request past c o) :
    Earned request past c o := by
  intro ho
  obtain ⟨line, hline, hout⟩ := h ho
  exact ⟨line, hline.takenSince, hout⟩

theorem Earned.concat {c : ℕ} {o : Outcome} (h : Earned request past c o) (a : Action Id) :
    Earned request (past ++ [a]) c o := by
  intro ho
  obtain ⟨line, ⟨before, after, rfl, hmem⟩, hout⟩ := h ho
  refine ⟨line, ⟨before, after ++ [a], ?_, List.mem_append_left _ hmem⟩, hout⟩
  rw [List.append_assoc, List.cons_append]

omit [DecidableEq Id] in
theorem LastSince.concat {c : ℕ} {line : Line Id} (h : LastSince past c line) {a : Action Id}
    (ha : ∀ later, a ≠ .take later) : LastSince (past ++ [a]) c line := by
  obtain ⟨before, between, after, rfl, hlast⟩ := h
  refine ⟨before, between, after ++ [a], ?_, ?_⟩
  · simp only [List.append_assoc, List.cons_append]
  · intro later hmem
    rcases List.mem_append.mp hmem with hmem | hmem
    · exact hlast later hmem
    · exact ha later (List.mem_singleton.mp hmem).symm

theorem EarnedLast.concat {c : ℕ} {o : Outcome} (h : EarnedLast request past c o) {a : Action Id}
    (ha : ∀ later, a ≠ .take later) : EarnedLast request (past ++ [a]) c o := by
  intro ho
  obtain ⟨line, hline, hout⟩ := h ho
  exact ⟨line, hline.concat ha, hout⟩

omit [DecidableEq Id] in
theorem lastSince_take {c : ℕ} (h : .register c ∈ past) (line : Line Id) :
    LastSince (past ++ [.take line]) c line := by
  obtain ⟨before, after, rfl⟩ := List.append_of_mem h
  refine ⟨before, after, [], ?_, fun _ => List.not_mem_nil⟩
  rw [List.append_assoc, List.cons_append]

/-- What the reader holds is for the registered call, if there is one. -/
def Held (request : ℕ → Id) (past : List (Action Id)) (active : Option ℕ) : Reader Id → Prop
  | .taken line => ∀ c, active = some c → (line.outcome (some (request c))).isSome = true →
      LastSince past c line
  | .rendering (some o) => ∀ c, active = some c → EarnedLast request past c o
  | .completing o _ => ∀ c, active = some c → EarnedLast request past c o
  | .putting c o _ => EarnedLast request past c o
  | _ => True

theorem Held.concat {active active' : Option ℕ} {reader : Reader Id}
    (h : Held request past active reader) (hactive : ∀ c, active' = some c → active = some c)
    {a : Action Id} (ha : ∀ later, a ≠ .take later) :
    Held request (past ++ [a]) active' reader := by
  cases reader with
  | taken line => exact fun c hc hline => (h c (hactive c hc) hline).concat ha
  | rendering outcome =>
    cases outcome with
    | none => trivial
    | some o => exact fun c hc => (h c (hactive c hc)).concat ha
  | completing o next => exact fun c hc => (h c (hactive c hc)).concat ha
  | putting c o next => exact EarnedLast.concat h ha
  | _ => trivial

theorem held_next (request : ℕ → Id) (past : List (Action Id)) (active : Option ℕ) (next : Next) :
    Held request past active next.reader := by
  cases next <;> trivial

structure Fair (request : ℕ → Id) (past : List (Action Id)) (s : Session Id) : Prop where
  registered : ∀ c, s.activeResult = some c → .register c ∈ past
  reader : Held request past s.activeResult s.reader
  queues : ∀ c o, s.queues c = some o → Earned request past c o
  calls : ∀ c o, s.calls c = .leaving o ∨ s.calls c = .done o → Earned request past c o

/-- A step of the reader, which leaves the calls and the queues alone. -/
theorem Fair.of_reader (h : Fair request past s) {a : Action Id} {reader : Reader Id}
    (hreader : Held request (past ++ [a]) s.activeResult reader) (error eof : Bool) :
    Fair request (past ++ [a]) { s with reader := reader, error := error, eof := eof } := by
  constructor
  · intro c hc
    exact List.mem_append_left _ (h.registered c hc)
  · exact hreader
  · intro c o ho
    exact (h.queues c o ho).concat a
  · intro c o ho
    exact (h.calls c o ho).concat a

/-- The outcomes of calls after one of them has changed. -/
theorem Fair.calls_update (h : Fair request past s) (a : Action Id) {c : ℕ} {call : Call}
    (hcall : ∀ o, call = .leaving o ∨ call = .done o → Earned request (past ++ [a]) c o) (d : ℕ)
    (o : Outcome) (hd : Function.update s.calls c call d = .leaving o ∨
      Function.update s.calls c call d = .done o) : Earned request (past ++ [a]) d o := by
  by_cases he : d = c
  · rw [he, Function.update_self] at hd
    rw [he]
    exact hcall o hd
  · rw [Function.update_of_ne he] at hd
    exact (h.calls d o hd).concat a

theorem Fair.step {a : Action Id} (hlocked : Locked request s) (h : Fair request past s)
    (hallowed : Orderly request s a) (hs : Steps request s a t) : Fair request (past ++ [a]) t := by
  have hheld : ∀ {a : Action Id}, (∀ line, a ≠ .take line) → ∀ {active : Option ℕ},
      (∀ c, active = some c → s.activeResult = some c) →
      Held request (past ++ [a]) active s.reader :=
    fun ha _ hactive => h.reader.concat hactive ha
  cases hs with
  | take line _ =>
    refine h.of_reader ?_ s.error s.eof
    intro c hc _
    exact lastSince_take (h.registered c hc) line
  | close _ =>
    refine h.of_reader ?_ s.error s.eof
    trivial
  | breakOff _ =>
    refine h.of_reader ?_ s.error s.eof
    trivial
  | malformed _ =>
    refine h.of_reader ?_ s.error s.eof
    trivial
  | report _ =>
    refine h.of_reader ?_ s.error s.eof
    trivial
  | fail _ =>
    refine h.of_reader ?_ true s.eof
    intro c _ ho
    cases ho
  | finish _ =>
    refine h.of_reader ?_ s.error true
    intro c _ ho
    cases ho
  | classify line hr =>
    refine h.of_reader ?_ s.error s.eof
    have hline := hheld (a := .classify) nofun fun _ hc => hc
    rw [hr] at hline
    cases ho : line.outcome s.activeRequest with
    | none => trivial
    | some o =>
      intro c hc _
      -- the active request is that of the registered call
      rw [hlocked.request, hc, Option.map_some] at ho
      exact ⟨line, hline c hc (by rw [ho]; rfl), ho⟩
  | render accepted outcome reader hr hreader =>
    refine h.of_reader ?_ s.error s.eof
    rcases hreader with rfl | rfl | ⟨o, rfl, rfl⟩
    · trivial
    · trivial
    · have hrendering := hheld (a := .render accepted) nofun fun _ hc => hc
      rw [hr] at hrendering
      exact hrendering
  | look outcome next hr =>
    refine h.of_reader ?_ s.error s.eof
    have hcompleting := hheld (a := .look) nofun fun _ hc => hc
    rw [hr] at hcompleting
    unfold Session.completeActive
    cases hc : s.activeResult with
    | none => exact held_next _ _ _ next
    | some c => exact hcompleting c hc
  | put c outcome next hr =>
    have hput := hheld (a := .put c outcome) nofun fun _ hc => hc
    rw [hr] at hput
    have hreader := h.of_reader (held_next request (past ++ [.put c outcome]) s.activeResult next)
      s.error s.eof
    refine { hreader with queues := ?_ }
    intro d o ho
    dsimp only at ho
    split_ifs at ho with hempty
    · by_cases he : d = c
      · rw [he, Function.update_self] at ho
        cases ho
        rw [he]
        exact EarnedLast.earned hput
      · rw [Function.update_of_ne he] at ho
        exact hreader.queues d o ho
    · exact hreader.queues d o ho
  | acquire c hc _ =>
    constructor
    case registered => exact fun c hc => List.mem_append_left _ (h.registered c hc)
    case reader => exact hheld (a := .acquire c) nofun fun _ hc => hc
    case queues => exact fun d o ho => (h.queues d o ho).concat _
    case calls => exact h.calls_update _ nofun
  | refuse c outcome hc ho =>
    constructor
    case registered => exact fun c hc => List.mem_append_left _ (h.registered c hc)
    case reader => exact hheld (a := .refuse c) nofun fun _ hc => hc
    case queues => exact fun d o ho => (h.queues d o ho).concat _
    case calls =>
      refine h.calls_update _ ?_
      intro o hcall hline
      have he : outcome = o := by rcases hcall with hcall | hcall <;> cases hcall; rfl
      rw [he, hline] at ho
      cases ho
  | register c hc _ =>
    constructor
    case registered =>
      intro d hd
      cases hd
      exact List.mem_append_right _ (List.mem_singleton.mpr rfl)
    case reader =>
      -- the reader holds no outcome that the new call could get
      have hfree : s.reader.undelivered (request c) = false := hallowed
      have hold := hheld (a := .register c) nofun fun _ hc => hc
      dsimp only [Session.setCall]
      cases hr : s.reader with
      | taken line =>
        intro d hd hline
        cases hd
        rw [hr] at hfree
        have hnone : (line.outcome (some (request c))).isSome = false := hfree
        exact absurd hline (by rw [hnone]; nofun)
      | rendering outcome =>
        cases outcome with
        | none => trivial
        | some o =>
          intro d hd ho
          rw [hr] at hfree
          exact absurd ho (by rw [show o.ofLine = false from hfree]; nofun)
      | completing o next =>
        intro d hd ho
        rw [hr] at hfree
        exact absurd ho (by rw [show o.ofLine = false from hfree]; nofun)
      | putting d o next =>
        rw [hr] at hold
        exact hold
      | _ => trivial
    case queues =>
      intro d o ho
      dsimp only at ho
      by_cases he : d = c
      · rw [he, Function.update_self] at ho
        cases ho
      · rw [Function.update_of_ne he] at ho
        exact (h.queues d o ho).concat _
    case calls => exact h.calls_update _ nofun
  | send c written hc =>
    constructor
    case registered => exact fun c hc => List.mem_append_left _ (h.registered c hc)
    case reader => exact hheld (a := .send c written) nofun fun _ hc => hc
    case queues => exact fun d o ho => (h.queues d o ho).concat _
    case calls =>
      refine h.calls_update _ ?_
      intro o hcall hline
      cases written with
      | true => rcases hcall with hcall | hcall <;> cases hcall
      | false =>
        rcases hcall with hcall | hcall
        · cases hcall
          cases hline
        · cases hcall
  | receive c outcome hc hq =>
    constructor
    case registered => exact fun c hc => List.mem_append_left _ (h.registered c hc)
    case reader => exact hheld (a := .receive c) nofun fun _ hc => hc
    case queues =>
      intro d o ho
      dsimp only at ho
      by_cases he : d = c
      · rw [he, Function.update_self] at ho
        cases ho
      · rw [Function.update_of_ne he] at ho
        exact (h.queues d o ho).concat _
    case calls =>
      refine h.calls_update _ ?_
      intro o hcall
      have he : outcome = o := by rcases hcall with hcall | hcall <;> cases hcall; rfl
      rw [← he]
      exact (h.queues c outcome hq).concat _
  | unregister c outcome hc =>
    have hactive : ∀ d, (if s.activeResult = some c then none else s.activeResult) = some d →
        s.activeResult = some d := by
      intro d hd
      split_ifs at hd
      exact hd
    constructor
    case registered => exact fun d hd => List.mem_append_left _ (h.registered d (hactive d hd))
    case reader => exact hheld (a := .unregister c) nofun hactive
    case queues => exact fun d o ho => (h.queues d o ho).concat _
    case calls =>
      refine h.calls_update _ ?_
      intro o hcall
      have he : outcome = o := by rcases hcall with hcall | hcall <;> cases hcall; rfl
      rw [← he]
      exact (h.calls c outcome (.inl hc)).concat _

theorem fair_initial : Fair request [] (Session.initial : Session Id) := by
  constructor
  · nofun
  · trivial
  · nofun
  · intro c o ho
    rcases ho with ho | ho <;> cases ho

/-- What holds of every run. -/
theorem invariant_of_run {actions : List (Action Id)}
    (hrun : run (step request) Session.initial actions = some s) : Locked request s ∧ Awake s := by
  refine run_invariant (I := fun s => Locked request s ∧ Awake s) ?_
    ⟨locked_initial, .of_open rfl⟩ hrun
  intro s a t h hstep
  have hs := steps_of_step hstep
  exact ⟨h.1.step hs, h.2.step h.1 hs⟩

/-- What else holds where calls register orderly. -/
theorem fair_of_orderly {actions : List (Action Id)}
    (hrun : run (step request) Session.initial actions = some s)
    (horderly : Throughout (step request) (Orderly request) Session.initial actions) :
    Fair request actions s := by
  have hinv : Locked request s ∧ Fair request ([] ++ actions) s := by
    refine run_history_invariant (I := fun past s => Locked request s ∧ Fair request past s) ?_
      ⟨locked_initial, fair_initial⟩ horderly hrun
    intro past s a t h hallowed hstep
    have hs := steps_of_step hstep
    exact ⟨h.1.step hs, h.2.step h.1 hallowed hs⟩
  rw [List.nil_append] at hinv
  exact hinv.2

theorem eq_settled_of_outcome {line : Line Id} {active : Option Id}
    (h : line.outcome active = some .settled) : line = .settled := by
  cases line with
  | settled => rfl
  | response id rejects error =>
    unfold Line.outcome at h
    dsimp only at h
    split_ifs at h
    cases h
  | malformed => cases h
  | other => cases h

theorem eq_response_of_outcome {line : Line Id} {active : Option Id} {message : String}
    (h : line.outcome active = some (.rejected message)) :
    ∃ error, line = .response active true error := by
  cases line with
  | response id rejects error =>
    unfold Line.outcome at h
    dsimp only at h
    split_ifs at h with hid
    rw [Bool.and_eq_true, decide_eq_true_eq] at hid
    exact ⟨error, by rw [hid.1, hid.2]⟩
  | settled => cases h
  | malformed => cases h
  | other => cases h

/-- No call waits for a reader that has ended. As long as no call registers while the reader
holds an outcome, calls end by lines that were taken for them, and outcomes go to the call whose
they are. -/
theorem orderly_run_settles {actions : List (Action Id)}
    (hrun : run (step request) Session.initial actions = some s) :
    (s.reader = .ended → ∀ c, (s.calls c).awaits = true → s.queues c ≠ none) ∧
    (Throughout (step request) (Orderly request) Session.initial actions →
      (∀ c, s.calls c = .done .settled → TakenSince actions c .settled) ∧
      (∀ c message, s.calls c = .done (.rejected message) →
        ∃ error, TakenSince actions c (.response (some (request c)) true error)) ∧
      (∀ before c o after, actions = before ++ .put c o :: after → o.ofLine = true →
        ∃ line, LastSince before c line ∧ line.outcome (some (request c)) = some o)) := by
  refine ⟨(invariant_of_run hrun).2.ended, fun horderly => ?_⟩
  have hfair := fair_of_orderly hrun horderly
  refine ⟨?_, ?_, ?_⟩
  · intro c hc
    obtain ⟨line, hline, ho⟩ := hfair.calls c _ (.inr hc) rfl
    rw [eq_settled_of_outcome ho] at hline
    exact hline
  · intro c message hc
    obtain ⟨line, hline, ho⟩ := hfair.calls c _ (.inr hc) rfl
    obtain ⟨error, rfl⟩ := eq_response_of_outcome ho
    exact ⟨error, hline⟩
  · intro before c o after hactions ho
    subst hactions
    rw [run_append] at hrun
    obtain ⟨u, hu, hrest⟩ := Option.bind_eq_some_iff.mp hrun
    obtain ⟨v, hv, -⟩ := Option.bind_eq_some_iff.mp hrest
    cases steps_of_step hv with
    | put c o next hr =>
      have hheld := (fair_of_orderly hu (throughout_of_append horderly)).reader
      rw [hr] at hheld
      exact hheld ho

/-- Two prompts, one settled and one rejected. -/
def twoPrompts : List (Action ℕ) :=
  [.acquire 0, .register 0, .send 0 true, .take .settled, .classify, .render true, .look,
    .put 0 .settled, .receive 0, .unregister 0, .acquire 1, .register 1, .send 1 true,
    .take (.response (some 1) true (some "busy")), .classify, .render true, .look,
    .put 1 (.rejected "busy"), .receive 1, .unregister 1]

theorem twoPrompts_settles : ∃ s, run (step id) Session.initial twoPrompts = some s ∧
    s.calls 0 = .done .settled ∧ TakenSince twoPrompts 0 .settled ∧
    s.calls 1 = .done (.rejected "busy") ∧
    ∃ error, TakenSince twoPrompts 1 (.response (some 1) true error) := by
  have hcalls : (run (step id) Session.initial twoPrompts).map (fun s => (s.calls 0, s.calls 1)) =
      some (.done .settled, .done (.rejected "busy")) := by decide +kernel
  obtain ⟨s, hrun, hcalls⟩ := Option.map_eq_some_iff.mp hcalls
  obtain ⟨hzero, hone⟩ := Prod.mk.inj hcalls
  have horderly : Throughout (step id) (Orderly id) Session.initial twoPrompts := by
    decide +kernel
  have h := (orderly_run_settles hrun).2 horderly
  exact ⟨s, hrun, hzero, h.1 0 hzero, hone, h.2.1 1 "busy" hone⟩

/-- A prompt that registers while the reader renders the settlement of none. -/
def latePrompt : List (Action ℕ) :=
  [.take .settled, .classify, .acquire 0, .register 0, .send 0 true, .render true, .look,
    .put 0 .settled, .receive 0, .unregister 0]

theorem latePrompt_settles_early : ∃ s, run (step id) Session.initial latePrompt = some s ∧
    s.calls 0 = .done .settled ∧ ¬ TakenSince latePrompt 0 .settled := by
  have hcalls : (run (step id) Session.initial latePrompt).map (fun s => s.calls 0) =
      some (.done .settled) := by decide +kernel
  obtain ⟨s, hrun, hcall⟩ := Option.map_eq_some_iff.mp hcalls
  refine ⟨s, hrun, hcall, ?_⟩
  intro hsince
  obtain ⟨before, after, hactions, hmem⟩ := hsince
  -- the only line is taken at the very start
  have hnone : .take .settled ∉ latePrompt.tail := by decide
  apply hnone
  cases before with
  | nil => cases hactions
  | cons a before =>
    rw [hactions, List.cons_append, List.tail_cons]
    exact List.mem_append_right _ (List.mem_cons_of_mem _ hmem)

end Cyclo.Team.PiRpc
