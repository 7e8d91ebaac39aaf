import Cyclo.AgentWs.TaskContracts

/-! Any number of task commands on one task, each of which can fail or be killed anywhere: what they
leave in its log, its state and its result. -/
namespace Cyclo.AgentWs.TaskRecords
open Cyclo.Process

variable {F : Prop} {w v : TaskDir} {task : Task}

abbrev Section := Process.Event Request (Except Error Unit)

/-- Commands on one task, each under its control lock, from the files `w` on. -/
def Sessions (faulty : Prop) (task : Task) (w : TaskDir) (history : List Section)
    (c : Locked (StoreOp TaskDir Change Error Question) TaskDir Request (Except Error Unit)) : Prop :=
  LockRuns (storage.kernel faulty) (fun request => (Request.call task request).run) ⟨w, none⟩ history c

theorem requests_sound (task : Task) : (effects task).Sound storage F id (Request.call task) :=
  fun request w => request_does task request w

theorem effects_covered (task : Task) : (effects task).Covered := by
  constructor
  · intro request w r v htakes
    obtain ⟨hready, time, content, hv⟩ := htakes
    rw [hv]
    exact Or.inr ⟨hready, Stage.log content time (List.prefix_refl _)⟩
  · intro request w v hrefuses
    exact Or.inl hrefuses

variable {request : Request} {event : Section} {history : List Section}
  {c : Locked (StoreOp TaskDir Change Error Question) TaskDir Request (Except Error Unit)}

def stateFile (state : String) : Node := .regular (state.toList ++ ['\n'])

def demoTask : Task := ⟨"t1", "/queue/tasks/t1"⟩

/-- An open task without a result. -/
def demoFiles : TaskDir :=
  { spec := some (.regular ['x']), state := some (stateFile "open"), log := some (.regular []) }

def demoAnswer : {β : Type} → Question β → TaskDir → β
  | _, .timestamp, _ => ['1']
  | _, .resultFile, _ => some (.regular ['y'])
  | _, .copied, _ => ['y']

def demoSection : Section := ⟨0, .result "/tmp/y", some (.ok ())⟩

theorem demo_sessions : ∃ t, Sessions False demoTask demoFiles [demoSection] ⟨t, none⟩ := by
  have computed : (Interp.run (storage.eval demoAnswer)
      ((Request.result "/tmp/y").call demoTask).run demoFiles).map
      (fun r => (r.1.bind Except.toOption).isSome) = some true := by decide +kernel
  obtain ⟨⟨out, t⟩, hrun, hend⟩ := Option.map_eq_some_iff.mp computed
  obtain ⟨_, hok⟩ := Option.isSome_iff_exists.mp hend
  obtain ⟨r, hr, hr'⟩ := Option.bind_eq_some_iff.mp hok
  have hsound : Runs (storage.kernel False) 0 ((Request.result "/tmp/y").call demoTask).run
      demoFiles out t :=
    Interp.run_sound (storage.eval_sound fun _ _ => trivial) hrun
  have hsuccess : out = some (.ok ()) := by
    cases r with
    | ok a => exact hr
    | error e => cases hr'
  rw [hsuccess] at hsound
  exact ⟨t, Process.Section.lockRuns hsound⟩

/-- What a section adds to the log: its whole record when the command returns, nothing when it
refuses, and a beginning of its record when it is stopped. -/
def Written (faulty : Prop) (event : Section) (text : Text) : Prop :=
  match event.outcome with
  | some (.ok _) => ∃ time, text = event.call.record time
  | some (.error e) =>
    text = [] ∨ storage.Blames faulty e ∧ ∃ time, text <+: event.call.record time
  | none => ∃ time, text <+: event.call.record time

theorem Request.replace_log (request : Request) (content : Text) (w : TaskDir) :
    (request.replace content w).log = w.log := by
  cases request with
  | comment message => rfl
  | state value message => rfl
  | result file => rfl

/-- A command that gives up changes nothing but the lock file. -/
theorem Refuses.same {α : Type} (f : TaskDir → α) (h : Refuses w v) (hlock : f w.opened = f w) :
    f v = f w := by
  rcases h with hsame | hopened
  · rw [hsame]
  · rw [hopened, hlock]

theorem Stage.written {content : Text} (h : Stage w request v) (hw : w.log = some (.regular content)) :
    ∃ time text, text <+: request.record time ∧ v.log = some (.regular (content ++ text)) := by
  cases h with
  | result =>
    refine ⟨[], [], List.nil_prefix, ?_⟩
    rw [List.append_nil]
    exact hw
  | @log _ copied time text hprefix =>
    have hlog : (request.replace copied w).log = some (.regular content) := by
      rw [Request.replace_log, hw]
    refine ⟨time, text, hprefix, ?_⟩
    rw [TaskDir.logged_of_log hlog]

theorem passes_written {content : Text} (h : (effects task).passes request w v)
    (hw : w.log = some (.regular content)) :
    ∃ time text, text <+: request.record time ∧ v.log = some (.regular (content ++ text)) := by
  rcases h with hrefuses | ⟨_, hstage⟩
  · refine ⟨[], [], List.nil_prefix, ?_⟩
    rw [hrefuses.same TaskDir.log rfl, List.append_nil]
    exact hw
  · exact hstage.written hw

theorem took_written {content : Text} (h : (effects task).Took (storage.Blames F) event w v)
    (hw : w.log = some (.regular content)) :
    ∃ text, Written F event text ∧ v.log = some (.regular (content ++ text)) := by
  obtain ⟨p, request, outcome⟩ := event
  unfold Written
  cases outcome with
  | none =>
    obtain ⟨time, text, hprefix, hv⟩ := passes_written h hw
    exact ⟨text, ⟨time, hprefix⟩, hv⟩
  | some outcome =>
    cases outcome with
    | ok r =>
      obtain ⟨_, time, copied, hv⟩ := h
      have hlog : (request.replace copied w.opened).log = some (.regular content) := by
        rw [Request.replace_log]
        exact hw
      refine ⟨request.record time, ⟨time, rfl⟩, ?_⟩
      rw [hv, TaskDir.logged_of_log hlog]
    | error e =>
      rcases h with hrefuses | ⟨hfaulty, hpasses⟩
      · refine ⟨[], Or.inl rfl, ?_⟩
        rw [hrefuses.same TaskDir.log rfl, List.append_nil]
        exact hw
      · obtain ⟨time, text, hprefix, hv⟩ := passes_written hpasses hw
        exact ⟨text, Or.inr ⟨hfaulty, time, hprefix⟩, hv⟩

theorem serial_written {content : Text} (h : Serial ((effects task).Took (storage.Blames F))
    w history v) (hw : w.log = some (.regular content)) :
    ∃ texts, List.Forall₂ (Written F) history texts ∧
    v.log = some (.regular (content ++ texts.flatten)) := by
  induction h generalizing content with
  | nil =>
    refine ⟨[], .nil, ?_⟩
    rw [List.flatten_nil, List.append_nil]
    exact hw
  | cons hstep _ ih =>
    obtain ⟨text, hwritten, hlog⟩ := took_written hstep hw
    obtain ⟨texts, hall, hlast⟩ := ih hlog
    refine ⟨text :: texts, .cons hwritten hall, ?_⟩
    rw [List.flatten_cons, ← List.append_assoc]
    exact hlast

/-- In every interleaving the log only grows, and by one contiguous text for each section, in the
order in which the sections held the lock: the record of every command that returned is there whole,
of one that refused there is nothing, and of one that was lost a beginning. -/
theorem task_log_appends {content : Text} (h : Sessions F task w history c)
    (hw : w.log = some (.regular content)) : ∃ texts last, List.Forall₂ (Written F) history texts ∧
      c.shared.log = some (.regular (content ++ texts.flatten ++ last)) ∧
      (c.holder = none → last = []) ∧ ∀ p request rest, c.holder = some (p, request, rest) →
      ∃ time, last <+: request.record time := by
  obtain ⟨v, hserial, hprogress⟩ := (requests_sound (F := F) task).serial h
  obtain ⟨texts, hall, hv⟩ := serial_written hserial hw
  unfold Effects.Progress at hprogress
  cases hholder : c.holder with
  | none =>
    rw [hholder] at hprogress
    have hsame : c.shared = v := hprogress
    refine ⟨texts, [], hall, ?_, fun _ => rfl, fun p request rest hcase => by cases hcase⟩
    rw [hsame, List.append_nil]
    exact hv
  | some holder =>
    obtain ⟨p, request, rest⟩ := holder
    rw [hholder] at hprogress
    obtain ⟨time, last, hprefix, hlast⟩ := passes_written (w := v) hprogress hv
    refine ⟨texts, last, hall, hlast, fun hnone => (by cases hnone), fun q other remaining hcase => ?_⟩
    cases hcase
    exact ⟨time, hprefix⟩

theorem demo_appends : ∃ (t : TaskDir) (texts : List Text), List.Forall₂ (Written False)
    [demoSection] texts ∧ t.log = some (.regular (List.flatten texts)) := by
  obtain ⟨t, h⟩ := demo_sessions
  obtain ⟨texts, last, hall, hlog, hnone, _⟩ := task_log_appends h rfl
  rw [hnone rfl, List.nil_append, List.append_nil] at hlog
  exact ⟨t, texts, hall, hlog⟩

theorem mem_cat_of_state (value : TaskState) :
    cat (some (.regular (value.1.toList ++ ['\n']))) ∈ validTaskStates := by
  obtain ⟨state, hstate⟩ := value
  have hcases : state.toList = "open".toList ∨ state.toList = "done".toList := by
    rcases List.mem_cons.mp hstate with hopen | hrest
    · exact Or.inl hopen
    · exact Or.inr (List.mem_singleton.mp hrest)
  dsimp only
  rcases hcases with hopen | hdone
  · rw [hopen]
    decide +kernel
  · rw [hdone]
    decide +kernel

/-- What the log and the result contain does not count. -/
theorem complete_logged (hw : w.Logs) (text : Text) :
    requireTaskRecordLocked task (w.logged text) = .ok () ↔
    requireTaskRecordLocked task w = .ok () := by
  obtain ⟨content, hlog⟩ := hw.exists
  rw [TaskDir.logged_of_log hlog, requireTaskRecordLocked_eq_ok, requireTaskRecordLocked_eq_ok, hlog]
  exact Iff.rfl

theorem complete_withState (value : TaskState) (h : requireTaskRecordLocked task w = .ok ()) :
    requireTaskRecordLocked task (w.withState value.1) = .ok () := by
  obtain ⟨hcreating, hspec, _, hlog, hempty, _⟩ := requireTaskRecordLocked_eq_ok.mp h
  exact requireTaskRecordLocked_eq_ok.mpr ⟨hcreating, hspec, rfl, hlog, hempty, mem_cat_of_state value⟩

def doneState : TaskState := ⟨"done", by decide +kernel⟩

theorem complete_replace (request : Request) (content : Text)
    (h : requireTaskRecordLocked task w = .ok ()) :
    requireTaskRecordLocked task (request.replace content w) = .ok () := by
  cases request with
  | comment message => exact h
  | state value message => exact complete_withState value h
  | result file =>
    have hresult : requireTaskRecordLocked task (w.withResult content) = .ok () := h
    exact complete_withState doneState hresult

theorem Stage.complete (h : Stage w request v) (hw : requireTaskRecordLocked task w = .ok ()) :
    requireTaskRecordLocked task v = .ok () := by
  cases h with
  | result => exact hw
  | @log _ copied time text _ =>
    have hreplaced := complete_replace request copied hw
    have hlogs : (request.replace copied w).Logs :=
      (requireTaskRecordLocked_eq_ok.mp hreplaced).2.2.2.1
    exact (complete_logged hlogs text).mpr hreplaced

theorem Refuses.trans {u : TaskDir} (h : Refuses w v) (hv : Refuses v u) : Refuses w u := by
  have hopened : w.opened.opened = w.opened := rfl
  rcases h with hsame | hw
  · rwa [hsame] at hv
  · rw [hw] at hv
    exact hv.elim Or.inr fun hu => Or.inr (hu.trans hopened)

theorem Refuses.complete (h : Refuses w v) :
    requireTaskRecordLocked task v = requireTaskRecordLocked task w :=
  h.same (requireTaskRecordLocked task) rfl

theorem Refuses.ready (h : Refuses w v) (hv : Ready task v) : Ready task w := by
  have hcomplete : requireTaskRecordLocked task w = .ok () := by
    rw [← h.complete]
    exact hv.complete
  rcases h with hsame | hopened
  · rwa [hsame] at hv
  · refine ⟨fun hother => hv.lock ?_, hcomplete⟩
    rw [hopened]
    unfold TaskDir.opened
    rw [hother]
    rfl

/-- A complete task stays complete in every state that is reached, also where commands are lost in
the middle, and none becomes complete. A task that is incomplete, or that cannot be locked, gets at
most a lock file. -/
theorem task_stays_complete (h : Sessions F task w history c) :
    (requireTaskRecordLocked task c.shared = .ok () ↔ requireTaskRecordLocked task w = .ok ()) ∧
      (¬ Ready task w → Refuses w c.shared) := by
  have hrefused : ¬ Ready task w → Refuses w c.shared := by
    intro hw
    refine (requests_sound (F := F) task).invariant (effects_covered task)
      (J := Refuses w) ?_ h (Or.inl rfl)
    intro request a b hpasses ha
    rcases hpasses with hrefuses | ⟨hready, _⟩
    · exact ha.trans hrefuses
    · exact (hw (ha.ready hready)).elim
  have hkept : requireTaskRecordLocked task w = .ok () →
      requireTaskRecordLocked task c.shared = .ok () := by
    refine (requests_sound (F := F) task).invariant (effects_covered task)
      (J := fun u => requireTaskRecordLocked task u = .ok ()) ?_ h
    intro request a b hpasses ha
    rcases hpasses with hrefuses | ⟨hready, hstage⟩
    · rw [hrefuses.complete]
      exact ha
    · exact hstage.complete hready.complete
  refine ⟨⟨fun hreached => ?_, hkept⟩, hrefused⟩
  by_cases hready : Ready task w
  · exact hready.complete
  · rw [← (hrefused hready).complete]
    exact hreached

theorem demo_stays : ∃ t, requireTaskRecordLocked demoTask t = .ok () := by
  obtain ⟨t, h⟩ := demo_sessions
  have hcomplete : requireTaskRecordLocked demoTask demoFiles = .ok () :=
    requireTaskRecordLocked_eq_ok.mpr ⟨rfl, rfl, rfl, rfl, rfl, by decide +kernel⟩
  exact ⟨t, (task_stays_complete h).1.mpr hcomplete⟩

/-- The command of a section, if it returned. -/
def returned (event : Section) : Option Request :=
  match event.outcome with
  | some (.ok _) => some event.call
  | _ => none

def Request.sets : Request → Option String
  | .comment _ => none
  | .state value _ => some value.1
  | .result _ => some "done"

def Request.isResult : Request → Bool
  | .result _ => true
  | _ => false

theorem Request.replace_state (request : Request) (content : Text) (w : TaskDir) :
    (request.replace content w).state = (request.sets.map stateFile).or w.state := by
  cases request with
  | comment message => rfl
  | state value message => rfl
  | result file => rfl

theorem Request.replace_result (request : Request) (content : Text) (w : TaskDir) :
    (request.replace content w).result = if request.isResult then some (.regular content)
      else w.result := by
  cases request with
  | comment message => rfl
  | state value message => rfl
  | result file => rfl

theorem TaskDir.logged_state (w : TaskDir) (text : Text) : (w.logged text).state = w.state := by
  unfold logged
  split
  · rfl
  · rfl

theorem TaskDir.logged_result (w : TaskDir) (text : Text) : (w.logged text).result = w.result := by
  unfold logged
  split
  · rfl
  · rfl

theorem Takes.state {r : Unit} (h : Takes task request w r v) :
    v.state = (request.sets.map stateFile).or w.state := by
  obtain ⟨_, time, content, hv⟩ := h
  rw [hv, TaskDir.logged_state, Request.replace_state]
  rfl

theorem Takes.result {r : Unit} (h : Takes task request w r v) :
    ∃ content, v.result = if request.isResult then some (.regular content) else w.result := by
  obtain ⟨_, time, content, hv⟩ := h
  refine ⟨content, ?_⟩
  rw [hv, TaskDir.logged_result, Request.replace_result]
  rfl

/-- A section that ends, and meets no fault. -/
theorem took_whole (h : (effects task).Took (storage.Blames False) event w v)
    (hended : event.outcome ≠ none) : (∃ request, returned event = some request ∧
      Takes task request w () v) ∨ returned event = none ∧ Refuses w v := by
  obtain ⟨p, request, outcome⟩ := event
  cases outcome with
  | none => exact (hended rfl).elim
  | some outcome =>
    cases outcome with
    | ok r => exact Or.inl ⟨request, rfl, h⟩
    | error e =>
      rcases h with hrefuses | ⟨hfaulty, _⟩
      · exact Or.inr ⟨rfl, hrefuses⟩
      · exact hfaulty.1.elim

theorem serial_state (h : Serial ((effects task).Took (storage.Blames False)) w history v)
    (hended : ∀ event ∈ history, event.outcome ≠ none) :
    v.state = (((history.filterMap returned).filterMap Request.sets).getLast?.map stateFile).or
      w.state := by
  induction h with
  | nil => rfl
  | @cons a b _ event later hstep _ ih =>
    obtain ⟨hevent, hlater⟩ := List.forall_mem_cons.mp hended
    have hlast := ih hlater
    rcases took_whole hstep hevent with ⟨request, hreturned, htakes⟩ | ⟨hreturned, hrefuses⟩
    · rw [List.filterMap_cons_some hreturned]
      rw [htakes.state] at hlast
      cases hsets : request.sets with
      | none =>
        rw [hsets] at hlast
        rw [List.filterMap_cons_none hsets]
        exact hlast
      | some value =>
        rw [hsets] at hlast
        rw [List.filterMap_cons_some hsets, List.getLast?_cons, hlast]
        cases ((later.filterMap returned).filterMap Request.sets).getLast? with
        | none => rfl
        | some other => rfl
    · rw [List.filterMap_cons_none hreturned, hlast, hrefuses.same TaskDir.state rfl]

theorem serial_result (h : Serial ((effects task).Took (storage.Blames False)) w history v)
    (hended : ∀ event ∈ history, event.outcome ≠ none) :
    if (history.filterMap returned).any Request.isResult then isRegular v.result = true
      else v.result = w.result := by
  induction h with
  | nil => rfl
  | @cons a b c event later hstep _ ih =>
    obtain ⟨hevent, hlater⟩ := List.forall_mem_cons.mp hended
    have hlast := ih hlater
    rcases took_whole hstep hevent with ⟨request, hreturned, htakes⟩ | ⟨hreturned, hrefuses⟩
    · rw [List.filterMap_cons_some hreturned, List.any_cons]
      obtain ⟨content, hresult⟩ := htakes.result
      rw [hresult] at hlast
      cases hrequest : request.isResult with
      | false =>
        rw [hrequest] at hlast
        exact hlast
      | true =>
        rw [hrequest, if_pos rfl] at hlast
        rw [Bool.true_or, if_pos rfl]
        split_ifs at hlast with hsome
        · exact hlast
        · rw [hlast]
          rfl
    · rw [List.filterMap_cons_none hreturned]
      rw [hrefuses.same TaskDir.result rfl] at hlast
      exact hlast

/-- Commands that all return or refuse, and meet no fault: the state is the one that the last of
those that returned has set. -/
theorem task_commands_land (h : Sessions False task w history ⟨v, none⟩)
    (hended : ∀ event ∈ history, event.outcome ≠ none) :
    v.state = (((history.filterMap returned).filterMap Request.sets).getLast?.map stateFile).or
      w.state ∧
      if (history.filterMap returned).any Request.isResult then isRegular v.result = true
        else v.result = w.result := by
  obtain ⟨u, hserial, hlast⟩ := (requests_sound (F := False) task).serial h
  have hsame : v = u := hlast
  rw [hsame]
  exact ⟨serial_state hserial hended, serial_result hserial hended⟩

theorem demo_lands : ∃ t : TaskDir, t.state = some (stateFile "done") ∧ isRegular t.result = true := by
  obtain ⟨t, h⟩ := demo_sessions
  have hended : ∀ event ∈ [demoSection], event.outcome ≠ none := by
    intro event hevent
    rw [List.mem_singleton.mp hevent]
    exact fun hnone => by cases hnone
  exact ⟨t, task_commands_land h hended⟩

end Cyclo.AgentWs.TaskRecords
