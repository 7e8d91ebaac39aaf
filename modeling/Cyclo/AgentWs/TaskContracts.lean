import Cyclo.AgentWs.TaskRecords
import Cyclo.Process.Observed
import Cyclo.Results

/-! What each of the task commands does to its task when it returns, when it gives up, and wherever
it is stopped. -/
namespace Cyclo.AgentWs.TaskRecords
open Cyclo.Process

variable {F : Prop} {I X : TaskDir → Prop} {w v : TaskDir} {task : Task}

namespace TaskDir

/-- With its lock file, which tasks of older versions lack. -/
def opened (w : TaskDir) : TaskDir := { w with controlLock := some (w.controlLock.getD (.regular [])) }

def logged (w : TaskDir) (text : Text) : TaskDir :=
  match w.log with
  | some (.regular content) => { w with log := some (.regular (content ++ text)) }
  | _ => w

def withState (w : TaskDir) (state : String) : TaskDir :=
  { w with state := some (.regular (state.toList ++ ['\n'])) }

def withResult (w : TaskDir) (content : Text) : TaskDir := { w with result := some (.regular content) }

/-- The log is a regular file. -/
def Logs (w : TaskDir) : Prop := isRegular w.log = true

theorem Logs.exists (h : w.Logs) : ∃ content, w.log = some (.regular content) := by
  unfold Logs isRegular at h
  cases hlog : w.log with
  | none =>
    rw [hlog] at h
    cases h
  | some node =>
    rw [hlog] at h
    cases node with
    | regular content => exact ⟨content, rfl⟩
    | other => cases h

theorem logged_of_log {content : Text} (h : w.log = some (.regular content)) (text : Text) :
    w.logged text = { w with log := some (.regular (content ++ text)) } := by
  unfold logged
  rw [h]

theorem logged_nil (w : TaskDir) : w.logged [] = w := by
  unfold logged
  split
  · rename_i content hlog
    rw [List.append_nil, ← hlog]
  · rfl

theorem logged_append (h : w.Logs) (text more : Text) :
    (w.logged text).logged more = w.logged (text ++ more) := by
  obtain ⟨content, hlog⟩ := h.exists
  have hmore : ∀ u : TaskDir, u.log = some (.regular (content ++ text)) →
      u.logged more = { u with log := some (.regular (content ++ text ++ more)) } :=
        fun u hu => logged_of_log hu more
  rw [logged_of_log hlog, logged_of_log hlog, hmore _ rfl, List.append_assoc]

theorem Logs.logged (h : w.Logs) (text : Text) : (w.logged text).Logs := by
  obtain ⟨content, hlog⟩ := h.exists
  rw [logged_of_log hlog]
  rfl

end TaskDir

/-- The files that a command replaces before it writes to the log. -/
def Request.replace (request : Request) (content : Text) (w : TaskDir) : TaskDir :=
  match request with
  | .comment _ => w
  | .state value _ => w.withState value.1
  | .result _ => (w.withResult content).withState "done"

def Request.record (request : Request) (time : Text) : Text :=
  TaskRecords.record time request.summary request.detail

/-- The lock can be taken, and the task is complete. -/
structure Ready (task : Task) (w : TaskDir) : Prop where
  lock : w.controlLock ≠ some .other
  complete : requireTaskRecordLocked task w = .ok ()

/-- A command that returns has replaced its files and added one record. -/
def Takes (task : Task) (request : Request) (w : TaskDir) (_ : Unit) (v : TaskDir) : Prop :=
  Ready task w ∧ ∃ time content, v = (request.replace content w.opened).logged (request.record time)

/-- A command that gives up has done nothing. -/
def Refuses (w v : TaskDir) : Prop := v = w ∨ v = w.opened

/-- How far a command has come that is stopped: to the result, or into its record. -/
inductive Stage (w : TaskDir) : Request → TaskDir → Prop where
  | result {file : String} {content : Text} : Stage w (.result file) (w.withResult content)
  | log {request : Request} (content time : Text) {text : Text} :
    text <+: request.record time → Stage w request ((request.replace content w).logged text)

def effects (task : Task) : Effects Request Unit TaskDir where
  takes := Takes task
  fails _ := Refuses
  passes request w v := Refuses w v ∨ Ready task w ∧ Stage w.opened request v

abbrev Does (F : Prop) (I : TaskDir → Prop) {α : Type} (x : Call α) (P : α → TaskDir → Prop)
    (X : TaskDir → Prop) (w : TaskDir) : Prop := Observed storage F id I x P X w

theorem readTask_does {α : Type} {P : α → TaskDir → Prop} {f : TaskDir → Call α} (hI : I w)
    (h : Does F I (f w) P X w) : Does F I (readTask >>= f) P X w :=
  Observed.get id (fun _ => rfl) hI h

theorem ask_does {α β : Type} {P : α → TaskDir → Prop} {question : Question β} [Nonempty β]
    {f : β → Call α} (hI : I w) (h : ∀ answer, Does F I (f answer) P X w) :
    Does F I (ask question >>= f) P X w :=
  Observed.ask hI (fun _ => ⟨Classical.arbitrary β, trivial⟩) h

theorem change_does {c : Change} {P : Unit → TaskDir → Prop} (hI : I w)
    (happly : c.apply w = some v) (hv : I v) (hP : P () v) : Does F I (change c) P X w := by
  refine Observed.change hI fun s hs => ?_
  have hsame : s = w := hs
  rw [hsame]
  exact ⟨v, happly, hv, hP⟩

/-- A log grows by the prefixes of what is written. -/
theorem append_does {text : Text} (hw : w.Logs)
    (hI : ∀ written, written <+: text → I (w.logged written)) :
    Does F I (append text) (fun _ v => v = w.logged text) X w := by
  induction text generalizing w with
  | nil =>
    have hnil := hI [] (List.prefix_refl _)
    rw [TaskDir.logged_nil] at hnil
    exact Observed.pure hnil (TaskDir.logged_nil w).symm
  | cons c text ih =>
    have hnil := hI [] (List.nil_prefix)
    rw [TaskDir.logged_nil] at hnil
    have hfirst : [c] <+: c :: text := List.cons_prefix_cons.mpr ⟨rfl, List.nil_prefix⟩
    obtain ⟨content, hlog⟩ := hw.exists
    have happly : Change.apply w (.appendLog c) = some (w.logged [c]) := by
      rw [TaskDir.logged_of_log hlog, Change.apply, hlog]
    refine Observed.bind (M := fun _ v => v = w.logged [c])
      (change_does hnil happly (hI _ hfirst) rfl) fun _ v _ hv => ?_
    rw [hv]
    refine (ih (hw.logged [c]) fun written hwritten => ?_).weaken fun _ u _ hu => ?_
    · rw [TaskDir.logged_append hw]
      exact hI _ (List.cons_prefix_cons.mpr ⟨rfl, hwritten⟩)
    · rw [hu, TaskDir.logged_append hw]
      rfl

theorem appendTaskLog_does {summary detail : String} (hw : w.Logs)
    (hI : ∀ time written, written <+: record time summary detail → I (w.logged written)) :
    Does F I (appendTaskLog task summary detail)
      (fun _ v => ∃ time, v = w.logged (record time summary detail)) X w := by
  have hnil := hI [] [] List.nil_prefix
  rw [TaskDir.logged_nil] at hnil
  have hregular : requireRegular w.log s!"task '{task.id}' has an invalid log.md" = .ok () := if_pos hw
  unfold appendTaskLog
  refine readTask_does hnil ?_
  rw [hregular]
  refine Observed.ofExcept hnil (fun e he => by cases he) fun _ _ => ?_
  refine ask_does hnil fun time => ?_
  exact (append_does hw (hI time)).weaken fun _ v _ hv => ⟨time, hv⟩

theorem writeState_does {state : String} (hI : I w) (hstate : I (w.withState state)) :
    Does F I (writeState state) (fun _ v => v = w.withState state) X w := by
  unfold writeState
  refine Observed.bind (M := fun _ v => v = w) (change_does hI rfl hI rfl) fun _ v _ hv => ?_
  rw [hv]
  exact change_does hI rfl hstate rfl

theorem copyResult_does {file : String} (hI : I w) (hX : X w)
    (hresult : ∀ content, I (w.withResult content)) :
    Does F I (copyResult task file) (fun _ v => ∃ content, v = w.withResult content) X w := by
  unfold copyResult
  refine ask_does hI fun source => ?_
  refine Observed.ofExcept hI (fun _ _ => hX) fun _ _ => ?_
  refine readTask_does hI (Observed.ofExcept hI (fun _ _ => hX) fun _ _ => ?_)
  refine Observed.bind (M := fun _ v => v = w) (change_does hI rfl hI rfl) fun _ v _ hv => ?_
  rw [hv]
  refine ask_does hI fun content => ?_
  refine Observed.bind (M := fun _ v => v = w) (change_does hI rfl hI rfl) fun _ v _ hv => ?_
  rw [hv]
  exact change_does hI rfl (hresult content) ⟨content, rfl⟩

/-- The lock file can be opened unless something else stands there, and is then a regular file. -/
theorem opened_of_lock (hlock : w.controlLock ≠ some .other) :
    Change.apply w .openLock = some w.opened ∧ isRegular w.opened.controlLock = true := by
  unfold Change.apply TaskDir.opened
  cases hnode : w.controlLock with
  | none => exact ⟨rfl, rfl⟩
  | some node =>
    cases node with
    | regular content =>
      refine ⟨?_, rfl⟩
      dsimp only
      rw [Option.getD_some, ← hnode]
    | other => exact (hlock hnode).elim

theorem acquireTaskControlLock_does (hw : I w) (hopened : I w.opened) (hX : X w) :
    Does F I (acquireTaskControlLock task) (fun _ v => v = w.opened ∧ w.controlLock ≠ some .other)
      X w := by
  unfold acquireTaskControlLock
  refine readTask_does hw (Observed.ofExcept hw (fun _ _ => hX) fun _ hregular => ?_)
  have hlock : w.controlLock ≠ some .other := by
    intro hother
    rw [hother] at hregular
    cases hregular
  obtain ⟨happly, hnode⟩ := opened_of_lock hlock
  refine Observed.bind (M := fun _ v => v = w.opened) (change_does hw happly hopened rfl)
    fun _ v hv hsame => ?_
  rw [hsame] at hv ⊢
  refine readTask_does hv ?_
  have hafter : requireRegular w.opened.controlLock
      s!"task control lock changed while it was being acquired: {task.directory}/.control.lock" =
        .ok () := if_pos hnode
  intro s hs
  have hsw : s = w.opened := hs
  rw [hafter, hsw]
  exact Leads.ofExcept hv (fun _ _ => ⟨rfl, hlock⟩) fun e he => by cases he

/-- The body of a command runs where the lock can be taken and the task is complete. -/
theorem lockedTask_does {body : Call Unit} {P : Unit → TaskDir → Prop} (hI : ∀ v, Refuses w v → I v)
    (hX : ∀ v, Refuses w v → X v) (hbody : Ready task w → Does F I body P X w.opened) :
    Does F I (lockedTask task body) P X w := by
  have hw : I w := hI w (Or.inl rfl)
  have hopened : I w.opened := hI w.opened (Or.inr rfl)
  unfold lockedTask
  refine Observed.bind (acquireTaskControlLock_does hw hopened (hX w (Or.inl rfl))) fun _ v _ hv => ?_
  obtain ⟨hsame, hlock⟩ := hv
  rw [hsame]
  refine readTask_does hopened ?_
  refine Observed.ofExcept hopened (fun _ _ => hX w.opened (Or.inr rfl)) fun _ hcomplete => ?_
  exact hbody ⟨hlock, hcomplete⟩

theorem requireRegular_eq_ok {file : Option Node} {message : String} {u : Unit} :
    requireRegular file message = .ok u ↔ isRegular file = true := by
  unfold requireRegular
  split_ifs with h
  · exact iff_of_true rfl h
  · exact iff_of_false (fun hdie => by cases hdie) h

theorem dieIf_eq_ok {refused : Bool} {message : String} {u : Unit} : dieIf refused message = .ok u ↔
    refused = false := by
  unfold dieIf
  cases refused with
  | false => exact iff_of_true rfl rfl
  | true => exact iff_of_false (fun hdie => by cases hdie) Bool.true_eq_false_eq_False

/-- What is asked of a task before a command changes it. -/
theorem requireTaskRecordLocked_eq_ok : requireTaskRecordLocked task w = .ok () ↔ w.creating = none ∧
    isRegular w.spec = true ∧ isRegular w.state = true ∧ isRegular w.log = true ∧
    isEmpty w.spec = false ∧
      cat w.state ∈ validTaskStates := by
  unfold requireTaskRecordLocked
  simp only [bind_eq_ok, dieIf_eq_ok, requireRegular_eq_ok, exists_const, Option.isSome_eq_false_iff,
    Option.isNone_iff_eq_none, decide_eq_false_iff_not, not_not]

theorem Ready.logs (h : Ready task w) : w.opened.Logs :=
  (requireTaskRecordLocked_eq_ok.mp h.complete).2.2.2.1

theorem request_does (task : Task) (request : Request) (w : TaskDir) :
    Does F ((effects task).passes request w) (request.call task)
      (fun r v => Takes task request w r v) (Refuses w) w := by
  have hI : ∀ v, Refuses w v → (effects task).passes request w v := fun v h => Or.inl h
  have hrecord : Ready task w → ∀ content time written, written <+: request.record time →
      (effects task).passes request w ((request.replace content w.opened).logged written) :=
    fun hready content time written h => Or.inr ⟨hready, Stage.log content time h⟩
  have hreplaced : Ready task w → ∀ content, (effects task).passes request w
      (request.replace content w.opened) := by
    intro hready content
    have hnil := hrecord hready content [] [] List.nil_prefix
    rwa [TaskDir.logged_nil] at hnil
  cases request with
  | comment message =>
    refine lockedTask_does hI (fun _ h => h) fun hready => ?_
    refine (appendTaskLog_does hready.logs (hrecord hready [])).weaken fun _ v _ hv => ?_
    obtain ⟨time, hv⟩ := hv
    exact ⟨hready, time, [], hv⟩
  | state value message =>
    refine lockedTask_does hI (fun _ h => h) fun hready => ?_
    refine Observed.bind (writeState_does (hI _ (Or.inr rfl)) (hreplaced hready [])) fun _ v _ hv => ?_
    rw [hv]
    have hlogs : ((Request.state value message).replace [] w.opened).Logs := hready.logs
    refine (appendTaskLog_does hlogs (hrecord hready [])).weaken fun _ v _ hv => ?_
    obtain ⟨time, hv⟩ := hv
    exact ⟨hready, time, [], hv⟩
  | result file =>
    have hw : (effects task).passes (.result file) w w := hI w (Or.inl rfl)
    have hX : Refuses w w := Or.inl rfl
    refine ask_does hw fun source => ?_
    refine Observed.ofExcept hw (fun _ _ => hX) fun _ _ =>
      Observed.ofExcept hw (fun _ _ => hX) fun _ _ => ?_
    refine lockedTask_does hI (fun _ h => h) fun hready => ?_
    have hresult : ∀ content, (effects task).passes (.result file) w (w.opened.withResult content) :=
      fun content => Or.inr ⟨hready, Stage.result⟩
    refine Observed.bind (copyResult_does (hI _ (Or.inr rfl)) (Or.inr rfl) hresult) fun _ v _ hv => ?_
    obtain ⟨content, hv⟩ := hv
    rw [hv]
    refine Observed.bind (writeState_does (hresult content) (hreplaced hready content))
      fun _ v _ hv => ?_
    rw [hv]
    have hlogs : ((Request.result file).replace content w.opened).Logs := hready.logs
    refine (appendTaskLog_does hlogs (hrecord hready content)).weaken fun _ v _ hv => ?_
    obtain ⟨time, hv⟩ := hv
    exact ⟨hready, time, content, hv⟩

end Cyclo.AgentWs.TaskRecords
