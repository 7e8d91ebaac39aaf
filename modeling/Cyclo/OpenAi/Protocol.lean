import Cyclo.OpenAi.Stream

/-! The events of a response as a protocol: each has the next number, and every item is announced, then
grows by its deltas, is closed with all of its text, and is done at most once. -/
namespace Cyclo.OpenAi
open Js

def Body.outputIndex : Body → Option ℕ
  | .itemAdded index _ => some index
  | .progress index _ _ => some index
  | .itemDone index _ => some index
  | _ => none

def Body.isEnded : Body → Bool
  | .ended _ => true
  | _ => false

def Progress.delta : Progress → Str
  | .textDelta delta => delta
  | .summaryDelta delta => delta
  | .argumentsDelta delta => delta
  | _ => []

/-- The whole text that an event gives once nothing is missing. -/
def Progress.final : Progress → Option Str
  | .textDone text => some text
  | .contentPartDone text => some text
  | .summaryDone text => some text
  | .summaryPartDone text => some text
  | .argumentsDone _ text => some text
  | _ => none

/-- The text, the summary or the arguments. -/
def Item.text : Item → Option Str
  | .message _ _ text => text
  | .reasoning _ _ summary => summary
  | .functionCall _ _ _ arguments => arguments

inductive Phase where
  | opened
  | closing
  | done
  deriving DecidableEq

/-- What is known of an item that was announced. -/
structure Entry where
  id : Json
  text : Str
  phase : Phase

/-- One event of the item of an index. -/
inductive Step (index : ℕ) : Option Entry → Body → Entry → Prop
  | announce item : Step index none (.itemAdded index item) ⟨item.id, [], .opened⟩
  | extend id text progress : progress.final = none →
      Step index (some ⟨id, text, .opened⟩) (.progress index id progress)
        ⟨id, text ++ progress.delta, .opened⟩
  | close id text {phase} progress : progress.final = some text → phase ≠ .done →
      Step index (some ⟨id, text, phase⟩) (.progress index id progress) ⟨id, text, .closing⟩
  | finish text item : item.text = some text →
      Step index (some ⟨item.id, text, .closing⟩) (.itemDone index item) ⟨item.id, text, .done⟩

/-- The events of one item lead from what was known of it to what is known then. -/
inductive Lives (index : ℕ) : Option Entry → List Body → Option Entry → Prop
  | nil entry : Lives index entry [] entry
  | cons {entry body entry' rest last} : Step index entry body entry' →
      Lives index (some entry') rest last → Lives index entry (body :: rest) last

theorem Step.outputIndex {index : ℕ} {entry : Option Entry} {body : Body} {entry' : Entry}
    (h : Step index entry body entry') : body.outputIndex = some index := by
  cases h <;> rfl

theorem Step.not_ended {index : ℕ} {entry : Option Entry} {body : Body} {entry' : Entry}
    (h : Step index entry body entry') : body.isEnded = false := by
  cases h <;> rfl

/-- The events of an item that is open: it progresses, and at the end it may be done. -/
def Closing (index : ℕ) (bodies : List Body) : Prop :=
  ∃ middle last, bodies = middle ++ last ∧
  (∀ body ∈ middle, ∃ id progress, body = .progress index id progress) ∧
    (last = [] ∨ ∃ item, last = [.itemDone index item])

/-- An item has no events, or it is announced first. -/
def Life (index : ℕ) (bodies : List Body) : Prop :=
  bodies = [] ∨ ∃ item rest, bodies = .itemAdded index item :: rest ∧ Closing index rest

theorem Lives.of_done {index : ℕ} {entry : Entry} {bodies : List Body} {last : Option Entry}
    (h : Lives index (some entry) bodies last) (hdone : entry.phase = .done) :
    bodies = [] ∧ last = some entry := by
  cases h with
  | nil => exact ⟨rfl, rfl⟩
  | cons hstep _ =>
    cases hstep with
    | extend => cases hdone
    | close _ _ _ _ hphase => exact absurd hdone hphase
    | finish => cases hdone

theorem Lives.closing {index : ℕ} {entry : Entry} {bodies : List Body} {last : Option Entry}
    (h : Lives index (some entry) bodies last) : Closing index bodies := by
  generalize hstart : some entry = start at h
  induction h generalizing entry with
  | nil => exact ⟨[], [], rfl, List.forall_mem_nil _, Or.inl rfl⟩
  | cons hstep hrest ih =>
    subst hstart
    obtain ⟨middle, last, hbodies, hmiddle, hlast⟩ := ih rfl
    cases hstep with
    | extend =>
      exact ⟨_ :: middle, last, congrArg _ hbodies, List.forall_mem_cons.mpr ⟨⟨_, _, rfl⟩, hmiddle⟩,
        hlast⟩
    | close =>
      exact ⟨_ :: middle, last, congrArg _ hbodies, List.forall_mem_cons.mpr ⟨⟨_, _, rfl⟩, hmiddle⟩,
        hlast⟩
    | finish _ item =>
      obtain ⟨rfl, -⟩ := hrest.of_done rfl
      exact ⟨[], [_], rfl, List.forall_mem_nil _, Or.inr ⟨item, rfl⟩⟩

theorem Lives.life {index : ℕ} {bodies : List Body} {entry : Option Entry}
    (h : Lives index none bodies entry) : Life index bodies := by
  cases h with
  | nil => exact Or.inl rfl
  | cons hstep hrest =>
    cases hstep with
    | announce item => exact Or.inr ⟨item, _, rfl, hrest.closing⟩

/-- An item keeps its id. -/
theorem Lives.id_eq {index : ℕ} {entry entry' : Entry} {bodies : List Body}
    (h : Lives index (some entry) bodies (some entry')) : entry.id = entry'.id := by
  generalize hstart : some entry = start at h
  generalize hend : some entry' = last at h
  induction h generalizing entry with
  | nil =>
    subst hstart
    cases hend
    rfl
  | cons hstep _ ih =>
    subst hstart
    have hrest := ih rfl hend
    cases hstep <;> exact hrest

/-- What is known of an item was announced. -/
theorem Lives.announced {index : ℕ} {bodies : List Body} {entry : Entry}
    (h : Lives index none bodies (some entry)) :
    ∃ item, .itemAdded index item ∈ bodies ∧ item.id = entry.id := by
  cases h with
  | cons hstep hrest =>
    cases hstep with
    | announce item => exact ⟨item, List.mem_cons_self, hrest.id_eq⟩

/-- The number of the next event, and what is known of the items. -/
structure Ledger where
  sequence : ℕ
  items : List Entry

/-- What is known of an item, replaced or added at the end. -/
def put (items : List Entry) (index : ℕ) (entry : Entry) : List Entry :=
  if index < items.length then items.set index entry else items ++ [entry]

theorem put_same {items : List Entry} {index : ℕ} (entry : Entry) (h : index ≤ items.length) :
    (put items index entry)[index]? = some entry := by
  unfold put
  split_ifs with hlt
  · exact List.getElem?_set_self hlt
  · rw [show index = items.length by omega]
    exact List.getElem?_concat_length

theorem put_other {items : List Entry} {index other : ℕ} (entry : Entry) (h : index ≤ items.length)
    (hne : index ≠ other) : (put items index entry)[other]? = items[other]? := by
  unfold put
  split_ifs with hlt
  · exact List.getElem?_set_ne hne
  · rcases Nat.lt_or_ge other items.length with hother | hother
    · exact List.getElem?_append_left hother
    · rw [List.getElem?_eq_none hother,
        List.getElem?_eq_none (by rw [List.length_append, List.length_singleton]; omega)]

/-- Events that follow the protocol. -/
inductive Emits : Ledger → List Event → Ledger → Prop
  | nil ledger : Emits ledger [] ledger
  | cons {ledger index body entry events ledger'} : index ≤ ledger.items.length →
      Step index ledger.items[index]? body entry →
      Emits ⟨ledger.sequence + 1, put ledger.items index entry⟩ events ledger' →
      Emits ledger (⟨body, ledger.sequence⟩ :: events) ledger'

namespace Emits
variable {l l' l'' : Ledger} {events events' : List Event}

theorem append (h : Emits l events l') (h' : Emits l' events' l'') :
    Emits l (events ++ events') l'' := by
  induction h with
  | nil => exact h'
  | cons hindex hstep _ ih => exact .cons hindex hstep (ih h')

theorem sequence (h : Emits l events l') : l'.sequence = l.sequence + events.length := by
  induction h with
  | nil => rfl
  | cons _ _ _ ih =>
    rw [ih, List.length_cons]
    dsimp only
    omega

theorem numbered (h : Emits l events l') (i : ℕ) {event : Event} (hevent : events[i]? = some event) :
    event.sequenceNumber = l.sequence + i := by
  induction h generalizing i event with
  | nil => cases hevent
  | cons _ _ _ ih =>
    cases i with
    | zero =>
      cases hevent
      rfl
    | succ i =>
      rw [List.getElem?_cons_succ] at hevent
      rw [ih i hevent]
      dsimp only
      omega

theorem not_ended (h : Emits l events l') : ∀ event ∈ events, event.body.isEnded = false := by
  induction h with
  | nil => exact List.forall_mem_nil _
  | cons _ hstep _ ih => exact List.forall_mem_cons.mpr ⟨hstep.not_ended, ih⟩

end Emits

/-- The events of the item of an index. -/
def bodiesAt (index : ℕ) (events : List Event) : List Body :=
  (events.map Event.body).filter fun body => body.outputIndex = some index

theorem bodiesAt_append (index : ℕ) (events events' : List Event) :
    bodiesAt index (events ++ events') = bodiesAt index events ++ bodiesAt index events' := by
  unfold bodiesAt
  rw [List.map_append, List.filter_append]

theorem bodiesAt_same {index : ℕ} {body : Body} (h : body.outputIndex = some index) (n : ℕ)
    (events : List Event) : bodiesAt index (⟨body, n⟩ :: events) = body :: bodiesAt index events := by
  unfold bodiesAt
  rw [List.map_cons, List.filter_cons_of_pos (by rwa [decide_eq_true_iff])]

theorem bodiesAt_other {index : ℕ} {body : Body} (h : body.outputIndex ≠ some index) (n : ℕ)
    (events : List Event) : bodiesAt index (⟨body, n⟩ :: events) = bodiesAt index events := by
  unfold bodiesAt
  rw [List.map_cons, List.filter_cons_of_neg (by rwa [decide_eq_true_iff])]

/-- The protocol of all items is that of each. -/
theorem Emits.lives {l l' : Ledger} {events : List Event} (h : Emits l events l') (index : ℕ) :
    Lives index l.items[index]? (bodiesAt index events) l'.items[index]? := by
  induction h with
  | nil => exact .nil _
  | @cons l other body entry events l' hother hstep _ ih =>
    by_cases hindex : other = index
    · subst hindex
      rw [put_same entry hother] at ih
      rw [bodiesAt_same hstep.outputIndex]
      exact .cons hstep ih
    · rw [put_other entry hother hindex] at ih
      rw [bodiesAt_other (by rw [hstep.outputIndex]; exact fun hsame => hindex (Option.some.inj
        hsame))]
      exact ih

end Cyclo.OpenAi
