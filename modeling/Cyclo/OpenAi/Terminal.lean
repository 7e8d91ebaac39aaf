import Cyclo.OpenAi.Reconciliation
import Mathlib.Data.List.Perm.Subperm
import Mathlib.Data.List.Range

/-! What last events emit, and what is dropped when they are rejected. -/
namespace Cyclo.OpenAi
open Js Process Process.Stateful

variable {idFactory : ℕ → Str → Str} {s t u : State} {index : ℕ} {block given : Json}
    {blocks : List Json}
  {slot slot' : Slot} {events events' : List Event} {X : Failure → State → Prop}

def Verdict.rejects : Verdict → Bool
  | .rejected => true
  | .broken => true
  | _ => false

def verdicts (slots : List Slot) (index : ℕ) : List Json → List Verdict
  | [] => []
  | block :: rest => verdict slots index block :: verdicts slots (index + 1) rest

/-- Whether events are dropped with a message that is rejected by a block, or after all of them. -/
def dropsEvents (rejectedAfter : Bool) : List Verdict → Bool
  | [] => false
  | .silent :: rest => dropsEvents rejectedAfter rest
  | .emits :: rest => rejectedAfter || rest.any Verdict.rejects
  | .rejected :: _ => false
  | .broken :: _ => true

theorem verdict_congr {slots slots' : List Slot} (h : slotAt slots index = slotAt slots' index)
    (block : Json) : verdict slots index block = verdict slots' index block := by
  unfold verdict
  rw [h]

theorem verdicts_congr {slots slots' : List Slot}
    (h : ∀ other, index ≤ other → slotAt slots other = slotAt slots' other) (blocks : List Json) :
    verdicts slots index blocks = verdicts slots' index blocks := by
  induction blocks generalizing index with
  | nil => rfl
  | cons block rest ih =>
    unfold verdicts
    rw [verdict_congr (h index le_rfl), ih fun other hother => h other (by omega)]

/-- Blocks that `reconcile` accepts, from one index on. -/
structure ReconciledFrom (s : State) (index : ℕ) (blocks : List Json) (events : List Event)
    (t : State) : Prop where
  encodes : Encodes s events t
  others : ∀ other, other < index ∨ index + blocks.length ≤ other →
    slotAt t.slots other = slotAt s.slots other
  settles : ∀ k block, blocks[k]? = some block →
    ∃ slot, slotAt t.slots (index + k) = some slot ∧ Settles block (slotAt s.slots (index + k)) slot
  indexes : t.slots.map Slot.contentIndex = s.slots.map Slot.contentIndex ++
    (List.range' index blocks.length).filter fun k => (slotAt s.slots k).isNone

theorem ReconciledFrom.nil (hs : s.Sound) (index : ℕ) : ReconciledFrom s index [] [] s :=
  ⟨.refl hs, fun _ _ => rfl, nofun, (List.append_nil _).symm⟩

theorem Reconciled.cons (h : Reconciled s index block events t)
    (h' : ReconciledFrom t (index + 1) blocks events' u) :
    ReconciledFrom s index (block :: blocks) (events ++ events') u := by
  refine ⟨h.encodes.trans h'.encodes, ?_, ?_, ?_⟩
  · intro other hother
    rw [List.length_cons] at hother
    rw [h'.others other (by omega), h.others other (by omega)]
  · intro k other hother
    cases k with
    | zero =>
      cases hother
      obtain ⟨slot, hslot, hsettles⟩ := h.settles
      exact ⟨slot, by rw [Nat.add_zero, h'.others index (by omega), hslot], hsettles⟩
    | succ k =>
      obtain ⟨slot, hslot, hsettles⟩ := h'.settles k other hother
      rw [h.others _ (by omega)] at hsettles
      rw [show index + (k + 1) = index + 1 + k by omega]
      exact ⟨slot, hslot, hsettles⟩
  · have hsame : ((List.range' (index + 1) blocks.length).filter fun k => (slotAt t.slots k).isNone) =
        (List.range' (index + 1) blocks.length).filter fun k => (slotAt s.slots k).isNone := by
      refine List.filter_congr fun k hk => ?_
      have hlt := (List.mem_range'_1.mp hk).1
      rw [h.others k (by omega)]
    rw [h'.indexes, h.indexes, hsame]
    unfold withIndex
    rw [List.length_cons, List.range'_succ, List.append_assoc]
    congr 1
    cases hslot : slotAt s.slots index with
    | none => rw [if_pos rfl, List.filter_cons_of_pos (by rw [hslot]; rfl)]; rfl
    | some slot => rw [if_neg nofun, List.filter_cons_of_neg (by rw [hslot]; nofun)]; rfl

/-- The events that are dropped when a message is rejected by one of its blocks. -/
theorem reconcileFrom_yields (hs : s.Sound) (index : ℕ) (blocks : List Json) :
    Yields (reconcileFrom idFactory index blocks) s
      (fun events t => ReconciledFrom s index blocks events t ∧
        (verdicts s.slots index blocks).any Verdict.rejects = false ∧
        (events = [] ↔ ∀ v ∈ verdicts s.slots index blocks, v = .silent))
      fun _ t => (verdicts s.slots index blocks).any Verdict.rejects = true ∧
        ∃ dropped, Dropped s dropped t ∧
          ∀ after, dropped = [] ↔ dropsEvents after (verdicts s.slots index blocks) = false := by
  induction blocks generalizing s index with
  | nil => exact ⟨.nil hs index, rfl, iff_of_true rfl (List.forall_mem_nil _)⟩
  | cons block rest ih =>
    unfold reconcileFrom verdicts
    refine Yields.bind ((reconcileBlock_yields hs index block).weaken ?_ ?_)
    · rintro events t ⟨hblock, hverdict⟩
      have hsame : verdicts t.slots (index + 1) rest = verdicts s.slots (index + 1) rest :=
        verdicts_congr (fun other hother => hblock.others other (by omega)) rest
      refine Yields.bind ((ih hblock.encodes.sound (index + 1)).weaken ?_ ?_)
      · rintro events' u ⟨hrest, haccepted, hsilent⟩
        rw [hsame] at haccepted hsilent
        refine Yields.pure ⟨hblock.cons hrest, ?_, ?_⟩
        · rcases hverdict with ⟨hv, -⟩ | ⟨hv, -⟩ <;> rw [hv, List.any_cons, haccepted] <;> rfl
        · rw [List.append_eq_nil_iff, List.forall_mem_cons, hsilent]
          rcases hverdict with ⟨hv, hevents⟩ | ⟨hv, hevents⟩
          · exact and_congr_left' (iff_of_true hevents hv)
          · refine and_congr_left' (iff_of_false hevents ?_)
            rw [hv]
            nofun
      · rintro _ u ⟨hrejected, dropped, hdropped, hempty⟩
        rw [hsame] at hrejected hempty
        refine ⟨by rw [List.any_cons, hrejected, Bool.or_true], events ++ dropped,
          ⟨hblock.encodes.emits.append hdropped.emits, ?_⟩, ?_⟩
        · rw [hdropped.failureEmitted, hblock.encodes.kept.failureEmitted]
        · intro after
          rcases hverdict with ⟨hv, hevents⟩ | ⟨hv, hevents⟩
          · rw [hv, hevents, List.nil_append, hempty after]
            rfl
          · rw [hv, List.append_eq_nil_iff]
            refine iff_of_false (fun h => hevents h.1) ?_
            unfold dropsEvents
            rw [hrejected, Bool.or_true]
            nofun
    · rintro _ t ⟨dropped, hdropped, hverdict⟩
      rcases hverdict with ⟨hv, hevents⟩ | ⟨hv, hevents⟩
      · refine ⟨by rw [List.any_cons, hv]; rfl, dropped, hdropped, fun _ => ?_⟩
        exact iff_of_true hevents (by rw [hv]; rfl)
      · refine ⟨by rw [List.any_cons, hv]; rfl, dropped, hdropped, fun _ => iff_of_false hevents ?_⟩
        rw [hv]
        nofun

theorem slotAt_of_mem {slots : List Slot} (hdistinct : (slots.map Slot.contentIndex).Nodup)
    (h : slot ∈ slots) : slotAt slots slot.contentIndex = some slot := by
  cases hslot : slotAt slots slot.contentIndex with
  | none => exact absurd (List.mem_map_of_mem h) (slotAt_none_iff.mp hslot)
  | some other =>
    obtain ⟨hother, hindex⟩ := slotAt_mem hslot
    rw [List.inj_on_of_nodup_map hdistinct hother h hindex]

/-- Whether a slot has no block in a message. -/
def omits (slots : List Slot) (blocks : List Json) : Bool :=
  slots.any fun slot => blocks.length ≤ slot.contentIndex

namespace ReconciledFrom

/-- After all blocks, only a slot that has none can be missing or not done. -/
theorem omits_iff (hs : s.Sound) (h : ReconciledFrom s 0 blocks events t) :
    (t.slots.length ≠ blocks.length ∨ (t.slots.any fun slot => !slot.done) = true) ↔
      omits s.slots blocks = true := by
  have hdistinct := h.encodes.sound.distinct
  have hsettled : ∀ k < blocks.length, ∃ slot, slotAt t.slots k = some slot ∧ slot.done = true := by
    intro k hk
    obtain ⟨slot, hslot, hsettles⟩ := h.settles k blocks[k] (List.getElem?_eq_getElem hk)
    rw [Nat.zero_add] at hslot
    exact ⟨slot, hslot, hsettles.done⟩
  have hall : List.range blocks.length ⊆ t.slots.map Slot.contentIndex := by
    intro k hk
    obtain ⟨slot, hslot, -⟩ := hsettled k (List.mem_range.mp hk)
    obtain ⟨hmem, hindex⟩ := slotAt_mem hslot
    exact List.mem_map.mpr ⟨slot, hmem, hindex⟩
  have hsame : ∀ k, blocks.length ≤ k → slotAt t.slots k = slotAt s.slots k := by
    intro k hk
    exact h.others k (Or.inr (by omega))
  unfold omits
  by_cases homits : ∃ slot ∈ s.slots, blocks.length ≤ slot.contentIndex
  · refine iff_of_true (Or.inl ?_) ?_
    · obtain ⟨slot, hslot, hindex⟩ := homits
      have hthere := slotAt_of_mem hs.distinct hslot
      rw [← hsame _ hindex] at hthere
      obtain ⟨hmem, -⟩ := slotAt_mem hthere
      have hnodup : (slot.contentIndex :: List.range blocks.length).Nodup :=
        List.nodup_cons.mpr ⟨fun hin => absurd (List.mem_range.mp hin) (by omega), List.nodup_range⟩
      have hlength := (hnodup.subperm (List.cons_subset.mpr
        ⟨List.mem_map_of_mem hmem, hall⟩)).length_le
      rw [List.length_cons, List.length_range, List.length_map] at hlength
      omega
    · obtain ⟨slot, hslot, hindex⟩ := homits
      exact List.any_eq_true.mpr ⟨slot, hslot, decide_eq_true hindex⟩
  · have hwithin : ∀ slot ∈ t.slots, slot.contentIndex < blocks.length := by
      intro slot hslot
      by_contra hindex
      have hthere := slotAt_of_mem hdistinct hslot
      rw [hsame _ (by omega)] at hthere
      exact homits ⟨slot, (slotAt_mem hthere).1, by omega⟩
    refine iff_of_false ?_ ?_
    · rintro (hlength | hopen)
      · refine hlength ?_
        have hinside : t.slots.map Slot.contentIndex ⊆ List.range blocks.length := by
          intro k hk
          obtain ⟨slot, hslot, rfl⟩ := List.mem_map.mp hk
          exact List.mem_range.mpr (hwithin slot hslot)
        have hle := (hdistinct.subperm hinside).length_le
        have hge := (List.nodup_range.subperm hall).length_le
        rw [List.length_map, List.length_range] at hle hge
        omega
      · obtain ⟨slot, hslot, hopen⟩ := List.any_eq_true.mp hopen
        obtain ⟨other, hother, hdone⟩ := hsettled _ (hwithin slot hslot)
        cases (slotAt_of_mem hdistinct hslot).symm.trans hother
        rw [hdone] at hopen
        cases hopen
    · rw [List.any_eq_true]
      rintro ⟨slot, hslot, hindex⟩
      exact homits ⟨slot, hslot, of_decide_eq_true hindex⟩

end ReconciledFrom

theorem dropsEvents_accepted {vs : List Verdict} (h : vs.any Verdict.rejects = false) (after : Bool) :
    dropsEvents after vs = false ↔ after = false ∨ ∀ v ∈ vs, v = .silent := by
  induction vs with
  | nil => exact iff_of_true rfl (Or.inr (List.forall_mem_nil _))
  | cons v vs ih =>
    rw [List.any_cons, Bool.or_eq_false_iff] at h
    rw [List.forall_mem_cons]
    cases v with
    | silent =>
      rw [and_iff_right rfl]
      exact ih h.2
    | emits =>
      unfold dropsEvents
      rw [h.2, Bool.or_false]
      exact (or_iff_left (fun hall => nomatch hall.1)).symm
    | rejected => cases h.1
    | broken => cases h.1

/-- Whether the events of the blocks of a message are dropped. -/
def messageDrops (rejectedAfter : Bool) (slots : List Slot) (message : Json) : Bool :=
  dropsEvents (rejectedAfter || omits slots (contentOf message)) (verdicts slots 0 (contentOf message))

/-- A message that `reconcile` accepts. -/
structure Accepted (s : State) (message : Json) (events : List Event) (t : State) : Prop where
  blocks : ReconciledFrom s 0 (contentOf message) events t
  complete : omits s.slots (contentOf message) = false
  drops_iff : ∀ after, messageDrops after s.slots message = false ↔ after = false ∨ events = []

theorem reconcile_yields (hs : s.Sound) (message : Json) :
    Yields (reconcile idFactory message) s (Accepted s message)
      fun _ t => ∃ dropped, Dropped s dropped t ∧
        ∀ after, dropped = [] ↔ messageDrops after s.slots message = false := by
  unfold reconcile
  refine Yields.bind ((reconcileFrom_yields hs 0 (contentOf message)).weaken ?_ ?_)
  · rintro events t ⟨hblocks, haccepted, hsilent⟩
    have homits := hblocks.omits_iff hs
    have hdrops : ∀ after, messageDrops after s.slots message = false ↔
        (after = false ∧ omits s.slots (contentOf message) = false) ∨ events = [] := by
      intro after
      unfold messageDrops
      rw [dropsEvents_accepted haccepted, Bool.or_eq_false_iff, hsilent]
    refine Yields.bind (Yields.get ?_)
    split_ifs with hbad
    · have htrue := homits.mp hbad
      refine ⟨events, hblocks.encodes.dropped, ?_⟩
      intro after
      rw [hdrops, htrue]
      exact (or_iff_right fun h => nomatch h.2).symm
    · have hfalse : omits s.slots (contentOf message) = false :=
        Bool.eq_false_iff.mpr fun htrue => hbad (homits.mpr htrue)
      refine Yields.pure ⟨hblocks, hfalse, ?_⟩
      intro after
      rw [hdrops, hfalse]
      exact or_congr_left (and_iff_left rfl)
  · rintro _ t ⟨-, dropped, hdropped, hempty⟩
    exact ⟨dropped, hdropped, fun after => hempty _⟩

/-- Events that end with the response of a state. -/
structure Closed (t : State) (kept : List Event) (response : Response) (events : List Event) :
    Prop where
  events : events = kept ++ [⟨.ended response, t.sequence⟩]
  output : response.output = t.slots.map Slot.item
  outputText : response.outputText = t.outputText
  status : response.status ≠ .inProgress

/-- A last event that is accepted. -/
structure Concluded (s : State) (message : Json) (response : Response) (events : List Event) :
    Prop where
  closed : ∃ kept t, Accepted s message kept t ∧ Closed t kept response events

/-- Whether the reason of a done event is none that it can have. -/
def invalidReason (given message : Json) : Bool :=
  !oneOf ["deferred", "length", "stop", "toolUse"]
    (nullish (given.field (lit "reason")) (message.field (lit "stopReason")))

/-- The message of an error event. -/
def errorOf (given : Json) : Json :=
  match given.field (lit "error") with
  | some (.obj fields) => .obj fields
  | _ => .obj []

theorem fail_yields (hfail : s.failureEmitted = false) (message : Str) :
    Yields (fail message) s
      (fun events t => t.terminal = true ∧ ∃ response, response.status = .failed ∧
        Closed s [] response events) X := by
  unfold fail
  refine Yields.bind (Yields.get ?_)
  rw [hfail, Bool.and_false, if_neg nofun]
  exact ⟨rfl, _, rfl, rfl, rfl, rfl, nofun⟩

theorem ended_yields (status : Status) (hstatus : status ≠ .inProgress) :
    Yields (ended status) s
      (fun event t => t.terminal = s.terminal ∧ ∃ response, response.status = status ∧
        Closed s [] response [event]) X :=
  ⟨rfl, _, rfl, rfl, rfl, rfl, hstatus⟩

theorem oneOf_append (names others : List String) (value : Option Json) :
    oneOf (names ++ others) value = (oneOf names value || oneOf others value) := by
  unfold oneOf
  split
  · rw [List.map_append, ← Bool.decide_or]
    exact decide_eq_decide.mpr List.mem_append
  · rfl

/-- The message of a done event. -/
def messageOf (given : Json) : Option Json :=
  match given.field (lit "message") with
  | some (.obj fields) => some (.obj fields)
  | _ => none

/-- Whether events are dropped with a done event that is rejected. -/
def doneDrops (slots : List Slot) (given : Json) : Bool :=
  (messageOf given).any fun message => messageDrops (invalidReason given message) slots message

theorem invalidReason_eq (given message : Json) :
    invalidReason given message =
      let reason := nullish (given.field (lit "reason")) (message.field (lit "stopReason"))
      !(oneOf ["deferred"] reason || (oneOf ["length"] reason ||
        oneOf ["stop", "toolUse"] reason)) := by
  unfold invalidReason
  dsimp only
  rw [← oneOf_append, ← oneOf_append]
  rfl

theorem Concluded.of {message : Json} {response : Response} (haccepted : Accepted s message events t)
    (h : Closed u [] response events')
    (hledger : u.sequence = t.sequence ∧ u.slots = t.slots ∧ u.outputText = t.outputText) :
    Concluded s message response (events ++ events') := by
  obtain ⟨hsequence, hslots, houtput⟩ := hledger
  refine ⟨events, t, haccepted, ?_, ?_, ?_, h.status⟩
  · rw [h.events, hsequence, List.nil_append]
  · rw [h.output, hslots]
  · rw [h.outputText, houtput]

/-- What has no text raises, and changes nothing. -/
theorem orRaise_yields {α : Type} {value : Option α} {Q : α → State → Prop}
    (hsome : ∀ a, value = some a → Q a s) (hnone : value = none → X .other s) :
    Yields (liftExcept (orRaise value)) s Q X := by
  cases value with
  | none => exact hnone rfl
  | some a => exact hsome a rfl

theorem done_yields (hs : s.Sound) (hfail : s.failureEmitted = false) (given : Json) :
    Yields (done idFactory given) s
      (fun events t => t.terminal = true ∧ doneDrops s.slots given = false ∧
        ∃ message response, messageOf given = some message ∧ Concluded s message response events)
      fun _ t => ∃ dropped, Dropped s dropped t ∧
      (dropped = [] ↔ doneDrops s.slots given = false) := by
  unfold done
  split
  · rename_i fields hmessage
    have hgiven : messageOf given = some (.obj fields) := by
      unfold messageOf
      rw [hmessage]
    have hdrops : doneDrops s.slots given =
        messageDrops (invalidReason given (.obj fields)) s.slots (.obj fields) := by
      unfold doneDrops
      rw [hgiven, Option.any_some]
    refine Yields.bind ((reconcile_yields hs (.obj fields)).weaken ?_ ?_)
    · intro events t haccepted
      have hfail' : t.failureEmitted = false := by
        rw [haccepted.blocks.encodes.kept.failureEmitted, hfail]
      have hreason := invalidReason_eq given (.obj fields)
      have hvalid : invalidReason given (.obj fields) = false → doneDrops s.slots given = false := by
        intro h
        rw [hdrops, haccepted.drops_iff]
        exact Or.inl h
      dsimp only at hreason
      refine Yields.bind (Yields.modify ?_)
      dsimp only
      split_ifs with hdeferred hlength hstop
      · refine Yields.bind ((fail_yields ?_ _).weaken ?_ fun _ _ h => h)
        · exact hfail'
        · rintro events' u ⟨hterminal, response, -, hclosed⟩
          rw [hdeferred, Bool.true_or] at hreason
          exact ⟨hterminal, hvalid hreason, _, response, hgiven, .of haccepted hclosed ⟨rfl, rfl, rfl⟩⟩
      · refine Yields.bind ((ended_yields .incomplete nofun).weaken ?_ fun _ _ h => h)
        rintro event u ⟨hterminal, response, -, hclosed⟩
        rw [hlength, Bool.true_or, Bool.or_true] at hreason
        exact ⟨hterminal, hvalid hreason, _, response, hgiven, .of haccepted hclosed ⟨rfl, rfl, rfl⟩⟩
      · refine Yields.bind ((ended_yields .completed nofun).weaken ?_ fun _ _ h => h)
        rintro event u ⟨hterminal, response, -, hclosed⟩
        rw [hstop, Bool.or_true, Bool.or_true] at hreason
        exact ⟨hterminal, hvalid hreason, _, response, hgiven, .of haccepted hclosed ⟨rfl, rfl, rfl⟩⟩
      · have hinvalid : invalidReason given (.obj fields) = true := by
          rw [hreason, Bool.eq_false_iff.mpr hdeferred, Bool.eq_false_iff.mpr hlength,
            Bool.eq_false_iff.mpr hstop]
          rfl
        have hempty : events = [] ↔ doneDrops s.slots given = false := by
          rw [hdrops, haccepted.drops_iff, hinvalid]
          exact (or_iff_right nofun).symm
        -- whether or not the reason has a text, the events are lost
        exact Yields.bind (orRaise_yields
          (fun _ _ => ⟨events, ⟨haccepted.blocks.encodes.emits, hfail'.trans hfail.symm⟩, hempty⟩)
          fun _ => ⟨events, ⟨haccepted.blocks.encodes.emits, hfail'.trans hfail.symm⟩, hempty⟩)
    · rintro _ t ⟨dropped, hdropped, hempty⟩
      exact ⟨dropped, hdropped, by rw [hdrops, hempty]⟩
  · rename_i hnone
    refine ⟨[], .none s, iff_of_true rfl ?_⟩
    have hgiven : messageOf given = none := by
      unfold messageOf
      split
      · rename_i fields hmessage
        exact absurd hmessage (hnone fields)
      · rfl
    unfold doneDrops
    rw [hgiven, Option.any_none]

/-- Whether the error of a message has no text. -/
def unprintable (message : Json) : Bool :=
  (safeErrorMessage (message.field (lit "errorMessage"))).isNone

example : unprintable (.obj [(lit "errorMessage", .obj [(lit "toString", .null)])]) = true := by
  decide +kernel

/-- Whether events are dropped with an error event that is rejected. -/
def errorDrops (slots : List Slot) (given : Json) : Bool :=
  messageDrops (unprintable (errorOf given)) slots (errorOf given)

theorem error_yields (hs : s.Sound) (hfail : s.failureEmitted = false) (given : Json) :
    Yields (error idFactory given) s
      (fun events t => t.terminal = true ∧ errorDrops s.slots given = false ∧
        ∃ response, response.status = .failed ∧ Concluded s (errorOf given) response events)
      fun _ t => ∃ dropped, Dropped s dropped t ∧
        (dropped = [] ↔ errorDrops s.slots given = false) := by
  unfold error
  refine Yields.bind ((reconcile_yields hs (errorOf given)).weaken ?_ ?_)
  · intro events t haccepted
    have hfail' : t.failureEmitted = false := by
      rw [haccepted.blocks.encodes.kept.failureEmitted, hfail]
    have hdrops := haccepted.drops_iff (unprintable (errorOf given))
    refine Yields.bind (Yields.modify (Yields.bind (orRaise_yields ?_ ?_)))
    · intro message hshown
      have hprintable : unprintable (errorOf given) = false := by
        unfold unprintable
        rw [show safeErrorMessage ((errorOf given).field (lit "errorMessage")) = some message from
          hshown, Option.isNone_some]
      refine Yields.bind ((fail_yields ?_ message).weaken ?_ fun _ _ h => h)
      · exact hfail'
      · rintro events' u ⟨hterminal, response, hstatus, hclosed⟩
        exact ⟨hterminal, hdrops.mpr (Or.inl hprintable), response, hstatus,
          .of haccepted hclosed ⟨rfl, rfl, rfl⟩⟩
    · intro hshown
      have hunprintable : unprintable (errorOf given) = true := by
        unfold unprintable
        rw [show safeErrorMessage ((errorOf given).field (lit "errorMessage")) = none from hshown,
          Option.isNone_none]
      refine ⟨events, ⟨haccepted.blocks.encodes.emits, hfail'.trans hfail.symm⟩, ?_⟩
      rw [errorDrops, hdrops, hunprintable]
      exact (or_iff_right nofun).symm
  · rintro _ t ⟨dropped, hdropped, hempty⟩
    exact ⟨dropped, hdropped, hempty _⟩

end Cyclo.OpenAi
