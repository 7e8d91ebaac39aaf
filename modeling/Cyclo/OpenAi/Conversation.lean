import Cyclo.OpenAi.History
import Cyclo.Results
import Mathlib.Data.List.Chain
import Mathlib.Data.List.Range

/-! The messages that a request's input is translated to: they keep the order of the items, and pair
the result of a tool with its call. -/
namespace Cyclo.OpenAi
open Js

variable {capabilities : Capabilities} {items : List Json} {item : Json} {index : ℕ}
  {t t' : Translation} {callId : Str}

def isType (type : String) (item : Json) : Prop := oneOf [type] (itemType item) = true

instance (type : String) (item : Json) : Decidable (isType type item) :=
  inferInstanceAs (Decidable (_ = true))

theorem oneOf_singleton {value : Option Json} {type : String} (h : oneOf [type] value = true) :
    value = some (.str (lit type)) := by
  unfold oneOf at h
  split at h
  · rw [List.map_singleton, decide_eq_true_iff, List.mem_singleton] at h
    rw [h]
  · cases h

theorem isType_unique {type other : String} (h : isType type item) (hother : isType other item) :
    lit type = lit other := by
  have hsame := (oneOf_singleton h).symm.trans (oneOf_singleton hother)
  injection hsame with hsame
  injection hsame

/-- An item that becomes part of the conversation: it is no message of the system. -/
def conversational (item : Json) : Bool :=
  !(oneOf ["message"] (itemType item) && oneOf ["system", "developer"] (item.field (lit "role")))

/-- A call or its result, with the id that both give. -/
def HasCallId (type : String) (callId : Str) (item : Json) : Prop :=
  isType type item ∧ item.field (lit "call_id") = some (.str callId)

/-- The block that an item becomes. -/
inductive BlockOf (index : ℕ) (item : Json) : Block → Prop
  | message {block} : isType "message" item → oneOf ["assistant"] (item.field (lit "role")) = true →
      assistantContent (item.field (lit "content")) (member (element (lit "input") index) "content")
        (item.field (lit "id")) (item.field (lit "phase")) = .ok block →
      BlockOf index item block
  | reasoning {block} : isType "reasoning" item →
      reasoningHistory item (element (lit "input") index) = .ok block → BlockOf index item block
  | call {call} : isType "function_call" item →
      functionCallHistory item (element (lit "input") index) = .ok call → BlockOf index item call.block

/-- The last call with an id before an index. -/
def LatestCall (items : List Json) (index : ℕ) (callId : Str) (call : FunctionCall) : Prop :=
  ∃ earlier item, earlier < index ∧ items[earlier]? = some item ∧ isType "function_call" item ∧
    functionCallHistory item (element (lit "input") earlier) = .ok call ∧ call.callId = callId ∧
    ∀ between other, earlier < between → between < index → items[between]? = some other →
      ¬ HasCallId "function_call" callId other

/-- The message that the items at some indices become. -/
inductive MessageOf (capabilities : Capabilities) (items : List Json) : List ℕ → Message → Prop
  | user {index item content} : items[index]? = some item → isType "message" item →
      oneOf ["user"] (item.field (lit "role")) = true →
      userContent (item.field (lit "content")) capabilities
        (member (element (lit "input") index) "content") = .ok content →
      MessageOf capabilities items [index] (.user content)
  | assistant {indices blocks} : indices ≠ [] →
      List.Forall₂ (fun index block => ∃ item, items[index]? = some item ∧ BlockOf index item block)
        indices blocks →
      MessageOf capabilities items indices (.assistant blocks)
  | toolResult {index item callId call content} : items[index]? = some item →
      HasCallId "function_call_output" callId item → LatestCall items index callId call →
      toolOutputContent (item.field (lit "output")) capabilities
        (member (element (lit "input") index) "output") = .ok content →
      MessageOf capabilities items [index]
        (.toolResult callId call.name content (oneOf ["failed"] (item.field (lit "status"))))

/-- What one round of the loop does. -/
inductive Round (capabilities : Capabilities) (index : ℕ) (item : Json) (t : Translation) :
    Translation → Prop
  | system {system} : conversational item = false → ¬ isType "function_call" item →
      Round capabilities index item t { t with system }
  | user {content} : isType "message" item → oneOf ["user"] (item.field (lit "role")) = true →
      conversational item = true → ¬ isType "function_call" item →
      userContent (item.field (lit "content")) capabilities
        (member (element (lit "input") index) "content") = .ok content →
      Round capabilities index item t (t.flushAssistant.add (.user content))
  | block {block} : BlockOf index item block → conversational item = true →
      ¬ isType "function_call" item → Round capabilities index item t (t.push block)
  | call {call} : isType "function_call" item → conversational item = true →
      functionCallHistory item (element (lit "input") index) = .ok call →
      Round capabilities index item t
        { t.push call.block with toolNames := (call.callId, call.name) :: t.toolNames }
  | result {callId name content} : HasCallId "function_call_output" callId item →
      conversational item = true → ¬ isType "function_call" item →
      t.toolNames.lookup callId = some name →
      toolOutputContent (item.field (lit "output")) capabilities
        (member (element (lit "input") index) "output") = .ok content →
      Round capabilities index item t (t.flushAssistant.add
        (.toolResult callId name content (oneOf ["failed"] (item.field (lit "status")))))

theorem not_isType {type other : String} (h : isType type item) (hne : lit type ≠ lit other) :
    ¬ isType other item := fun hother => hne (isType_unique h hother)

theorem conversational_of_type {type : String} (h : isType type item)
    (hne : lit type ≠ lit "message") : conversational item = true := by
  have hnot : oneOf ["message"] (itemType item) = false := by
    rw [← Bool.not_eq_true]
    exact not_isType h hne
  unfold conversational
  rw [hnot]
  rfl

theorem requiredString_ok {value : Option Json} {param text : Str} {empty : Bool}
    (h : requiredString value param empty = .ok text) :
    value = some (.str text) ∧ (empty = false → text ≠ []) := by
  unfold requiredString at h
  split at h
  · split_ifs at h with hempty
    cases h
    refine ⟨rfl, ?_⟩
    intro hfalse hnil
    exact hempty ⟨hnil, hfalse⟩
  · cases h

theorem messageItem_round (htype : isType "message" item)
    (h : messageItem capabilities item (element (lit "input") index) t = .ok t') :
    Round capabilities index item t t' := by
  have hcall : ¬ isType "function_call" item := not_isType htype (by decide)
  unfold messageItem at h
  dsimp only at h
  split_ifs at h with hsystem huser hassistant
  · have hnot : conversational item = false := by
      unfold conversational
      rw [show oneOf ["message"] (itemType item) = true from htype, hsystem]
      rfl
    obtain ⟨⟨⟩, -, h⟩ := bind_eq_ok.mp h
    obtain ⟨text, -, h⟩ := bind_eq_ok.mp h
    cases h
    split_ifs
    · have hround : Round capabilities index item t { t with system := t.system } := .system hnot hcall
      exact hround
    · exact Round.system hnot hcall
  · have hkept : conversational item = true := by
      unfold conversational
      rw [Bool.eq_false_iff.mpr hsystem, Bool.and_false]
      rfl
    obtain ⟨content, hcontent, h⟩ := bind_eq_ok.mp h
    cases h
    exact Round.user htype huser hkept hcall hcontent
  · have hkept : conversational item = true := by
      unfold conversational
      rw [Bool.eq_false_iff.mpr hsystem, Bool.and_false]
      rfl
    obtain ⟨block, hblock, h⟩ := bind_eq_ok.mp h
    cases h
    exact Round.block (BlockOf.message htype hassistant hblock) hkept hcall

theorem outputItem_round (htype : isType "function_call_output" item)
    (h : outputItem capabilities item (element (lit "input") index) t = .ok t') :
    Round capabilities index item t t' := by
  unfold outputItem at h
  obtain ⟨callId, hcallId, h⟩ := bind_eq_ok.mp h
  cases hlookup : t.toolNames.lookup callId with
  | none =>
    rw [hlookup] at h
    cases h
  | some name =>
    rw [hlookup] at h
    obtain ⟨content, hcontent, h⟩ := bind_eq_ok.mp h
    cases h
    exact Round.result ⟨htype, (requiredString_ok hcallId).1⟩
      (conversational_of_type htype (by decide)) (not_isType htype (by decide)) hlookup hcontent

theorem inputItem_round (h : inputItem capabilities index item t = .ok t') :
    Round capabilities index item t t' := by
  unfold inputItem at h
  dsimp only at h
  split_ifs at h with hobject hmessage hreasoning hcall houtput
  · exact messageItem_round hmessage h
  · obtain ⟨block, hblock, h⟩ := bind_eq_ok.mp h
    cases h
    exact Round.block (BlockOf.reasoning hreasoning hblock)
      (conversational_of_type hreasoning (by decide)) (not_isType hreasoning (by decide))
  · obtain ⟨call, hblock, h⟩ := bind_eq_ok.mp h
    cases h
    exact Round.call hcall (conversational_of_type hcall (by decide)) hblock
  · exact outputItem_round houtput h
  · split at h
    · cases h
    · cases h

def Message.isAssistant : Message → Bool
  | .assistant _ => true
  | _ => false

/-- Not both messages are the assistant's. -/
def Apart (first second : Message) : Prop := ¬ (first.isAssistant = true ∧ second.isAssistant = true)

def keptAt (items : List Json) (index : ℕ) : Bool := items[index]?.any conversational

abbrev BlockAt (items : List Json) (index : ℕ) (block : Block) : Prop :=
  ∃ item, items[index]? = some item ∧ BlockOf index item block

/-- What the loop has made of the items before an index: every one that is kept is in one message or
pending, in order, and the names of the tools are those of the last calls. -/
structure Follows (capabilities : Capabilities) (items : List Json) (index : ℕ) (t : Translation) :
    Prop where
  origins : ∃ origins pending, List.Forall₂ (MessageOf capabilities items) origins t.messages ∧
    List.Forall₂ (BlockAt items) pending (t.pendingAssistant.getD []) ∧
    origins.flatten ++ pending = (List.range index).filter (keptAt items)
  separated : t.messages.IsChain Apart
  last : ∀ message ∈ t.messages.getLast?, message.isAssistant = false
  pending : t.pendingAssistant ≠ some []
  named : ∀ callId name, t.toolNames.lookup callId = some name →
    ∃ call, LatestCall items index callId call ∧ call.name = name

theorem filter_range_succ (keep : ℕ → Bool) (index : ℕ) :
    (List.range (index + 1)).filter keep =
      (List.range index).filter keep ++ if keep index then [index] else [] := by
  rw [List.range_succ, List.filter_append, List.filter_singleton, Bool.cond_eq_ite]

theorem LatestCall.skip {call : FunctionCall} (h : LatestCall items index callId call)
    (hitem : items[index]? = some item) (hnot : ¬ HasCallId "function_call" callId item) :
    LatestCall items (index + 1) callId call := by
  obtain ⟨earlier, made, hearlier, hmade, htype, hcall, hid, hlatest⟩ := h
  refine ⟨earlier, made, Nat.lt_succ_of_lt hearlier, hmade, htype, hcall, hid, ?_⟩
  intro between other hafter hbefore hother
  rcases Nat.lt_succ_iff_lt_or_eq.mp hbefore with hbefore | rfl
  · exact hlatest between other hafter hbefore hother
  · rw [hitem] at hother
    cases hother
    exact hnot

theorem functionCallHistory_callId {call : FunctionCall} {param : Str}
    (h : functionCallHistory item param = .ok call) :
    item.field (lit "call_id") = some (.str call.callId) ∧ call.callId ≠ [] := by
  unfold functionCallHistory at h
  obtain ⟨callId, hcallId, h⟩ := bind_eq_ok.mp h
  obtain ⟨name, -, h⟩ := bind_eq_ok.mp h
  obtain ⟨hfield, hnonempty⟩ := requiredString_ok hcallId
  dsimp only at h
  split at h
  · split at h
    · cases h
    · split_ifs at h
      cases h
      exact ⟨hfield, hnonempty rfl⟩
  · cases h

/-- The latest call of its id is the one that was just made. -/
theorem latestCall_here {call : FunctionCall} (hitem : items[index]? = some item)
    (htype : isType "function_call" item)
    (hcall : functionCallHistory item (element (lit "input") index) = .ok call) :
    LatestCall items (index + 1) call.callId call := by
  refine ⟨index, item, Nat.lt_succ_self index, hitem, htype, hcall, rfl, ?_⟩
  intro between other hafter hbefore
  omega

/-- What is flushed is in messages altogether, and nothing is pending. -/
theorem Follows.flush (h : Follows capabilities items index t) :
    (∃ origins, List.Forall₂ (MessageOf capabilities items) origins t.flushAssistant.messages ∧
      origins.flatten = (List.range index).filter (keptAt items)) ∧
    t.flushAssistant.messages.IsChain Apart ∧ t.flushAssistant.pendingAssistant = none ∧
    t.flushAssistant.toolNames = t.toolNames := by
  obtain ⟨origins, pending, hmessages, hpending, hindices⟩ := h.origins
  cases hassistant : t.pendingAssistant with
  | none =>
    have hflush : t.flushAssistant = t := by
      unfold Translation.flushAssistant
      rw [hassistant]
    rw [hassistant] at hpending
    cases hpending
    rw [List.append_nil] at hindices
    rw [hflush]
    exact ⟨⟨origins, hmessages, hindices⟩, h.separated, hassistant, rfl⟩
  | some blocks =>
    cases blocks with
    | nil => exact absurd hassistant h.pending
    | cons block blocks =>
      have hflush : t.flushAssistant = { t with
          messages := t.messages ++ [.assistant (block :: blocks)], pendingAssistant := none } := by
        unfold Translation.flushAssistant
        rw [hassistant]
      rw [hassistant] at hpending
      have hnonempty : pending ≠ [] := by
        rintro rfl
        cases hpending
      rw [hflush]
      refine ⟨⟨origins ++ [pending], ?_, ?_⟩, ?_, rfl, rfl⟩
      · exact List.rel_append hmessages (.cons (MessageOf.assistant hnonempty hpending) .nil)
      · rw [List.flatten_append, List.flatten_singleton]
        exact hindices
      · rw [List.isChain_append]
        refine ⟨h.separated, List.isChain_singleton _, ?_⟩
        intro message hmessage _ _ hboth
        rw [h.last message hmessage] at hboth
        cases hboth.1

/-- A message that is added after a flush. -/
theorem Follows.add {message : Message} (h : Follows capabilities items index t)
    (hitem : items[index]? = some item) (hkept : conversational item = true)
    (hnot : ¬ isType "function_call" item) (hmessage : MessageOf capabilities items [index] message)
    (hother : message.isAssistant = false) :
    Follows capabilities items (index + 1) (t.flushAssistant.add message) := by
  obtain ⟨⟨origins, hmessages, hindices⟩, hseparated, hpending, hnames⟩ := h.flush
  have hhere : keptAt items index = true := by
    unfold keptAt
    rw [hitem]
    exact hkept
  constructor
  · refine ⟨origins ++ [[index]], [], List.rel_append hmessages (.cons hmessage .nil), ?_, ?_⟩
    · change List.Forall₂ _ [] (t.flushAssistant.pendingAssistant.getD [])
      rw [hpending]
      exact .nil
    · rw [filter_range_succ, if_pos hhere, ← hindices, List.flatten_append, List.flatten_singleton,
        List.append_nil]
  · change List.IsChain Apart (t.flushAssistant.messages ++ [message])
    rw [List.isChain_append]
    refine ⟨hseparated, List.isChain_singleton _, ?_⟩
    intro _ _ added hadded hboth
    cases hadded
    rw [hother] at hboth
    cases hboth.2
  · intro last hlast
    change last ∈ (t.flushAssistant.messages ++ [message]).getLast? at hlast
    rw [List.getLast?_concat] at hlast
    cases hlast
    exact hother
  · change t.flushAssistant.pendingAssistant ≠ some []
    rw [hpending]
    nofun
  · intro callId name hlookup
    change t.flushAssistant.toolNames.lookup callId = some name at hlookup
    rw [hnames] at hlookup
    obtain ⟨call, hlatest, hname⟩ := h.named callId name hlookup
    exact ⟨call, hlatest.skip hitem fun hcall => hnot hcall.1, hname⟩

/-- A block that becomes pending; the names of the tools are a matter of their own. -/
theorem Follows.push {block : Block} {toolNames : List (Str × Str)}
    (h : Follows capabilities items index t) (hitem : items[index]? = some item)
    (hkept : conversational item = true) (hblock : BlockOf index item block)
    (hnamed : ∀ callId name, toolNames.lookup callId = some name →
      ∃ call, LatestCall items (index + 1) callId call ∧ call.name = name) :
    Follows capabilities items (index + 1) { t.push block with toolNames } := by
  obtain ⟨origins, pending, hmessages, hpending, hindices⟩ := h.origins
  have hhere : keptAt items index = true := by
    unfold keptAt
    rw [hitem]
    exact hkept
  refine ⟨⟨origins, pending ++ [index], hmessages, ?_, ?_⟩, h.separated, h.last, ?_, hnamed⟩
  · exact List.rel_append hpending (.cons ⟨item, hitem, hblock⟩ .nil)
  · rw [filter_range_succ, if_pos hhere, ← hindices, List.append_assoc]
  · intro hempty
    injection hempty with hempty
    exact List.append_ne_nil_of_right_ne_nil _ (List.cons_ne_nil _ _) hempty

theorem Follows.round (h : Follows capabilities items index t) (hitem : items[index]? = some item)
    (hround : Round capabilities index item t t') : Follows capabilities items (index + 1) t' := by
  have hnames : ¬ isType "function_call" item → ∀ callId name, t.toolNames.lookup callId = some name →
      ∃ call, LatestCall items (index + 1) callId call ∧ call.name = name := by
    intro hnot callId name hlookup
    obtain ⟨call, hlatest, hname⟩ := h.named callId name hlookup
    exact ⟨call, hlatest.skip hitem fun hcall => hnot hcall.1, hname⟩
  cases hround with
  | system hsystem hnot =>
    obtain ⟨origins, pending, hmessages, hpending, hindices⟩ := h.origins
    have hhere : ¬ keptAt items index = true := by
      unfold keptAt
      rw [hitem]
      exact ne_true_of_eq_false hsystem
    refine ⟨⟨origins, pending, hmessages, hpending, ?_⟩, h.separated, h.last, h.pending, hnames hnot⟩
    rw [filter_range_succ, if_neg hhere, List.append_nil]
    exact hindices
  | user htype hrole hkept hnot hcontent =>
    exact h.add hitem hkept hnot (MessageOf.user hitem htype hrole hcontent) rfl
  | block hblock hkept hnot => exact h.push hitem hkept hblock (hnames hnot)
  | call htype hkept hcall =>
    refine h.push hitem hkept (BlockOf.call htype hcall) ?_
    intro callId name hlookup
    rw [List.lookup_cons] at hlookup
    split at hlookup
    · rename_i hsame
      cases hlookup
      cases eq_of_beq hsame
      exact ⟨_, latestCall_here hitem htype hcall, rfl⟩
    · rename_i hdifferent
      obtain ⟨earlier, hlatest, hname⟩ := h.named callId name hlookup
      refine ⟨earlier, hlatest.skip hitem ?_, hname⟩
      intro hhere
      have hsame := (functionCallHistory_callId hcall).1.symm.trans hhere.2
      injection hsame with hsame
      injection hsame with hsame
      rw [hsame, BEq.rfl] at hdifferent
      cases hdifferent
  | result hresult hkept hnot hlookup hcontent =>
    obtain ⟨call, hlatest, rfl⟩ := h.named _ _ hlookup
    exact h.add hitem hkept hnot (MessageOf.toolResult hitem hresult hlatest hcontent) rfl

theorem follows_start (system : List Str) : Follows capabilities items 0 ⟨[], system, [], none⟩ := by
  refine ⟨⟨[], [], .nil, .nil, rfl⟩, .nil, nofun, nofun, nofun⟩

/-- By induction on the items that are left: a whole input is followed. -/
theorem Follows.run {rest : List Json} (h : Follows capabilities items index t)
    (hrest : items.drop index = rest) (hrun : inputItems capabilities index t rest = .ok t') :
    Follows capabilities items (index + rest.length) t' := by
  induction rest generalizing index t with
  | nil =>
    cases hrun
    exact h
  | cons item rest ih =>
    unfold inputItems at hrun
    obtain ⟨next, hitem, hrun⟩ := bind_eq_ok.mp hrun
    have hhere : items[index]? = some item := by
      rw [← List.head?_drop, hrest]
      rfl
    have hleft : items.drop (index + 1) = rest := by
      rw [← List.tail_drop, hrest]
      rfl
    have hnext := ih (h.round hhere (inputItem_round hitem)) hleft hrun
    rw [List.length_cons, Nat.add_comm rest.length 1, ← Nat.add_assoc]
    exact hnext

/-- Joined to an item id, a call id is split off again unless it has a bar of its own. -/
theorem toolCallIds_joined {itemId : Str} (hcallId : callId ≠ []) (hitemId : itemId ≠ []) :
    ∃ ids, toolCallIds (some (.str (callId ++ [0x7c] ++ itemId))) = some ids ∧
      (ids.callId = callId ↔ (0x7c : CodeUnit) ∉ callId) := by
  obtain ⟨c, rest, hvalue⟩ : ∃ c rest, callId ++ [0x7c] ++ itemId = c :: rest := by
    obtain ⟨c, rest, rfl⟩ := List.exists_cons_of_ne_nil hcallId
    exact ⟨c, rest ++ [0x7c] ++ itemId, rfl⟩
  have hlength : (c :: rest).length = callId.length + 1 + itemId.length := by
    rw [← hvalue, List.length_append, List.length_append, List.length_singleton]
  have hcallLength := List.length_pos_iff.mpr hcallId
  have hitemLength := List.length_pos_iff.mpr hitemId
  rw [hvalue]
  unfold toolCallIds
  dsimp only
  by_cases hbar : (0x7c : CodeUnit) ∈ callId
  · have hseparator : (c :: rest).idxOf 0x7c < callId.length := by
      rw [← hvalue, List.append_assoc, List.idxOf_append_of_mem hbar]
      exact List.idxOf_lt_length_of_mem hbar
    have hdiffers : ∀ {text : Str}, text.length ≠ callId.length →
        (text = callId ↔ (0x7c : CodeUnit) ∉ callId) := by
      intro text hne
      refine iff_of_false ?_ (not_not_intro hbar)
      rintro rfl
      exact hne rfl
    split_ifs
    · refine ⟨_, rfl, hdiffers ?_⟩
      rw [List.length_take]
      omega
    · refine ⟨_, rfl, hdiffers ?_⟩
      rw [hlength]
      omega
  · have hseparator : (c :: rest).idxOf 0x7c = callId.length := by
      rw [← hvalue, List.append_assoc, List.idxOf_append_of_notMem hbar, List.singleton_append,
        List.idxOf_cons_self, Nat.add_zero]
    rw [hseparator, if_pos ⟨hcallLength, by omega⟩]
    refine ⟨_, rfl, iff_of_true ?_ hbar⟩
    dsimp only
    rw [← hvalue, List.append_assoc, List.take_left]

theorem functionCallHistory_block {call : FunctionCall} {param : Str}
    (h : functionCallHistory item param = .ok call) :
    ∃ itemId arguments, itemId ≠ [] ∧
      call.block = .toolCall (call.callId ++ [0x7c] ++ itemId) call.name arguments := by
  unfold functionCallHistory at h
  obtain ⟨callId, hcallId, h⟩ := bind_eq_ok.mp h
  obtain ⟨name, -, h⟩ := bind_eq_ok.mp h
  dsimp only at h
  split at h
  · split at h
    · cases h
    · split_ifs at h
      cases h
      refine ⟨_, _, ?_, rfl⟩
      split
      · exact List.cons_ne_nil _ _
      · exact List.append_ne_nil_of_left_ne_nil (by decide) _
  · cases h

/-- The block of every result's call has an id that is split into the result's. -/
def CallsPaired (items : List Json) : Prop :=
  ∀ index item callId call, items[index]? = some item → HasCallId "function_call_output" callId item →
    LatestCall items index callId call →
    ∃ id name arguments ids, call.block = .toolCall id name arguments ∧
      toolCallIds (some (.str id)) = some ids ∧ ids.callId = callId

theorem LatestCall.paired_iff {call : FunctionCall} (h : LatestCall items index callId call) :
    (∃ id name arguments ids, call.block = .toolCall id name arguments ∧
      toolCallIds (some (.str id)) = some ids ∧ ids.callId = callId) ↔ (0x7c : CodeUnit) ∉ callId := by
  obtain ⟨earlier, made, -, -, -, hcall, rfl, -⟩ := h
  obtain ⟨itemId, arguments, hitemId, hblock⟩ := functionCallHistory_block hcall
  obtain ⟨ids, hids, hsplit⟩ := toolCallIds_joined (functionCallHistory_callId hcall).2 hitemId
  constructor
  · rintro ⟨id, name, arguments', ids', hblock', hids', hcallId⟩
    cases hblock.symm.trans hblock'
    cases hids.symm.trans hids'
    exact hsplit.mp hcallId
  · intro hbar
    exact ⟨_, _, _, ids, hblock, hids, hsplit.mpr hbar⟩

/-- The messages of a context preserve the conversation of the items. -/
structure Preserved (capabilities : Capabilities) (items : List Json) (messages : List Message) :
    Prop where
  order : ∃ origins, List.Forall₂ (MessageOf capabilities items) origins messages ∧
    origins.flatten = (List.range items.length).filter (keptAt items)
  nonempty : Message.assistant [] ∉ messages
  separated : messages.IsChain Apart
  paired : CallsPaired items

/-- The result of a call is translated only after its call. -/
theorem latestCall_of_order {messages : List Message} {origins : List (List ℕ)}
    (horigins : List.Forall₂ (MessageOf capabilities items) origins messages)
    (hindices : origins.flatten = (List.range items.length).filter (keptAt items))
    (hitem : items[index]? = some item) (hresult : HasCallId "function_call_output" callId item) :
    ∃ call, LatestCall items index callId call := by
  have hkept : keptAt items index = true := by
    unfold keptAt
    rw [hitem]
    exact conversational_of_type hresult.1 (by decide)
  have hmem : index ∈ origins.flatten := by
    rw [hindices, List.mem_filter, List.mem_range]
    exact ⟨(List.getElem?_eq_some_iff.mp hitem).1, hkept⟩
  obtain ⟨indices, hindices, hindex⟩ := List.mem_flatten.mp hmem
  obtain ⟨message, -, hmessage⟩ := (mem_of_forall₂ horigins).2 indices hindices
  cases hmessage with
  | user hother htype =>
    cases List.mem_singleton.mp hindex
    cases hitem.symm.trans hother
    exact absurd hresult.1 (not_isType htype (by decide))
  | assistant hnonempty hblocks =>
    obtain ⟨block, -, other, hother, hblock⟩ := (mem_of_forall₂ hblocks).2 index hindex
    cases hitem.symm.trans hother
    cases hblock with
    | message htype => exact absurd hresult.1 (not_isType htype (by decide))
    | reasoning htype => exact absurd hresult.1 (not_isType htype (by decide))
    | call htype => exact absurd hresult.1 (not_isType htype (by decide))
  | toolResult hother hcallId hlatest =>
    cases List.mem_singleton.mp hindex
    cases hitem.symm.trans hother
    cases hcallId.2.symm.trans hresult.2
    exact ⟨_, hlatest⟩

/-- A request that is accepted keeps its conversation exactly when no result is of a call whose id
has a bar. -/
theorem preserved_iff {document : Json} {model : Model} {context : Context} {options : Options}
    (h : prepareOpenAIRequest document model = .ok (context, options)) :
    ∃ items, inputOf document = .ok items ∧
      (Preserved model.capabilities items context.messages ↔
        ∀ item ∈ items, ∀ callId, HasCallId "function_call_output" callId item →
          (0x7c : CodeUnit) ∉ callId) := by
  unfold prepareOpenAIRequest at h
  obtain ⟨⟨⟩, -, h⟩ := bind_eq_ok.mp h
  obtain ⟨accepted, hcontext, h⟩ := bind_eq_ok.mp h
  obtain ⟨_, -, h⟩ := bind_eq_ok.mp h
  cases h
  unfold openAIInputContext at hcontext
  obtain ⟨system, -, hcontext⟩ := bind_eq_ok.mp hcontext
  obtain ⟨items, hitems, hcontext⟩ := bind_eq_ok.mp hcontext
  obtain ⟨t, hrun, hcontext⟩ := bind_eq_ok.mp hcontext
  dsimp only at hcontext
  obtain ⟨tools, -, hcontext⟩ := bind_eq_ok.mp hcontext
  cases hcontext
  have hfollows : Follows model.capabilities items (0 + items.length) t :=
    (follows_start system).run rfl hrun
  rw [Nat.zero_add] at hfollows
  obtain ⟨⟨origins, horigins, hindices⟩, hseparated, -⟩ := hfollows.flush
  refine ⟨items, hitems, ?_⟩
  constructor
  · intro hpreserved item hmem callId hresult
    obtain ⟨index, hitem⟩ := List.mem_iff_getElem?.mp hmem
    obtain ⟨call, hlatest⟩ := latestCall_of_order horigins hindices hitem hresult
    exact hlatest.paired_iff.mp (hpreserved.paired index item callId call hitem hresult hlatest)
  · intro hbars
    refine ⟨⟨origins, horigins, hindices⟩, ?_, hseparated, ?_⟩
    · intro hempty
      obtain ⟨indices, -, hmessage⟩ := (mem_of_forall₂ horigins).1 _ hempty
      cases hmessage with
      | assistant hnonempty hblocks =>
        cases hblocks
        exact hnonempty rfl
    · intro index item callId call hitem hresult hlatest
      exact hlatest.paired_iff.mpr (hbars item (List.mem_of_getElem? hitem) callId hresult)

/-- A call of a tool and its result. -/
def callItems (callId : String) : List Json :=
  [.obj [(lit "type", .str (lit "function_call")), (lit "call_id", .str (lit callId)),
      (lit "name", .str (lit "f")), (lit "arguments", .str (lit "\x7b\x7d"))],
    .obj [(lit "type", .str (lit "function_call_output")), (lit "call_id", .str (lit callId)),
      (lit "output", .str (lit "found"))]]

def callRequest (callId : String) : Json :=
  .obj [(lit "model", .str (lit "work/model")), (lit "input", .arr (callItems callId))]

def textModel : Model := ⟨⟨false, false, false, false, false⟩, 1000⟩

def callContext (callId : String) : Context :=
  ⟨none, [.assistant [.toolCall (lit (callId ++ "|fc_" ++ callId)) (lit "f") (.obj [])],
    .toolResult (lit callId) (lit "f") [.text (lit "found")] false], none⟩

def noOptions : Options := ⟨none, none, none, none, none, none, none⟩

theorem preserved_iff_plain :
    ∃ items, inputOf (callRequest "a") = .ok items ∧
      (Preserved textModel.capabilities items (callContext "a").messages ↔
        ∀ item ∈ items, ∀ callId, HasCallId "function_call_output" callId item →
          (0x7c : CodeUnit) ∉ callId) :=
  @preserved_iff (callRequest "a") textModel (callContext "a") noOptions rfl

/-- A request whose call id has a bar is accepted, and the call is not paired with its result. -/
theorem barred_not_preserved :
    prepareOpenAIRequest (callRequest "a|b") textModel = .ok (callContext "a|b", noOptions) ∧
      ¬ Preserved textModel.capabilities (callItems "a|b") (callContext "a|b").messages := by
  refine ⟨rfl, ?_⟩
  intro hpreserved
  have hlatest : LatestCall (callItems "a|b") 1 (lit "a|b")
      ⟨lit "a|b", lit "f", .toolCall (lit "a|b|fc_a|b") (lit "f") (.obj [])⟩ := by
    refine ⟨0, _, by decide, rfl, by decide, rfl, rfl, ?_⟩
    intro between other hafter hbefore
    omega
  have hpaired := hpreserved.paired 1 _ (lit "a|b") _ rfl ⟨by decide, rfl⟩ hlatest
  exact hlatest.paired_iff.mp hpaired (by decide)

end Cyclo.OpenAi
