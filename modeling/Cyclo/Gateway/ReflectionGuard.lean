import Cyclo.Gateway.PiAdapter
import Cyclo.Text.Spelling

/-! The reflection guard rejects an event exactly when the fragments seen so far spell a secret,
so what dispatch relays never spells one. -/
namespace Cyclo.Gateway
open Js Text

mutual

/-- Keys, indices and string values of a document, each key before the value under it. -/
def fragments : Json → List Str
  | .str s => [s]
  | .arr items => itemFragments 0 items
  | .obj entries => entryFragments entries
  | _ => []

def itemFragments : ℕ → List Json → List Str
  | _, [] => []
  | i, v :: vs => Json.indexKey i :: (fragments v ++ itemFragments (i + 1) vs)

def entryFragments : List (Str × Json) → List Str
  | [] => []
  | (key, v) :: es => key :: (fragments v ++ entryFragments es)

end

theorem flatMap_pushEntries (entries : List (Str × Json)) (pending : List Json) :
    (pushEntries entries pending).flatMap fragments =
      entryFragments entries ++ pending.flatMap fragments := by
  induction entries with
  | nil => rfl
  | cons e es ih =>
    change fragments (.str e.1) ++
      (fragments e.2 ++ (pushEntries es pending).flatMap fragments) = _
    rw [ih, fragments, entryFragments]
    simp

theorem entryFragments_indexed (i : ℕ) (items : List Json) :
    entryFragments (Json.indexed i items) = itemFragments i items := by
  induction items generalizing i with
  | nil => rfl
  | cons v vs ih => simp [Json.indexed, entryFragments, itemFragments, ih]

theorem collectFragments_eq (pending : List Json) (acc : List Str) :
    collectFragments pending acc = acc ++ pending.flatMap fragments := by
  induction pending, acc using collectFragments.induct with
  | case1 acc => simp [collectFragments]
  | case2 acc s pending ih =>
    rw [collectFragments, ih]
    simp [fragments]
  | case3 acc v pending hv ih =>
    have hf : fragments v = entryFragments v.entries := by
      cases v with
      | str s => exact absurd rfl (hv s)
      | arr items => rw [fragments, Json.entries, entryFragments_indexed]
      | null | bool _ | num _ | obj _ => rfl
    rw [collectFragments, ih, flatMap_pushEntries, List.flatMap_cons, hf]
    exact hv

theorem stringFragments_eq (document : Json) : stringFragments document = fragments document := by
  rw [stringFragments, collectFragments_eq]
  simp

mutual

/-- Numbers carry no fragments, so the text of a document has those of the document. -/
theorem fragments_wire : ∀ v : Json, fragments v.wire = fragments v
  | .num n => by cases n <;> rfl
  | .arr items => itemFragments_wire 0 items
  | .obj entries => entryFragments_wire entries
  | .null | .bool _ | .str _ => rfl

theorem itemFragments_wire (i : ℕ) :
    ∀ items : List Json, itemFragments i (Json.wireItems items) = itemFragments i items
  | [] => rfl
  | v :: vs => by
    rw [Json.wireItems, itemFragments, itemFragments, fragments_wire v,
      itemFragments_wire (i + 1) vs]

theorem entryFragments_wire :
    ∀ entries : List (Str × Json), entryFragments (Json.wireEntries entries) = entryFragments entries
  | [] => rfl
  | (key, v) :: es => by
    rw [Json.wireEntries, entryFragments, entryFragments, fragments_wire v, entryFragments_wire es]

end

/-- The lengths kept for a secret are those at which the fragments have begun it. -/
def Tracks (secret : Str) (partials : List ℕ) (seen : List Str) : Prop :=
  ∀ m, m ∈ partials ↔ m < secret.length ∧ Begun secret m seen

theorem tracks_nil (secret : Str) : Tracks secret [] [] := by
  intro m
  simp [not_begun_nil]

@[simp] theorem mem_addTo {set : List ℕ} {value m : ℕ} :
    m ∈ addTo set value ↔ m ∈ set ∨ m = value := by
  unfold addTo
  split_ifs with h
  · constructor
    · exact .inl
    · rintro (hm | rfl)
      · exact hm
      · exact h
  · simp

theorem advanceExisting_fst (secret fragment : Str) (existing partials : List ℕ) :
    (advanceExisting secret fragment existing partials).1 = true ↔
      ∃ k ∈ existing, secret.drop k <+: fragment := by
  induction existing generalizing partials with
  | nil => simp [advanceExisting]
  | cons k existing ih =>
    rw [advanceExisting]
    by_cases h : secret.drop k <+: fragment
    · simp [h]
    · rw [if_neg (mt Str.startsWith_iff.mp h), ih]
      simp [h]

theorem mem_advanceExisting (m : ℕ) {secret fragment : Str} {existing partials : List ℕ}
    (h : (advanceExisting secret fragment existing partials).1 = false) :
    m ∈ (advanceExisting secret fragment existing partials).2 ↔
      m ∈ partials ∨ ∃ k ∈ existing, k + fragment.length = m ∧ fragment <+: secret.drop k := by
  induction existing generalizing partials with
  | nil => simp [advanceExisting]
  | cons k existing ih =>
    rw [advanceExisting] at h ⊢
    split_ifs at h ⊢ with hs hf
    · rw [ih h, mem_addTo]
      have hk := Str.startsWith_iff.mp hf
      constructor
      · rintro ((hm | rfl) | ⟨j, hj, hrest⟩)
        · exact .inl hm
        · exact .inr ⟨k, by simp, rfl, hk⟩
        · exact .inr ⟨j, by simp [hj], hrest⟩
      · rintro (hm | ⟨j, hj, hlen, hpre⟩)
        · exact .inl (.inl hm)
        · rcases List.mem_cons.mp hj with rfl | hj
          · exact .inl (.inr hlen.symm)
          · exact .inr ⟨j, hj, hlen, hpre⟩
    · rw [ih h]
      have hk := mt Str.startsWith_iff.mpr hf
      constructor
      · rintro (hm | ⟨j, hj, hrest⟩)
        · exact .inl hm
        · exact .inr ⟨j, by simp [hj], hrest⟩
      · rintro (hm | ⟨j, hj, hlen, hpre⟩)
        · exact .inl hm
        · rcases List.mem_cons.mp hj with rfl | hj
          · exact absurd hpre hk
          · exact .inr ⟨j, hj, hlen, hpre⟩

theorem mem_foldl_addTo {P : ℕ → Bool} {lengths partials : List ℕ} {m : ℕ} :
    m ∈ lengths.foldl (fun partials length =>
        if P length then addTo partials length else partials) partials ↔
      m ∈ partials ∨ (m ∈ lengths ∧ P m) := by
  induction lengths generalizing partials with
  | nil => simp
  | cons k lengths ih =>
    rw [List.foldl_cons, ih]
    split_ifs with h
    · rw [mem_addTo]
      aesop
    · aesop

variable {secret : Str} {partials : List ℕ} {seen : List Str} (fragment : Str)

/-- One fragment completes the secret exactly when it completes a spelling. -/
theorem advancesToCredential_fst (ht : Tracks secret partials seen) (hn : ¬ Spelled secret seen) :
    (advancesToCredential secret partials fragment).1 = true ↔
      Spelled secret (seen ++ [fragment]) := by
  rw [spelled_concat_iff]
  unfold advancesToCredential
  split_ifs with hi
  · simp [Str.includes_iff.mp hi]
  · have hfst := advanceExisting_fst secret fragment partials partials
    have hbegun : (∃ k ∈ partials, secret.drop k <+: fragment) ↔
        ∃ k < secret.length, Begun secret k seen ∧ secret.drop k <+: fragment := by
      constructor
      · rintro ⟨k, hk, hd⟩
        exact ⟨k, ((ht k).mp hk).1, ((ht k).mp hk).2, hd⟩
      · rintro ⟨k, hk, hb, hd⟩
        exact ⟨k, (ht k).mpr ⟨hk, hb⟩, hd⟩
    have hi' := mt Str.includes_iff.mpr hi
    rw [hbegun] at hfst
    split <;> rename_i heq
    · rw [heq] at hfst
      simp [hn, hi', hfst.mp rfl]
    · rw [heq] at hfst
      simpa [hn, hi'] using hfst

/-- A fragment that completes nothing leaves exactly the matches now begun. -/
theorem advancesToCredential_tracks (ht : Tracks secret partials seen)
    (hf : (advancesToCredential secret partials fragment).1 = false) :
    Tracks secret (advancesToCredential secret partials fragment).2 (seen ++ [fragment]) := by
  unfold advancesToCredential at hf ⊢
  split_ifs at hf ⊢ with hi
  split at hf <;> rename_i heq
  · cases hf
  intro m
  dsimp only
  have hex := mem_advanceExisting m (congrArg Prod.fst heq)
  have hno := advanceExisting_fst secret fragment partials partials
  rw [heq] at hex hno
  dsimp only at hex hno
  rw [mem_foldl_addTo, hex, List.mem_range'_1, Str.endsWith_iff]
  constructor
  · rintro ((hm | ⟨k, hk, hlen, hpre⟩) | ⟨⟨h1, hlim⟩, hsuf⟩)
    · have hb := (ht m).mp hm
      exact ⟨hb.1, (begun_concat_iff hb.1).mpr (.inl hb.2)⟩
    · have hb := (ht k).mp hk
      -- a fragment as long as the rest of the secret would have completed it
      have hlt : m < secret.length := by
        by_contra hge
        have hle := hpre.length_le
        rw [List.length_drop] at hle
        have heq' := hpre.eq_of_length (by rw [List.length_drop]; omega)
        have hdrop : secret.drop k <+: fragment := heq' ▸ List.prefix_refl _
        exact absurd (hno.mpr ⟨k, hk, hdrop⟩) (by simp)
      exact ⟨hlt, (begun_concat_iff hlt).mpr (.inr (.inl ⟨k, hlen, hb.2, hpre⟩))⟩
    · have hlt : m < secret.length := by omega
      exact ⟨hlt, (begun_concat_iff hlt).mpr (.inr (.inr ⟨by omega, hsuf⟩))⟩
  · rintro ⟨hlt, hb⟩
    rcases (begun_concat_iff hlt).mp hb with hb | ⟨k, hlen, hb, hpre⟩ | ⟨hpos, hsuf⟩
    · exact .inl (.inl ((ht m).mpr ⟨hlt, hb⟩))
    · exact .inl (.inr ⟨k, (ht k).mpr ⟨by omega, hb⟩, hlen, hpre⟩)
    · have hle := hsuf.length_le
      rw [List.length_take] at hle
      exact .inr ⟨⟨by omega, by omega⟩, hsuf⟩

/-- A guard that has passed the fragments seen: every secret is tracked and none is spelled. -/
def Guard.Passed (guard : Guard) (seen : List Str) : Prop :=
  ∀ entry ∈ guard, Tracks entry.1 entry.2 seen ∧ ¬ Spelled entry.1 seen

theorem advanceSecrets_eq_none {guard : Guard} (hg : guard.Passed seen) :
    advanceSecrets fragment guard = none ↔
      ∃ entry ∈ guard, Spelled entry.1 (seen ++ [fragment]) := by
  induction guard with
  | nil => simp [advanceSecrets]
  | cons entry guard ih =>
    obtain ⟨secret, partials⟩ := entry
    have h := hg (secret, partials) (by simp)
    have ih := ih fun e he => hg e (by simp [he])
    have hfst := advancesToCredential_fst fragment h.1 h.2
    rw [advanceSecrets]
    split <;> rename_i heq
    · rw [heq] at hfst
      simp [hfst.mp rfl]
    · rw [heq] at hfst
      have hns : ¬ Spelled secret (seen ++ [fragment]) := fun hs => by simpa using hfst.mpr hs
      simp [ih, hns]

theorem advanceSecrets_passed {guard guard' : Guard} (hg : guard.Passed seen)
    (h : advanceSecrets fragment guard = some guard') :
    guard'.map Prod.fst = guard.map Prod.fst ∧ guard'.Passed (seen ++ [fragment]) := by
  induction guard generalizing guard' with
  | nil =>
    cases h
    exact ⟨rfl, by intro e he; cases he⟩
  | cons entry guard ih =>
    obtain ⟨secret, partials⟩ := entry
    have hp := hg (secret, partials) (by simp)
    have hfst := advancesToCredential_fst fragment hp.1 hp.2
    rw [advanceSecrets] at h
    split at h <;> rename_i partials' heq
    · cases h
    obtain ⟨rest, hrest, rfl⟩ := Option.map_eq_some_iff.mp h
    obtain ⟨hmap, hpassed⟩ := ih (fun e he => hg e (by simp [he])) hrest
    have htracks := advancesToCredential_tracks fragment hp.1 (by rw [heq])
    rw [heq] at hfst htracks
    refine ⟨by simp [hmap], ?_⟩
    intro e he
    rcases List.mem_cons.mp he with rfl | he
    · exact ⟨htracks, fun hs => by simpa using hfst.mpr hs⟩
    · exact hpassed e he

theorem checkFragments_eq_none {guard : Guard} {frs : List Str} (hg : guard.Passed seen) :
    checkFragments guard frs = none ↔ ∃ entry ∈ guard, Spelled entry.1 (seen ++ frs) := by
  induction frs generalizing guard seen with
  | nil =>
    have hno : ¬ ∃ entry ∈ guard, Spelled entry.1 (seen ++ []) := by
      rintro ⟨e, he, hs⟩
      rw [List.append_nil] at hs
      exact (hg e he).2 hs
    simp only [hno, iff_false]
    simp [checkFragments]
  | cons fragment frs ih =>
    rw [checkFragments, List.foldlM_cons]
    cases h : advanceSecrets fragment guard with
    | none =>
      obtain ⟨e, he, hs⟩ := (advanceSecrets_eq_none fragment hg).mp h
      have hsub : (seen ++ [fragment]).Sublist (seen ++ fragment :: frs) := by simp
      simp only [Option.bind_eq_bind, Option.bind_none, true_iff]
      exact ⟨e, he, hs.mono hsub⟩
    | some guard' =>
      obtain ⟨hmap, hpassed⟩ := advanceSecrets_passed fragment hg h
      have ih := ih hpassed
      rw [List.append_assoc, List.singleton_append] at ih
      change checkFragments guard' frs = none ↔ _
      rw [ih]
      have hmem : ∀ w, (∃ p, (w, p) ∈ guard') ↔ ∃ p, (w, p) ∈ guard := by
        intro w
        have h₁ : w ∈ guard'.map Prod.fst ↔ w ∈ guard.map Prod.fst := by rw [hmap]
        simpa using h₁
      constructor
      · rintro ⟨⟨w, p⟩, he, hs⟩
        obtain ⟨q, hq⟩ := (hmem w).mp ⟨p, he⟩
        exact ⟨(w, q), hq, hs⟩
      · rintro ⟨⟨w, p⟩, he, hs⟩
        obtain ⟨q, hq⟩ := (hmem w).mpr ⟨p, he⟩
        exact ⟨(w, q), hq, hs⟩

theorem checkFragments_passed {guard guard' : Guard} {frs : List Str} (hg : guard.Passed seen)
    (h : checkFragments guard frs = some guard') :
    guard'.map Prod.fst = guard.map Prod.fst ∧ guard'.Passed (seen ++ frs) := by
  induction frs generalizing guard seen with
  | nil =>
    cases h
    rw [List.append_nil]
    exact ⟨rfl, hg⟩
  | cons fragment frs ih =>
    rw [checkFragments, List.foldlM_cons] at h
    obtain ⟨middle, hm, h⟩ := Option.bind_eq_some_iff.mp h
    obtain ⟨hmap, hpassed⟩ := advanceSecrets_passed fragment hg hm
    obtain ⟨hmap', hpassed'⟩ := ih hpassed h
    rw [List.append_assoc, List.singleton_append] at hpassed'
    exact ⟨hmap'.trans hmap, hpassed'⟩

/-- The guard over a sequence of events, nothing once it has thrown. -/
def Guard.checks (guard : Guard) (events : List Json) : Option Guard :=
  events.foldlM Guard.check guard

/-- The fragments of a sequence of documents. -/
def fragmentsOf (events : List Json) : List Str := events.flatMap fragments

theorem checks_eq_checkFragments (guard : Guard) (events : List Json) :
    guard.checks events = checkFragments guard (fragmentsOf events) := by
  induction events generalizing guard with
  | nil => rfl
  | cons event events ih =>
    have hsplit : checkFragments guard (fragments event ++ fragmentsOf events) =
        (checkFragments guard (fragments event)).bind
          fun g => checkFragments g (fragmentsOf events) := by
      simp [checkFragments, List.foldlM_append]
    rw [Guard.checks, List.foldlM_cons]
    change (checkFragments guard (stringFragments event)).bind (fun g => g.checks events) = _
    rw [stringFragments_eq]
    simp only [ih]
    exact hsplit.symm

theorem passed_initial (credential : Credential) :
    (credentialReflectionGuard credential).Passed [] := by
  intro e he
  obtain ⟨secret, hs, rfl⟩ := List.mem_map.mp he
  exact ⟨tracks_nil secret, not_spelled_nil⟩

theorem fragmentsOf_wire (events : List Json) :
    fragmentsOf (events.map Json.wire) = fragmentsOf events := by
  induction events with
  | nil => rfl
  | cons event events ih =>
    rw [List.map_cons, fragmentsOf, List.flatMap_cons, fragments_wire]
    exact congrArg (fragments event ++ ·) ih

theorem mem_guard_iff {credential : Credential} {guard : Guard} {secret : Str}
    (h : guard.map Prod.fst = (credentialReflectionGuard credential).map Prod.fst) :
    (∃ partials, (secret, partials) ∈ guard) ↔ secret ∈ credentialSecrets credential := by
  have hs : (credentialReflectionGuard credential).map Prod.fst = credentialSecrets credential := by
    simp [credentialReflectionGuard, Function.comp_def]
  have hmem : secret ∈ guard.map Prod.fst ↔ secret ∈ credentialSecrets credential := by rw [h, hs]
  simpa using hmem

/-- The payloads relayed under a guard keep it from spelling a secret. -/
theorem relay_passed (dateParse : Str → Option TimeValue) (now : TimeValue) (api : Str)
    (throws : Bool) (steps : List NativeStep) :
    ∀ (guard : Guard) (seen : List Str) (response : Option NativeResponse) (emitted : Bool),
      guard.Passed seen → ∀ entry ∈ guard, ¬ Spelled entry.1 (seen ++ fragmentsOf
        ((relay dateParse now api throws guard response emitted steps).1.map Response.payload)) := by
  have stop : ∀ (guard : Guard) (seen : List Str), guard.Passed seen →
      ∀ entry ∈ guard, ¬ Spelled entry.1 (seen ++ fragmentsOf []) := by
    intro guard seen hg entry he
    rw [show seen ++ fragmentsOf [] = seen from List.append_nil seen]
    exact (hg entry he).2
  induction steps with
  | nil => intro guard seen response emitted hg; exact stop guard seen hg
  | cons step steps ih =>
    intro guard seen response emitted hg
    rcases step with value | event
    · exact ih guard seen (some value) emitted hg
    rcases event with - | event
    · exact stop guard seen hg
    rw [relay]
    cases hc : guard.check event.wire with
    | none => exact stop guard seen hg
    | some guard' =>
      rw [Guard.check, stringFragments_eq] at hc
      obtain ⟨hmap, hpassed⟩ := checkFragments_passed hg hc
      dsimp only
      split
      · exact stop guard seen hg
      · intro entry he
        have hmem : entry.1 ∈ guard'.map Prod.fst := by
          rw [hmap]
          exact List.mem_map_of_mem he
        obtain ⟨entry', he', heq⟩ := List.mem_map.mp hmem
        have h := ih guard' _ response true hpassed entry' he'
        rw [heq, List.append_assoc] at h
        exact h

/-- The guard throws at an event exactly when the fragments up to it spell a secret, and so the
responses yielded at any moment spell none. -/
theorem credential_reflection_exact (credential : Credential) :
    (∀ (events : List Json) (event : Json) (guard : Guard),
      (credentialReflectionGuard credential).checks (events.map Json.wire) = some guard →
        (guard.check event.wire = none ↔ ∃ secret ∈ credentialSecrets credential,
          Spelled secret (fragmentsOf (events ++ [event])))) ∧
    (∀ dateParse now timestampFromDate streamers api payload (yielded : List Response),
      yielded <+: (dispatch dateParse now timestampFromDate streamers api payload credential).1 →
        ∀ secret ∈ credentialSecrets credential,
          ¬ Spelled secret (fragmentsOf (yielded.map Response.payload))) := by
  constructor
  · intro events event guard h
    rw [checks_eq_checkFragments, fragmentsOf_wire] at h
    obtain ⟨hmap, hpassed⟩ := checkFragments_passed (passed_initial credential) h
    rw [List.nil_append] at hpassed
    rw [Guard.check, stringFragments_eq, checkFragments_eq_none hpassed, fragments_wire]
    have hfr : fragmentsOf (events ++ [event]) = fragmentsOf events ++ fragments event := by
      simp [fragmentsOf]
    rw [hfr]
    constructor
    · rintro ⟨⟨secret, partials⟩, he, hs⟩
      exact ⟨secret, (mem_guard_iff hmap).mp ⟨partials, he⟩, hs⟩
    · rintro ⟨secret, hsec, hs⟩
      obtain ⟨partials, he⟩ := (mem_guard_iff hmap).mpr hsec
      exact ⟨(secret, partials), he, hs⟩
  · intro dateParse now timestampFromDate streamers api payload yielded hy secret hsec hs
    obtain ⟨partials, he⟩ := (mem_guard_iff
      (rfl : (credentialReflectionGuard credential).map Prod.fst = _)).mpr hsec
    have hsub : (fragmentsOf (yielded.map Response.payload)).Sublist (fragmentsOf
        ((dispatch dateParse now timestampFromDate streamers api payload credential).1.map
          Response.payload)) := by
      obtain ⟨rest, hrest⟩ := hy
      rw [← hrest, List.map_append, fragmentsOf, fragmentsOf, List.flatMap_append]
      exact List.sublist_append_left _ _
    replace hs := hs.mono hsub
    unfold dispatch at hs
    split at hs
    · exact not_spelled_nil hs
    · split at hs
      · exact not_spelled_nil hs
      · exact relay_passed dateParse now api _ _ (credentialReflectionGuard credential) [] none false
          (passed_initial credential) (secret, partials) he hs

/-- The secret `abcab` split over three events. -/
theorem credential_reflection_exact_split :
    (credentialReflectionGuard ⟨some (lit "abcab"), none⟩).checks
        ([Json.str (lit "xab"), Json.str (lit "c")].map Json.wire) =
      some [(lit "abcab", [2, 3])] ∧
    Guard.check [(lit "abcab", [2, 3])] (Json.str (lit "abx")).wire = none := by
  have h : (credentialReflectionGuard ⟨some (lit "abcab"), none⟩).checks
      ([Json.str (lit "xab"), Json.str (lit "c")].map Json.wire) =
        some [(lit "abcab", [2, 3])] := by
    rw [checks_eq_checkFragments]
    decide +kernel
  refine ⟨h, ((credential_reflection_exact ⟨some (lit "abcab"), none⟩).1 _ _ _ h).mpr ?_⟩
  refine ⟨lit "abcab", by decide +kernel, .inr ⟨lit "xab", [lit "c"], lit "abx", lit "ab",
    lit "ab", ?_⟩⟩
  decide +kernel

end Cyclo.Gateway
