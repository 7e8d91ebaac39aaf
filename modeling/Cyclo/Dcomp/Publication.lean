import Cyclo.Dcomp.Materializer
import Mathlib.Algebra.Order.BigOperators.Group.List

/-! What the operations of the materializer do to the root, and what holds along its steps. -/
namespace Cyclo.Dcomp
open Python Process

namespace Root

theorem entry_update (entries : AList fun _ : String => Entry) (name : String) (entry : Entry) :
    (fun k => (entries.insert name entry).lookup k) =
      Function.update (fun k => entries.lookup k) name (some entry) := by
  funext k
  by_cases hk : k = name
  · rw [hk, Function.update_self, AList.lookup_insert]
  · rw [Function.update_of_ne hk, AList.lookup_insert_ne hk]

theorem entry_erase (entries : AList fun _ : String => Entry) (name : String) :
    (fun k => (entries.erase name).lookup k) =
      Function.update (fun k => entries.lookup k) name none := by
  funext k
  by_cases hk : k = name
  · rw [hk, Function.update_self, AList.lookup_erase]
  · rw [Function.update_of_ne hk, AList.lookup_erase_ne hk]

/-- The root and `descriptors/` exist. -/
structure Ready (root : Root) : Prop where
  made : root.made = true
  descriptors : root.descriptors.isSome = true

/-- The root `t` is `s` with another entry under `name`, or with none. -/
structure Becomes (s : Root) (name : String) (entry : Option Entry) (t : Root) : Prop where
  entries : t.entry = Function.update s.entry name entry
  selected : t.selected = s.selected
  staged : t.staged = s.staged
  ready : s.Ready → t.Ready

theorem Becomes.trans {s t u : Root} {name : String} {x y : Option Entry}
    (h : Becomes s name x t) (h' : Becomes t name y u) : Becomes s name y u where
  entries := by rw [h'.entries, h.entries, Function.update_idem]
  selected := h'.selected.trans h.selected
  staged := h'.staged.trans h.staged
  ready hs := h'.ready (h.ready hs)

theorem Becomes.entry_self {s t : Root} {name : String} {x : Option Entry}
    (h : Becomes s name x t) : t.entry name = x := by
  rw [h.entries, Function.update_self]

theorem Becomes.entry_ne {s t : Root} {name k : String} {x : Option Entry}
    (h : Becomes s name x t) (hk : k ≠ name) : t.entry k = s.entry k := by
  rw [h.entries, Function.update_of_ne hk]

theorem setEntry_becomes {s t : Root} {name : String} {entry : Entry}
    (h : s.setEntry name entry = some t) : Becomes s name (some entry) t := by
  obtain ⟨entries, hentries, rfl⟩ := Option.map_eq_some_iff.mp h
  constructor
  · funext k
    have hs : s.entry = fun k => entries.lookup k := by
      funext k
      rw [Root.entry, hentries]
      rfl
    rw [hs, ← entry_update]
    rfl
  · rfl
  · rfl
  · intro hs
    exact ⟨hs.made, rfl⟩

theorem removeEntry_becomes {s t : Root} {name : String} (h : s.removeEntry name = some t) :
    Becomes s name none t := by
  obtain ⟨entries, hentries, rfl⟩ := Option.map_eq_some_iff.mp h
  constructor
  · funext k
    have hs : s.entry = fun k => entries.lookup k := by
      funext k
      rw [Root.entry, hentries]
      rfl
    rw [hs, ← entry_erase]
    rfl
  · rfl
  · rfl
  · intro hs
    exact ⟨hs.made, rfl⟩

theorem Ready.setEntry {s : Root} (h : s.Ready) (name : String) (entry : Entry) :
    ∃ t, s.setEntry name entry = some t := by
  obtain ⟨entries, hentries⟩ := Option.isSome_iff_exists.mp h.descriptors
  rw [Root.setEntry, hentries]
  exact ⟨_, rfl⟩

theorem Ready.removeEntry {s : Root} (h : s.Ready) (name : String) :
    ∃ t, s.removeEntry name = some t := by
  obtain ⟨entries, hentries⟩ := Option.isSome_iff_exists.mp h.descriptors
  rw [Root.removeEntry, hentries]
  exact ⟨_, rfl⟩

/-- The entries are the same, and so is the selected file. -/
structure Same (s t : Root) : Prop where
  entries : t.entry = s.entry
  selected : t.selected = s.selected
  ready : s.Ready → t.Ready

theorem Same.trans {s t u : Root} (h : Same s t) (h' : Same t u) : Same s u where
  entries := h'.entries.trans h.entries
  selected := h'.selected.trans h.selected
  ready hs := h'.ready (h.ready hs)

end Root

/-- A descriptor with its content. -/
def published (content : Bytes) : Entry := .directory [(manifestName, .file content)]

/-- A directory that the materializer made: empty, or with its one file. -/
def Generated (entry : Entry) : Prop :=
  entry = .directory [] ∨ ∃ content, entry = published content

theorem makeDirectory_becomes {s t : Root} {name : String}
    (h : (Change.makeDirectory name).apply s = some t) :
    s.entry name = none ∧ s.Becomes name (some (.directory [])) t := by
  rw [Change.apply] at h
  split_ifs at h with hnone
  exact ⟨hnone, Root.setEntry_becomes h⟩

theorem createManifest_becomes {s : Root} {name : String} (hs : s.Ready)
    (hentry : s.entry name = some (.directory [])) :
    ∃ t, (Change.createManifest name).apply s = some t ∧
      s.Becomes name (some (published [])) t := by
  obtain ⟨t, ht⟩ := hs.setEntry name (published [])
  refine ⟨t, ?_, Root.setEntry_becomes ht⟩
  rw [Change.apply, hentry]
  exact ht

theorem appendManifest_becomes {s : Root} {name : String} {content : Bytes} (byte : UInt8)
    (hs : s.Ready) (hentry : s.entry name = some (published content)) :
    ∃ t, (Change.appendManifest name byte).apply s = some t ∧
      s.Becomes name (some (published (content ++ [byte]))) t := by
  obtain ⟨t, ht⟩ := hs.setEntry name (published (content ++ [byte]))
  refine ⟨t, ?_, Root.setEntry_becomes ht⟩
  rw [Change.apply, hentry]
  exact ht

theorem unlinkManifest_becomes {s : Root} {name : String} {content : Bytes} (hs : s.Ready)
    (hentry : s.entry name = some (published content)) :
    ∃ t, (Change.unlinkManifest name).apply s = some t ∧
      s.Becomes name (some (.directory [])) t := by
  obtain ⟨t, ht⟩ := hs.setEntry name (.directory [])
  refine ⟨t, ?_, Root.setEntry_becomes ht⟩
  rw [Change.apply, hentry]
  exact ht

theorem removeDirectory_becomes {s : Root} {name : String} (hs : s.Ready)
    (hentry : s.entry name = some (.directory [])) :
    ∃ t, (Change.removeDirectory name).apply s = some t ∧ s.Becomes name none t := by
  obtain ⟨t, ht⟩ := hs.removeEntry name
  refine ⟨t, ?_, Root.removeEntry_becomes ht⟩
  rw [Change.apply, if_pos hentry]
  exact ht

theorem renameDirectory_becomes {s : Root} {source target : String} {content : Bytes}
    (hs : s.Ready) (hsource : s.entry source = some (published content))
    (htarget : s.entry target = none) :
    ∃ t u, (Change.renameDirectory source target).apply s = some u ∧
      s.Becomes source none t ∧ t.Becomes target (some (published content)) u := by
  obtain ⟨t, ht⟩ := hs.removeEntry source
  have hbecomes := Root.removeEntry_becomes ht
  obtain ⟨u, hu⟩ := (hbecomes.ready hs).setEntry target (published content)
  refine ⟨t, u, ?_, hbecomes, Root.setEntry_becomes hu⟩
  rw [Change.apply, hsource]
  change (if s.entry target = none ∨ s.entry target = some (.directory []) then _ else _) = _
  rw [if_pos (.inl htarget), ht]
  exact hu

theorem makeRoot_same (s : Root) : s.Same { s with made := true } where
  entries := rfl
  selected := rfl
  ready hs := ⟨rfl, hs.descriptors⟩

theorem makeDescriptors_same {s : Root} (hmade : s.made = true) :
    ∃ t, Change.makeDescriptors.apply s = some t ∧ s.Same t ∧ t.Ready := by
  refine ⟨{ s with descriptors := some (s.descriptors.getD ∅) }, ?_, ⟨?_, rfl, ?_⟩, ⟨hmade, rfl⟩⟩
  · rw [Change.apply, if_pos hmade]
  · funext k
    unfold Root.entry
    cases s.descriptors with
    | none => rfl
    | some entries => rfl
  · exact fun _ => ⟨hmade, rfl⟩

/-- The changes of temporary files leave every entry and the selected file alone. -/
theorem staged_same {s t : Root} {change : Change}
    (hchange : ∃ name, change = .createStaged name ∨ (∃ byte, change = .appendStaged name byte) ∨
      change = .unlinkStaged name) (h : change.apply s = some t) : s.Same t := by
  obtain ⟨name, rfl | ⟨byte, rfl⟩ | rfl⟩ := hchange
  · rw [Change.apply] at h
    split_ifs at h
    cases h
    exact ⟨rfl, rfl, fun hs => ⟨hs.made, hs.descriptors⟩⟩
  · obtain ⟨content, -, rfl⟩ := Option.map_eq_some_iff.mp h
    exact ⟨rfl, rfl, fun hs => ⟨hs.made, hs.descriptors⟩⟩
  · obtain ⟨content, -, rfl⟩ := Option.map_eq_some_iff.mp h
    exact ⟨rfl, rfl, fun hs => ⟨hs.made, hs.descriptors⟩⟩

theorem exists_fresh (s : Root) : ∃ suffix, s.Fresh suffix := by
  let names := ((s.descriptors.map AList.keys).getD []) ++ s.staged.keys
  have hunused : ∀ name, temporaryName name (unusedSuffix names) ∉ names := fun name =>
    append_unusedSuffix_notMem ("." ++ name ++ ".tmp.") names
  refine ⟨unusedSuffix names, fun name => ⟨?_, ?_⟩⟩
  · have hentry := hunused name
    unfold Root.entry
    cases hdescriptors : s.descriptors with
    | none => rfl
    | some entries =>
      rw [Option.bind_some, AList.lookup_eq_none, AList.mem_keys]
      intro hmem
      refine hentry (List.mem_append_left _ ?_)
      rw [hdescriptors]
      exact hmem
  · rw [AList.lookup_eq_none, AList.mem_keys]
    intro hmem
    exact hunused name (List.mem_append_right _ hmem)

theorem exists_lists {s : Root} (hs : s.Ready) : ∃ names, s.Lists names := by
  obtain ⟨entries, hentries⟩ := Option.isSome_iff_exists.mp hs.descriptors
  refine ⟨entries.keys, entries.keys_nodup, fun name => ?_⟩
  rw [Root.entry, hentries, Option.bind_some, AList.lookup_isSome, AList.mem_keys]

end Cyclo.Dcomp
