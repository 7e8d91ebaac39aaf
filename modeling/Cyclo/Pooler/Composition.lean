import Cyclo.Pooler.Catalogue

/-! What a composed catalogue consists of: the upstream models, and for every pool one virtual model
that stands for all its members. -/
namespace Cyclo.Pooler
open Js Protocol

section
variable {C E : Type} [DecidableEq C] [DecidableEq E] {models : List (Model C E)} {config : Config}
  {componentName : Str} {index : Index C E}

omit [DecidableEq C] [DecidableEq E] in
/-- The index lists the models under their identifiers, each identifier once. -/
theorem indexModels_eq_ok {index' : Index C E} (h : indexModels models index = .ok index')
    (hnodup : (index.map Prod.fst).Nodup) :
    index' = index ++ models.map (fun model => (model.id, model)) ∧ (index'.map Prod.fst).Nodup ∧
      ∀ model ∈ models, (splitPublicModelId model.id).isSome = true := by
  induction models generalizing index with
  | nil =>
    cases h
    exact ⟨(List.append_nil _).symm, hnodup, List.forall_mem_nil _⟩
  | cons model models ih =>
    unfold indexModels at h
    split_ifs at h with hvalid hknown
    have hfresh : model.id ∉ index.map Prod.fst := by
      intro hmem
      obtain ⟨entry, hentry, hid⟩ := List.mem_map.mp hmem
      rw [Bool.not_eq_true, Option.isSome_eq_false_iff, Option.isNone_iff_eq_none,
        List.lookup_eq_none_iff] at hknown
      exact absurd hid.symm (bne_iff_ne.mp (hknown entry hentry))
    have hnodup' : ((index ++ [(model.id, model)]).map Prod.fst).Nodup := by
      rw [List.map_append, List.map_singleton, List.nodup_append]
      refine ⟨hnodup, List.nodup_singleton _, ?_⟩
      intro a ha b hb hab
      rw [hab, List.mem_singleton.mp hb] at ha
      exact hfresh ha
    obtain ⟨hindex, hkeys, hmodels⟩ := ih h hnodup'
    refine ⟨?_, hkeys, List.forall_mem_cons.mpr ⟨?_, hmodels⟩⟩
    · rw [hindex, List.append_assoc, List.map_cons, List.singleton_append]
    · rw [Bool.not_eq_true, Option.isNone_eq_false_iff] at hvalid
      exact hvalid

/-- The identifiers of the models that are listed. -/
def modelIds (models : List (Model C E)) : List Str := models.map Model.id

/-- An index of a list of models. -/
structure Indexes (index : Index C E) (models : List (Model C E)) : Prop where
  entries : index = models.map fun model => (model.id, model)
  nodup : (modelIds models).Nodup
  valid : ∀ model ∈ models, (splitPublicModelId model.id).isSome = true

omit [DecidableEq C] [DecidableEq E] in
theorem indexes_of_indexModels (h : indexModels models [] = .ok index) : Indexes index models := by
  obtain ⟨hindex, hnodup, hvalid⟩ := indexModels_eq_ok h List.nodup_nil
  rw [List.nil_append] at hindex
  refine ⟨hindex, ?_, hvalid⟩
  rw [hindex, List.map_map] at hnodup
  exact hnodup

namespace Indexes
variable {id provider name : Str} {model : Model C E}

omit [DecidableEq C] [DecidableEq E] in
theorem eq_of_id (h : Indexes index models) {other : Model C E} (hm : model ∈ models)
    (ho : other ∈ models) (hid : model.id = other.id) : model = other :=
  List.inj_on_of_nodup_map h.nodup hm ho hid

omit [DecidableEq C] [DecidableEq E] in
theorem lookup_eq_some (h : Indexes index models) :
    index.lookup id = some model ↔ model ∈ models ∧ model.id = id := by
  constructor
  · intro hl
    have hmem := mem_of_lookup hl
    rw [h.entries] at hmem
    obtain ⟨found, hfound, heq⟩ := List.mem_map.mp hmem
    cases heq
    exact ⟨hfound, rfl⟩
  · intro hm
    cases hl : index.lookup id with
    | none =>
      rw [List.lookup_eq_none_iff, h.entries] at hl
      have hne := hl (model.id, model) (List.mem_map_of_mem hm.1)
      exact absurd hm.2.symm (bne_iff_ne.mp hne)
    | some found =>
      have hmem := mem_of_lookup hl
      rw [h.entries] at hmem
      obtain ⟨other, hother, heq⟩ := List.mem_map.mp hmem
      cases heq
      rw [h.eq_of_id hother hm.1 hm.2.symm]

omit [DecidableEq C] [DecidableEq E] in
theorem not_mem_ids (h : Indexes index models) (hl : (index.lookup id).isSome = false) :
    id ∉ modelIds models := by
  intro hmem
  obtain ⟨found, hfound, hid⟩ := List.mem_map.mp hmem
  rw [h.lookup_eq_some.mpr ⟨hfound, hid⟩] at hl
  cases hl

omit [DecidableEq C] [DecidableEq E] in
/-- The parts of the identifier of an indexed model. -/
theorem parts (h : Indexes index models) (hm : model ∈ models)
    (hprovider : isProviderPrefix provider = true) :
    modelProvider model.id = provider ∧ localModel model.id = name ↔
      model.id = provider ++ 0x2f :: name := by
  obtain ⟨first, second, hsplit, -, -⟩ := isSome_splitPublicModelId (h.valid model hm)
  unfold modelProvider localModel
  rw [hsplit]
  constructor
  · intro hparts
    rw [← hparts.1, ← hparts.2]
    exact splitAtSlash_eq_some hsplit
  · intro hid
    rw [hid, splitAtSlash_append (slash_not_mem hprovider)] at hsplit
    cases hsplit
    exact ⟨rfl, rfl⟩

omit [DecidableEq C] [DecidableEq E] in
theorem providerModel_eq_some (h : Indexes index models)
    (hprovider : isProviderPrefix provider = true) :
    providerModel index provider name = some model ↔
      model ∈ models ∧ model.id = provider ++ 0x2f :: name := by
  unfold providerModel
  rw [h.entries, List.find?_map, Option.map_map, Option.map_eq_some_iff]
  constructor
  · intro hfound
    obtain ⟨found, hfound, rfl⟩ := hfound
    have hmem := List.mem_of_find?_eq_some hfound
    have hparts := List.find?_some hfound
    exact ⟨hmem, (h.parts hmem hprovider).mp (of_decide_eq_true hparts)⟩
  · intro hm
    have hparts := (h.parts hm.1 hprovider).mpr hm.2
    cases hfind : models.find? ((fun entry : Str × Model C E => decide (modelProvider entry.1 =
        provider ∧ localModel entry.1 = name)) ∘ fun model => (model.id, model)) with
    | none =>
      rw [List.find?_eq_none] at hfind
      exact absurd (decide_eq_true hparts) (hfind model hm.1)
    | some found =>
      have hmem := List.mem_of_find?_eq_some hfind
      have hparts' := List.find?_some hfind
      have hfound := (h.parts hmem hprovider).mp (of_decide_eq_true hparts')
      exact ⟨found, rfl, h.eq_of_id hmem hm.1 (hfound.trans hm.2.symm)⟩

end Indexes

/-- A loop whose body only checks has checked every value. -/
theorem forIn_eq_ok {ε α : Type} {P : α → Prop}
    {f : α → PUnit.{1} → Except ε (ForInStep PUnit.{1})}
    {values : List α} {result : PUnit.{1}}
    (hf : ∀ a step, f a ⟨⟩ = .ok step → P a ∧ step = .yield ⟨⟩)
    (h : forIn values PUnit.unit f = .ok result) : ∀ a ∈ values, P a := by
  induction values with
  | nil => exact List.forall_mem_nil _
  | cons a values ih =>
    rw [List.forIn_cons] at h
    obtain ⟨step, hstep, h⟩ := bind_eq_ok.mp h
    obtain ⟨ha, rfl⟩ := hf a step hstep
    exact List.forall_mem_cons.mpr ⟨ha, ih h⟩

/-- What a virtual model says about the members it stands for. -/
structure Stands (pool : ComposedPool C E) : Prop where
  ids : pool.memberModelIds = modelIds pool.members
  same : ∀ member ∈ pool.members, member.inferenceFormat = pool.virtualModel.inferenceFormat ∧
    member.capabilities = pool.virtualModel.capabilities ∧
    member.extensions = pool.virtualModel.extensions
  contextWindow : ∀ member ∈ pool.members,
    pool.virtualModel.contextWindowTokens ≤ member.contextWindowTokens
  contextWindowReached : ∃ member ∈ pool.members,
    member.contextWindowTokens = pool.virtualModel.contextWindowTokens
  maxOutput : ∀ member ∈ pool.members,
    pool.virtualModel.maxOutputTokens ≤ member.maxOutputTokens
  maxOutputReached : ∃ member ∈ pool.members,
    member.maxOutputTokens = pool.virtualModel.maxOutputTokens

omit [DecidableEq C] [DecidableEq E] in
/-- `minimum(models, field)` -/
theorem foldl_min (field : Model C E → ℕ) (reference : Model C E) (others : List (Model C E)) :
    (∀ member ∈ reference :: others,
      others.foldl (fun least model => min (field model) least) (field reference) ≤ field member) ∧
    ∃ member ∈ reference :: others, field member =
      others.foldl (fun least model => min (field model) least) (field reference) := by
  induction others using List.reverseRecOn with
  | nil => exact ⟨List.forall_mem_singleton.mpr le_rfl, reference, List.mem_cons_self, rfl⟩
  | append_singleton others model ih =>
    obtain ⟨hle, member, hmember, heq⟩ := ih
    rw [List.foldl_append, List.foldl_cons, List.foldl_nil, ← List.cons_append,
      List.forall_mem_append, List.forall_mem_singleton]
    refine ⟨⟨fun other hother => le_trans (min_le_right _ _) (hle other hother),
      min_le_left _ _⟩, ?_⟩
    rcases min_choice (field model)
      (others.foldl (fun least model => min (field model) least) (field reference)) with hmin | hmin
    · exact ⟨model, List.mem_append_right _ (List.mem_singleton_self _), hmin.symm⟩
    · exact ⟨member, List.mem_append_left _ hmember, heq.trans hmin.symm⟩

theorem stands_of_composePool {outputId : Str} {members : List (Model C E)} {pool : ComposedPool C E}
    (h : composePool outputId members = .ok pool) : Stands pool := by
  cases members with
  | nil => cases h
  | cons reference others =>
    obtain ⟨-, -, h⟩ := bind_eq_ok.mp h
    obtain ⟨_, hsame, h⟩ := bind_eq_ok.mp h
    have hagree : ∀ model ∈ others, model.inferenceFormat = reference.inferenceFormat ∧
        model.capabilities = reference.capabilities ∧ model.extensions = reference.extensions := by
      refine forIn_eq_ok (fun model step hstep => ?_) hsame
      dsimp only at hstep
      by_cases hformat : model.inferenceFormat = reference.inferenceFormat
      · by_cases hcapabilities : model.capabilities = reference.capabilities
        · by_cases hextensions : model.extensions = reference.extensions
          · rw [if_neg (not_not.mpr hformat), if_neg (not_not.mpr hcapabilities),
              if_neg (not_not.mpr hextensions)] at hstep
            cases hstep
            exact ⟨⟨hformat, hcapabilities, hextensions⟩, rfl⟩
          · rw [if_neg (not_not.mpr hformat), if_neg (not_not.mpr hcapabilities),
              if_pos hextensions] at hstep
            cases hstep
        · rw [if_neg (not_not.mpr hformat), if_pos hcapabilities] at hstep
          cases hstep
      · rw [if_pos hformat] at hstep
        cases hstep
    cases h
    obtain ⟨hwindow, hwindow'⟩ := foldl_min Model.contextWindowTokens reference others
    obtain ⟨houtput, houtput'⟩ := foldl_min Model.maxOutputTokens reference others
    exact ⟨rfl, List.forall_mem_cons.mpr ⟨⟨rfl, rfl, rfl⟩, hagree⟩, hwindow, hwindow', houtput,
      houtput'⟩

/-- The members that the providers offer under a local name. -/
def sharedMembers (index : Index C E) (memberProviders : List Str) (name : Str) : List (Model C E) :=
  memberProviders.filterMap fun provider => providerModel index provider name

/-- How a pool came about. -/
structure Composed.From (index : Index C E) (members : List (Model C E)) (componentName name : Str)
    (pool : ComposedPool C E) : Prop where
  id : outputModelId componentName name = .ok pool.virtualModel.id
  fresh : (index.lookup pool.virtualModel.id).isSome = false
  pool : composePool pool.virtualModel.id members = .ok pool

theorem sharedPools_eq_ok {memberProviders names : List Str} {pools : List (ComposedPool C E)}
    (h : sharedPools index memberProviders componentName names = .ok pools) :
    List.Forall₂ (fun name pool =>
        Composed.From index (sharedMembers index memberProviders name) componentName name pool)
      (names.filter fun name => 2 ≤ (sharedMembers index memberProviders name).length) pools := by
  induction names generalizing pools with
  | nil =>
    cases h
    exact .nil
  | cons name names ih =>
    unfold sharedPools at h
    dsimp only at h
    split_ifs at h with hfew
    · rw [List.filter_cons_of_neg]
      · exact ih h
      · have hshort : (sharedMembers index memberProviders name).length < 2 := hfew
        simpa using hshort
    · obtain ⟨outputId, hid, h⟩ := bind_eq_ok.mp h
      split_ifs at h with hknown
      · cases h
      · obtain ⟨pool, hpool, h⟩ := bind_eq_ok.mp h
        obtain ⟨rest, hrest, h⟩ := bind_eq_ok.mp h
        cases h
        have hvirtual := (composePool_eq_ok hpool).1
        rw [List.filter_cons_of_pos]
        · rw [← hvirtual] at hid hpool hknown
          exact .cons ⟨hid, Bool.eq_false_of_not_eq_true hknown, hpool⟩ (ih hrest)
        · have hlong : 2 ≤ (sharedMembers index memberProviders name).length := not_lt.mp hfew
          exact decide_eq_true hlong

omit [DecidableEq C] [DecidableEq E] in
theorem outputModelId_eq_ok {outputModel id : Str}
    (h : outputModelId componentName outputModel = .ok id) :
    id = componentName ++ 0x2f :: outputModel := by
  unfold outputModelId at h
  dsimp only at h
  split_ifs at h
  cases h
  rw [List.append_assoc]
  rfl

theorem nodup_eraseDups {α : Type} [BEq α] [LawfulBEq α] (l : List α) : l.eraseDups.Nodup := by
  induction hn : l.length using Nat.strong_induction_on generalizing l with
  | _ n ih =>
    cases l with
    | nil => exact List.nodup_nil
    | cons a l =>
      rw [List.eraseDups_cons, List.nodup_cons, List.mem_eraseDups]
      refine ⟨fun hmem => ?_, ih _ ?_ _ rfl⟩
      · have hne := (List.mem_filter.mp hmem).2
        simp at hne
      · have hle := List.length_filter_le (fun b => !b == a) l
        rw [List.length_cons] at hn
        omega

/-- Whether a provider offers a model under a local name. -/
def offers (models : List (Model C E)) (name provider : Str) : Bool :=
  provider ++ 0x2f :: name ∈ modelIds models

omit [DecidableEq C] [DecidableEq E] in
/-- The members under a local name: one for every provider that offers it, in the order of the
providers. -/
theorem modelIds_sharedMembers (hindex : Indexes index models) {memberProviders : List Str}
    (hproviders : ∀ provider ∈ memberProviders, isProviderPrefix provider = true) (name : Str) :
    modelIds (sharedMembers index memberProviders name) =
      (memberProviders.filter (offers models name)).map fun provider => provider ++ 0x2f :: name := by
  unfold modelIds sharedMembers
  induction memberProviders with
  | nil => rfl
  | cons provider memberProviders ih =>
    rw [List.forall_mem_cons] at hproviders
    cases hmodel : providerModel index provider name with
    | none =>
      have hno : offers models name provider = false := by
        rw [offers, decide_eq_false_iff_not]
        intro hmem
        obtain ⟨model, hm, hid⟩ := List.mem_map.mp hmem
        rw [(hindex.providerModel_eq_some hproviders.1).mpr ⟨hm, hid⟩] at hmodel
        cases hmodel
      rw [List.filterMap_cons, hmodel, List.filter_cons_of_neg (by simp [hno])]
      exact ih hproviders.2
    | some model =>
      obtain ⟨hm, hid⟩ := (hindex.providerModel_eq_some hproviders.1).mp hmodel
      have hyes : offers models name provider = true :=
        decide_eq_true (hid ▸ List.mem_map_of_mem hm)
      rw [List.filterMap_cons, hmodel, List.filter_cons_of_pos hyes, List.map_cons, List.map_cons,
        ih hproviders.2, hid]

omit [DecidableEq C] [DecidableEq E] in
theorem sharedMembers_subset (hindex : Indexes index models) {memberProviders : List Str}
    (hproviders : ∀ provider ∈ memberProviders, isProviderPrefix provider = true) (name : Str) :
    ∀ member ∈ sharedMembers index memberProviders name, member ∈ models := by
  intro member hmember
  obtain ⟨provider, hprovider, hmodel⟩ := List.mem_filterMap.mp hmember
  exact ((hindex.providerModel_eq_some (hproviders provider hprovider)).mp hmodel).1

/-- What a composed catalogue publishes. -/
structure Composes (models : List (Model C E)) (config : Config) (componentName : Str)
    (resolved : Composed C E) : Prop where
  distinct : (modelIds resolved.models).Nodup
  listed : resolved.models = models ++ resolved.pools.map ComposedPool.virtualModel
  stands : ∀ pool ∈ resolved.pools, Stands pool
  members : ∀ pool ∈ resolved.pools, 2 ≤ pool.members.length ∧ (modelIds pool.members).Nodup ∧
    ∀ member ∈ pool.members, member ∈ models
  fresh : ∀ pool ∈ resolved.pools, pool.virtualModel.id ∉ modelIds models
  shared : ∀ providers, config.memberProviders = some providers →
    (∀ name, (∃ pool ∈ resolved.pools, pool.virtualModel.id = componentName ++ 0x2f :: name) ↔
      2 ≤ (providers.filter (offers models name)).length) ∧
    ∀ pool ∈ resolved.pools, ∃ name, pool.virtualModel.id = componentName ++ 0x2f :: name ∧
      pool.memberModelIds =
        (providers.filter (offers models name)).map fun provider => provider ++ 0x2f :: name
  explicit : ∀ memberModelIds outputModel, config.memberModelIds = some memberModelIds →
    config.outputModel = some outputModel → ∃ pool, resolved.pools = [pool] ∧
      pool.virtualModel.id = componentName ++ 0x2f :: outputModel ∧
      pool.memberModelIds = memberModelIds

omit [DecidableEq C] [DecidableEq E] in
theorem exactMembers_subset (hindex : Indexes index models) {memberModelIds : List Str}
    {members : List (Model C E)} (h : exactMembers index memberModelIds = .ok members) :
    ∀ member ∈ members, member ∈ models := by
  induction memberModelIds generalizing members with
  | nil =>
    cases h
    exact List.forall_mem_nil _
  | cons id memberModelIds ih =>
    unfold exactMembers at h
    split at h
    · cases h
    · rename_i model hmodel
      cases hrest : exactMembers index memberModelIds with
      | error e =>
        rw [hrest] at h
        cases h
      | ok rest =>
        rw [hrest] at h
        cases h
        exact List.forall_mem_cons.mpr ⟨(hindex.lookup_eq_some.mp hmodel).1, ih hrest⟩

omit [DecidableEq C] [DecidableEq E] in
/-- Distinct virtual models that no upstream model is called like keep the catalogue distinct. -/
theorem nodup_models (hindex : Indexes index models) {pools : List (ComposedPool C E)}
    (hfresh : ∀ pool ∈ pools, pool.virtualModel.id ∉ modelIds models)
    (hnodup : (pools.map fun pool => pool.virtualModel.id).Nodup) :
    (modelIds (models ++ pools.map ComposedPool.virtualModel)).Nodup := by
  unfold modelIds
  rw [List.map_append, List.map_map, List.nodup_append]
  refine ⟨hindex.nodup, hnodup, ?_⟩
  intro a ha b hb hab
  obtain ⟨pool, hpool, hid⟩ := List.mem_map.mp hb
  rw [hab, ← hid] at ha
  exact hfresh pool hpool ha

/-- The pools of a provider-wide configuration. -/
theorem providerWidePools_eq_ok (hindex : Indexes index models) {providers : List Str}
    (hproviders : ∀ provider ∈ providers, isProviderPrefix provider = true)
    {pools : List (ComposedPool C E)}
    (h : providerWidePools index providers componentName = .ok pools) :
    ∃ names : List Str, names.Nodup ∧
      (∀ name, name ∈ names ↔ 2 ≤ (providers.filter (offers models name)).length) ∧
      List.Forall₂ (fun name pool =>
        Composed.From index (sharedMembers index providers name) componentName name pool) names
        pools := by
  unfold providerWidePools at h
  obtain ⟨_, -, h⟩ := bind_eq_ok.mp h
  obtain ⟨found, hfound, h⟩ := bind_eq_ok.mp h
  split_ifs at h
  · cases h
  · cases h
    have hcount : ∀ name, (sharedMembers index providers name).length =
        (providers.filter (offers models name)).length := by
      intro name
      have hlength := congrArg List.length (modelIds_sharedMembers hindex hproviders name)
      rw [modelIds, List.length_map, List.length_map] at hlength
      exact hlength
    refine ⟨_, (nodup_eraseDups _).filter _, fun name => ?_, sharedPools_eq_ok hfound⟩
    rw [List.mem_filter, decide_eq_true_iff, hcount, List.mem_eraseDups, and_iff_right_iff_imp]
    intro htwo
    -- a model that is offered is selected, and files its local name
    obtain ⟨provider, hprovider⟩ := List.exists_mem_of_length_pos (lt_of_lt_of_le Nat.zero_lt_two htwo)
    obtain ⟨hmem, hoffers⟩ := List.mem_filter.mp hprovider
    obtain ⟨model, hmodel, hid⟩ := List.mem_map.mp (of_decide_eq_true hoffers)
    obtain ⟨ hprefix, hlocal⟩ := (hindex.parts hmodel (hproviders provider hmem)).mpr hid
    refine List.mem_map.mpr ⟨(model.id, model), List.mem_filter.mpr ⟨?_, ?_⟩, hlocal⟩
    · rw [hindex.entries]
      exact List.mem_map_of_mem hmodel
    · rw [decide_eq_true_iff, hprefix]
      exact hmem

theorem composes_providers (hindex : Indexes index models) {providers : List Str}
    (hmodels : config.memberModelIds = none) (hconfig : config.memberProviders = some providers)
    (hnodup : providers.Nodup)
    (hproviders : ∀ provider ∈ providers, isProviderPrefix provider = true)
    {pools : List (ComposedPool C E)}
    (h : providerWidePools index providers componentName = .ok pools) :
    Composes models config componentName ⟨models ++ pools.map ComposedPool.virtualModel, pools⟩ := by
  obtain ⟨names, hnames, hshared, hpools⟩ := providerWidePools_eq_ok hindex hproviders h
  have hfrom : ∀ pool ∈ pools, ∃ name ∈ names,
      Composed.From index (sharedMembers index providers name) componentName name pool :=
    (mem_of_forall₂ hpools).1
  have hfresh : ∀ pool ∈ pools, pool.virtualModel.id ∉ modelIds models := by
    intro pool hpool
    obtain ⟨name, -, hname⟩ := hfrom pool hpool
    exact hindex.not_mem_ids hname.fresh
  have hids : (pools.map fun pool => pool.virtualModel.id) =
      names.map fun name => componentName ++ 0x2f :: name := by
    have hmap : List.Forall₂ (fun name pool => componentName ++ 0x2f :: name =
        pool.virtualModel.id) names pools :=
      hpools.imp fun name pool hname => (outputModelId_eq_ok hname.id).symm
    clear hpools hfrom hfresh h hnames hshared
    induction hmap with
    | nil => rfl
    | cons heq _ ih => rw [List.map_cons, List.map_cons, ih, heq]
  have hinjective : Function.Injective fun name : Str => componentName ++ 0x2f :: name := by
    intro a b hab
    exact (List.cons.inj (List.append_cancel_left hab)).2
  have hmembers : ∀ pool ∈ pools, ∃ name ∈ names,
      pool.virtualModel.id = componentName ++ 0x2f :: name ∧
        pool.members = sharedMembers index providers name := by
    intro pool hpool
    obtain ⟨name, hmem, hname⟩ := hfrom pool hpool
    exact ⟨name, hmem, outputModelId_eq_ok hname.id, (composePool_eq_ok hname.pool).2.1⟩
  have hstands : ∀ pool ∈ pools, Stands pool := by
    intro pool hpool
    obtain ⟨name, -, hname⟩ := hfrom pool hpool
    exact stands_of_composePool hname.pool
  refine ⟨?_, rfl, hstands, ?_, hfresh, ?_, ?_⟩
  · refine nodup_models hindex hfresh ?_
    rw [hids]
    exact hnames.map hinjective
  · intro pool hpool
    obtain ⟨name, hmem, -, hmembersEq⟩ := hmembers pool hpool
    have hmodelIds := modelIds_sharedMembers hindex hproviders name
    have hlength := congrArg List.length hmodelIds
    rw [modelIds, List.length_map, List.length_map] at hlength
    rw [hmembersEq, hmodelIds, hlength]
    refine ⟨(hshared name).mp hmem, ?_, sharedMembers_subset hindex hproviders name⟩
    exact (hnodup.filter _).map fun a b hab => List.append_cancel_right hab
  · intro providers' hproviders'
    rw [hconfig] at hproviders'
    cases hproviders'
    constructor
    · intro name
      rw [← hshared]
      constructor
      · intro hpool
        obtain ⟨pool, hpool, hid⟩ := hpool
        obtain ⟨other, hother, hid', -⟩ := hmembers pool hpool
        rw [hid] at hid'
        rw [hinjective hid']
        exact hother
      · intro hmem
        have hid : componentName ++ 0x2f :: name ∈ pools.map fun pool => pool.virtualModel.id := by
          rw [hids]
          exact List.mem_map_of_mem hmem
        exact List.mem_map.mp hid
    · intro pool hpool
      obtain ⟨name, -, hid, hmembersEq⟩ := hmembers pool hpool
      refine ⟨name, hid, ?_⟩
      rw [(hstands pool hpool).ids, hmembersEq]
      exact modelIds_sharedMembers hindex hproviders name
  · intro memberModelIds outputModel hsome
    rw [hmodels] at hsome
    cases hsome

theorem composes_models (hindex : Indexes index models) {memberModelIds : List Str}
    {outputModel : Str} (hmodels : config.memberModelIds = some memberModelIds)
    (houtput : config.outputModel = some outputModel) (hconfig : config.memberProviders = none)
    (hnodup : memberModelIds.Nodup) (htwo : 2 ≤ memberModelIds.length)
    {pools : List (ComposedPool C E)} (h : exactModelPools index memberModelIds outputModel
      componentName = .ok pools) :
    Composes models config componentName ⟨models ++ pools.map ComposedPool.virtualModel, pools⟩ := by
  unfold exactModelPools at h
  obtain ⟨outputId, hid, h⟩ := bind_eq_ok.mp h
  dsimp only at h
  split_ifs at h with hknown
  · cases h
  obtain ⟨members, hmembers, h⟩ := bind_eq_ok.mp h
  obtain ⟨pool, hpool, h⟩ := bind_eq_ok.mp h
  cases h
  obtain ⟨hvirtual, hpoolMembers, -⟩ := composePool_eq_ok hpool
  have hids : modelIds members = memberModelIds := by
    refine exactMembers_ids ?_ hmembers
    rw [hindex.entries, List.forall_mem_map]
    exact fun _ _ => rfl
  have hfresh : pool.virtualModel.id ∉ modelIds models := by
    rw [hvirtual]
    exact hindex.not_mem_ids (Bool.eq_false_of_not_eq_true hknown)
  have hsubset : ∀ member ∈ members, member ∈ models := exactMembers_subset hindex hmembers
  have hlength : members.length = memberModelIds.length := by
    rw [← hids, modelIds, List.length_map]
  refine ⟨?_, rfl, ?_, ?_, ?_, ?_, ?_⟩
  · exact nodup_models hindex (List.forall_mem_singleton.mpr hfresh) (List.nodup_singleton _)
  · exact List.forall_mem_singleton.mpr (stands_of_composePool hpool)
  · rw [List.forall_mem_singleton, hpoolMembers, hids]
    exact ⟨hlength ▸ htwo, hnodup, hsubset⟩
  · exact List.forall_mem_singleton.mpr hfresh
  · intro providers hproviders
    rw [hconfig] at hproviders
    cases hproviders
  · intro memberModelIds' outputModel' hmodels' houtput'
    rw [hmodels] at hmodels'
    rw [houtput] at houtput'
    cases hmodels'
    cases houtput'
    refine ⟨pool, rfl, hvirtual.trans (outputModelId_eq_ok hid), ?_⟩
    rw [(stands_of_composePool hpool).ids, hpoolMembers]
    exact hids

/-- Every catalogue that is composed lists the upstream models and one virtual model for every pool;
a provider-wide configuration pools exactly the local names that two of its providers offer, an
explicit one its own members. -/
theorem composeCatalog_composes {resolved : Composed C E}
    (h : composeCatalog models config componentName = .ok resolved) :
    Composes models config componentName resolved := by
  obtain ⟨parsed, hparsed, h⟩ := bind_eq_ok.mp h
  obtain ⟨index, hindex, h⟩ := bind_eq_ok.mp h
  have hindexes := indexes_of_indexModels hindex
  unfold validatedConfig at hparsed
  split at hparsed
  · rename_i providers hmodels hproviders
    split_ifs at hparsed with hvalid
    cases hparsed
    obtain ⟨pools, hpools, h⟩ := bind_eq_ok.mp h
    cases h
    exact composes_providers hindexes hmodels hproviders hvalid.2.2.1
      (List.all_eq_true.mp hvalid.2.1) hpools
  · rename_i memberModelIds hmodels hproviders
    split at hparsed
    · rename_i outputModel houtput
      split_ifs at hparsed with hvalid
      cases hparsed
      obtain ⟨pools, hpools, h⟩ := bind_eq_ok.mp h
      cases h
      exact composes_models hindexes hmodels houtput hproviders hvalid.2.2 hvalid.1 hpools
    · cases hparsed
  · cases hparsed

end

/-- An upstream model with the given identifier and limits. -/
def exampleModel (id : Str) (contextWindowTokens maxOutputTokens : ℕ) : Model Unit Unit :=
  ⟨id, id, some (), [], [0x61], contextWindowTokens, maxOutputTokens⟩

/-- Two providers offer the model `m`, and one of them another one. -/
def exampleModels : List (Model Unit Unit) :=
  [exampleModel (lit "a/m") 8 4, exampleModel (lit "a/n") 1 1, exampleModel (lit "b/m") 6 5]

def exampleConfig : Config := ⟨some [lit "b", lit "a"], none, none⟩

theorem composeCatalog_example :
    Composes exampleModels exampleConfig (lit "p") ⟨exampleModels ++ [exampleModel (lit "p/m") 6 4],
      [⟨[lit "b/m", lit "a/m"], [exampleModel (lit "b/m") 6 5, exampleModel (lit "a/m") 8 4],
        exampleModel (lit "p/m") 6 4⟩]⟩ :=
  composeCatalog_composes rfl

end Cyclo.Pooler
