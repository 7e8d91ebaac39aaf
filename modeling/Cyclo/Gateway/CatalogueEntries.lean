import Cyclo.Gateway.Catalogue
import Cyclo.Results

/-! What the catalogue of the gateway lists: for every account the entries of that account alone, all
under distinct identifiers. -/
namespace Cyclo.Gateway.Accounts
open Js Protocol

variable {sources : Sources} {a : Account} {c : Catalogue}

/-- A model that is kept is of the provider, and under an identifier that clients can ask for. -/
theorem effectiveModel_eq_ok {parseUrl : Str → Option Url} {provider : Str} {raw : Raw}
    {defaults : Defaults} {custom : Bool} {model : Model}
    (h : effectiveModel parseUrl provider raw defaults custom = .ok model) :
    model.provider = provider ∧ isLocalModelId model.id = true := by
  unfold effectiveModel at h
  obtain ⟨properties, -, h⟩ := bind_eq_ok.mp h
  obtain ⟨_, -, h⟩ := bind_eq_ok.mp h
  obtain ⟨id, hid, h⟩ := bind_eq_ok.mp h
  obtain ⟨input, -, h⟩ := bind_eq_ok.mp h
  obtain ⟨_, -, h⟩ := bind_eq_ok.mp h
  obtain ⟨baseUrl, -, h⟩ := bind_eq_ok.mp h
  obtain ⟨api, -, h⟩ := bind_eq_ok.mp h
  obtain ⟨_, -, h⟩ := bind_eq_ok.mp h
  cases h
  refine ⟨rfl, ?_⟩
  unfold modelId at hid
  split at hid
  · split_ifs at hid with hlocal
    cases hid
    exact hlocal
  · cases hid

/-- The models that are kept are of those given, and each under an identifier of its own. -/
theorem effectiveModels_spec {parseUrl : Str → Option Url} (account provider : Str)
    (defaults : Defaults) (custom : Bool) (raws : List Raw) (ids : List Str) :
    let models := (effectiveModels parseUrl account provider defaults custom raws ids).1
    (models.map Model.id).Nodup ∧ ∀ model ∈ models, model.id ∉ ids ∧
      ∃ raw, effectiveModel parseUrl provider raw defaults custom = .ok model := by
  induction raws generalizing ids with
  | nil => exact ⟨List.nodup_nil, List.forall_mem_nil _⟩
  | cons raw rest ih =>
    unfold effectiveModels
    dsimp only
    split
    · exact ih ids
    · rename_i model hmodel
      split_ifs with hknown
      · exact ih ids
      · obtain ⟨hnodup, hmodels⟩ := ih (model.id :: ids)
        constructor
        · rw [List.map_cons, List.nodup_cons]
          refine ⟨?_, hnodup⟩
          intro hmem
          obtain ⟨other, hother, hid⟩ := List.mem_map.mp hmem
          have hids := (hmodels other hother).1
          rw [hid] at hids
          exact hids List.mem_cons_self
        · refine List.forall_mem_cons.mpr ⟨⟨hknown, raw, hmodel⟩, ?_⟩
          intro other hother
          obtain ⟨hids, hkept⟩ := hmodels other hother
          exact ⟨fun hmem => hids (List.mem_cons_of_mem _ hmem), hkept⟩

/-- The models of an account that may be offered. -/
def accountModels (sources : Sources) (a : Account) : List Model :=
  match rawModels sources a.provider.1 with
  | some (.models raw, defaults, custom) =>
    ((filtered sources a defaults (effectiveModels sources.parseUrl a.account.1 a.provider.1
      defaults custom raw []).1).1).getD []
  | _ => []

/-- Models of the provider under distinct identifiers. -/
structure Candidates (provider : Str) (models : List Model) : Prop where
  nodup : (models.map Model.id).Nodup
  provider : ∀ model ∈ models, model.provider = provider

/-- They are what is kept of one list, the listed one or that of a filter, if there is any. -/
theorem accountModels_cases (sources : Sources) (a : Account) :
    accountModels sources a = [] ∨ ∃ defaults custom raws, accountModels sources a =
      (effectiveModels sources.parseUrl a.account.1 a.provider.1 defaults custom raws []).1 := by
  unfold accountModels
  split
  · unfold filtered
    split
    · exact .inr ⟨_, _, _, rfl⟩
    · split_ifs
      · exact .inr ⟨_, _, _, rfl⟩
      · split
        · exact .inl rfl
        · exact .inl rfl
        · dsimp only
          split
          · exact .inl rfl
          · exact .inr ⟨_, _, _, rfl⟩
  · exact .inl rfl

theorem mem_accountModels {model : Model} (h : model ∈ accountModels sources a) :
    ∃ raw defaults custom, effectiveModel sources.parseUrl a.provider.1 raw defaults custom =
      .ok model := by
  obtain hnone | ⟨defaults, custom, raws, hkept⟩ := accountModels_cases sources a
  · rw [hnone] at h
    cases h
  · rw [hkept] at h
    obtain ⟨raw, hraw⟩ := ((effectiveModels_spec a.account.1 a.provider.1 defaults custom raws []).2
      model h).2
    exact ⟨raw, defaults, custom, hraw⟩

theorem accountModels_candidates (sources : Sources) (a : Account) :
    Candidates a.provider.1 (accountModels sources a) := by
  constructor
  · obtain hnone | ⟨defaults, custom, raws, hkept⟩ := accountModels_cases sources a
    · rw [hnone]
      exact List.nodup_nil
    · rw [hkept]
      exact (effectiveModels_spec a.account.1 a.provider.1 defaults custom raws []).1
  · intro model hmodel
    obtain ⟨raw, defaults, custom, hraw⟩ := mem_accountModels hmodel
    exact (effectiveModel_eq_ok hraw).1

/-- The route to a model, where the account offers it. -/
def offered (sources : Sources) (a : Account) (model : Model) : Option Route :=
  match offer sources a model with
  | some (.ok route) => some route
  | _ => none

def accountRoutes (sources : Sources) (a : Account) : List Route :=
  (accountModels sources a).filterMap (offered sources a)

/-- A route of the account to the model. -/
structure Route.Leads (route : Route) (a : Account) (model : Model) : Prop where
  account : route.account = a.account.1
  provider : route.provider = a.provider.1
  rawModel : route.rawModel = model
  api : route.api = model.api
  baseUrl : route.baseUrl = model.baseUrl
  id : route.publicModel.id = publicId a.account.1 model.id

theorem publicModel_id {account : Str} {model : Model} {published : PublicModel}
    (h : publicModel account model = .ok published) : published.id = publicId account model.id := by
  unfold publicModel at h
  obtain ⟨_, -, h⟩ := bind_eq_ok.mp h
  obtain ⟨_, -, h⟩ := bind_eq_ok.mp h
  cases h
  rfl

theorem offered_eq_some {model : Model} {route : Route} (h : offered sources a model = some route) :
    publicModel a.account.1 model = .ok route.publicModel ∧ route.Leads a model := by
  unfold offered at h
  split at h
  · rename_i r hoffer
    cases h
    unfold offer at hoffer
    split_ifs at hoffer
    split at hoffer
    · cases hoffer
    · cases hoffer
    · split_ifs at hoffer
      · cases hoffer
      · cases hp : publicModel a.account.1 model with
        | error problem =>
          rw [hp] at hoffer
          cases hoffer
        | ok published =>
          rw [hp] at hoffer
          cases hoffer
          exact ⟨rfl, rfl, rfl, rfl, rfl, rfl, publicModel_id hp⟩
  · cases h

theorem offered_leads {model : Model} {route : Route} (h : offered sources a model = some route) :
    route.Leads a model := (offered_eq_some h).2

/-- An entry of the catalogue: a route under its identifier. -/
def Route.entry (route : Route) : Str × Route := (route.publicModel.id, route)

theorem accountRoutes_leads {route : Route} (h : route ∈ accountRoutes sources a) :
    ∃ model ∈ accountModels sources a, route.Leads a model := by
  obtain ⟨model, hmodel, hroute⟩ := List.mem_filterMap.mp h
  exact ⟨model, hmodel, offered_leads hroute⟩

/-- An identifier says of which account it is, and which of its models. -/
theorem publicId_injective {account account' : RouteName} {id id' : Str}
    (h : publicId account.1 id = publicId account'.1 id') : account = account' ∧ id = id' := by
  have hsplit : ∀ (name : RouteName) (id : Str),
      splitAtSlash (publicId name.1 id) = some (name.1, id) := by
    intro name id
    have hslash : publicId name.1 id = name.1 ++ 0x2f :: id := List.append_assoc _ _ _
    rw [hslash]
    exact splitAtSlash_append (slash_not_mem name.2)
  have hparts := hsplit account id
  rw [h, hsplit account' id', Option.some_inj, Prod.mk.injEq] at hparts
  exact ⟨Subtype.ext hparts.1.symm, hparts.2.symm⟩

theorem accountRoutes_nodup :
    ((accountRoutes sources a).map fun route => route.publicModel.id).Nodup := by
  refine List.pairwise_map.mpr (List.pairwise_filterMap.mpr ?_)
  refine (List.pairwise_map.mp (accountModels_candidates sources a).nodup).imp ?_
  intro model model' hne route hroute route' hroute' hid
  rw [(offered_leads hroute).id, (offered_leads hroute').id] at hid
  exact hne (publicId_injective hid).2

/-- The catalogue with the entries of some routes after its own. -/
def Catalogue.extend (c : Catalogue) (routes : List Route) (diagnostics : List Diagnostic) :
    Catalogue where
  models := c.models ++ routes.map Route.publicModel
  routes := c.routes ++ routes.map Route.entry
  diagnostics := c.diagnostics ++ diagnostics

theorem extend_nil (c : Catalogue) : c.extend [] [] = c := by
  simp [Catalogue.extend]

theorem extend_extend (c : Catalogue) (routes routes' : List Route)
    (diagnostics diagnostics' : List Diagnostic) :
    (c.extend routes diagnostics).extend routes' diagnostics' =
      c.extend (routes ++ routes') (diagnostics ++ diagnostics') := by
  simp [Catalogue.extend]

/-- No entry yet is of the account. -/
def Catalogue.Without (c : Catalogue) (a : Account) : Prop :=
  ∀ entry ∈ c.routes, ∀ id, entry.1 ≠ publicId a.account.1 id

theorem addModels_spec (sources : Sources) (models : List Model) (hnodup : (models.map Model.id).Nodup)
    (hfresh : ∀ entry ∈ c.routes, ∀ model ∈ models, entry.1 ≠ publicId a.account.1 model.id) :
    ∃ diagnostics, addModels sources a models c =
      .ok (c.extend (models.filterMap (offered sources a)) diagnostics) := by
  induction models generalizing c with
  | nil => exact ⟨[], congrArg _ (extend_nil c).symm⟩
  | cons model rest ih =>
    rw [List.map_cons, List.nodup_cons] at hnodup
    have hrest : ∀ entry ∈ c.routes, ∀ model ∈ rest, entry.1 ≠ publicId a.account.1 model.id :=
      fun entry hentry model hmodel => hfresh entry hentry model (List.mem_cons_of_mem _ hmodel)
    unfold addModels
    rw [List.filterMap_cons]
    cases hoffer : offer sources a model with
    | none =>
      have hnone : offered sources a model = none := by
        unfold offered
        rw [hoffer]
      rw [hnone]
      exact ih hnodup.2 hrest
    | some offer' =>
      cases offer' with
      | error problem =>
        have hnone : offered sources a model = none := by
          unfold offered
          rw [hoffer]
        rw [hnone]
        obtain ⟨diagnostics, h⟩ := ih (c := c.extend [] [⟨a.account.1, some model.id, problem⟩])
          hnodup.2 (by simpa [Catalogue.extend] using hrest)
        refine ⟨⟨a.account.1, some model.id, problem⟩ :: diagnostics, ?_⟩
        rw [extend_extend] at h
        simpa [Catalogue.extend] using h
      | ok route =>
        have hsome : offered sources a model = some route := by
          unfold offered
          rw [hoffer]
        have hid := (offered_leads hsome).id
        have hlookup : c.routes.lookup route.publicModel.id = none := by
          rw [List.lookup_eq_none_iff]
          intro entry hentry
          rw [hid]
          exact bne_iff_ne.mpr (hfresh entry hentry model List.mem_cons_self).symm
        rw [hsome]
        dsimp only
        rw [hlookup, if_neg (by decide)]
        have hfresh' : ∀ entry ∈ (c.extend [route] []).routes, ∀ model ∈ rest,
            entry.1 ≠ publicId a.account.1 model.id := by
          intro entry hentry other hother
          rcases List.mem_append.mp hentry with hentry | hentry
          · exact hrest entry hentry other hother
          · cases List.mem_singleton.mp hentry
            intro heq
            have hsame := (publicId_injective (hid.symm.trans heq)).2
            exact hnodup.1 (List.mem_map.mpr ⟨other, hother, hsame.symm⟩)
        obtain ⟨diagnostics, h⟩ := ih (c := c.extend [route] []) hnodup.2 hfresh'
        refine ⟨diagnostics, ?_⟩
        rw [extend_extend] at h
        simpa [Catalogue.extend, Route.entry] using h

/-- The provider of the account is neither custom nor in the registry. -/
def Unknown (sources : Sources) (a : Account) : Prop := rawModels sources a.provider.1 = none

theorem addAccount_spec (sources : Sources) (hfresh : c.Without a) :
    (Unknown sources a ∧
      addAccount sources a c = .error (.unknownProvider a.account.1 a.provider.1)) ∨
    (¬ Unknown sources a ∧ ∃ diagnostics, addAccount sources a c =
      .ok (c.extend (accountRoutes sources a) diagnostics)) := by
  have hcandidates := (accountModels_candidates sources a).nodup
  unfold Unknown addAccount accountRoutes
  unfold accountModels at hcandidates ⊢
  rcases hraw : rawModels sources a.provider.1 with _ | ⟨listing, defaults, custom⟩
  · exact .inl ⟨rfl, rfl⟩
  · rw [hraw] at hcandidates
    refine .inr ⟨nofun, ?_⟩
    cases listing with
    | throws => exact ⟨[⟨a.account.1, none, .discoveryFailed⟩], by simp [Catalogue.extend]⟩
    | malformed => exact ⟨[⟨a.account.1, none, .malformedModels⟩], by simp [Catalogue.extend]⟩
    | models raw =>
      dsimp only at hcandidates ⊢
      set rejected := (effectiveModels sources.parseUrl a.account.1 a.provider.1 defaults custom raw
        []).2
      set refused := (filtered sources a defaults (effectiveModels sources.parseUrl a.account.1
        a.provider.1 defaults custom raw []).1).2
      have hfresh' : (c.extend [] (rejected ++ refused)).Without a := by
        simpa [Catalogue.extend, Catalogue.Without] using hfresh
      obtain ⟨diagnostics, h⟩ := addModels_spec sources _ hcandidates
        fun entry hentry model _ => hfresh' entry hentry model.id
      refine ⟨rejected ++ refused ++ diagnostics, ?_⟩
      rw [extend_extend, List.nil_append] at h
      rw [← h]
      simp [Catalogue.extend]

/-- The loop over accounts of distinct names ends with the entries of every one of them, unless the
provider of one is unknown. -/
theorem addAccounts_spec (sources : Sources) (accounts : List Account)
    (hnames : (accounts.map Account.account).Nodup) (hfresh : ∀ a ∈ accounts, c.Without a) :
    (∃ a ∈ accounts, Unknown sources a ∧
      addAccounts sources accounts c = .error (.unknownProvider a.account.1 a.provider.1)) ∨
    ((∀ a ∈ accounts, ¬ Unknown sources a) ∧ ∃ diagnostics, addAccounts sources accounts c =
      .ok (c.extend (accounts.flatMap (accountRoutes sources)) diagnostics)) := by
  induction accounts generalizing c with
  | nil => exact .inr ⟨List.forall_mem_nil _, [], congrArg _ (extend_nil c).symm⟩
  | cons a rest ih =>
    rw [List.map_cons, List.nodup_cons] at hnames
    unfold addAccounts
    rcases addAccount_spec sources (hfresh a List.mem_cons_self) with
      ⟨hunknown, h⟩ | ⟨hknown, diagnostics, h⟩
    · rw [h]
      exact .inl ⟨a, List.mem_cons_self, hunknown, rfl⟩
    · rw [h]
      have hrest : ∀ b ∈ rest, (c.extend (accountRoutes sources a) diagnostics).Without b := by
        intro b hb entry hentry id
        rcases List.mem_append.mp hentry with hentry | hentry
        · exact hfresh b (List.mem_cons_of_mem _ hb) entry hentry id
        · obtain ⟨route, hroute, rfl⟩ := List.mem_map.mp hentry
          obtain ⟨model, -, hleads⟩ := accountRoutes_leads hroute
          intro heq
          have hsame := (publicId_injective (hleads.id.symm.trans heq)).1
          exact hnames.1 (List.mem_map.mpr ⟨b, hb, hsame.symm⟩)
      rcases ih hnames.2 hrest with ⟨b, hb, hunknown, h'⟩ | ⟨hothers, diagnostics', h'⟩
      · exact .inl ⟨b, List.mem_cons_of_mem _ hb, hunknown, h'⟩
      · refine .inr ⟨List.forall_mem_cons.mpr ⟨hknown, hothers⟩, diagnostics ++ diagnostics', ?_⟩
        rw [List.flatMap_cons, ← extend_extend]
        exact h'

theorem credentialAccount_account {name : Str} {raw : Json} {a : Account}
    (h : credentialAccount name raw = .ok a) : a.account.1 = name := by
  unfold credentialAccount at h
  obtain ⟨account, haccount, h⟩ := bind_eq_ok.mp h
  obtain ⟨credential, -, h⟩ := bind_eq_ok.mp h
  obtain ⟨_, -, h⟩ := bind_eq_ok.mp h
  obtain ⟨provider, -, h⟩ := bind_eq_ok.mp h
  cases h
  unfold routeName at haccount
  dsimp only at haccount
  split_ifs at haccount
  cases haccount
  rfl

theorem credentialAccounts_names {document : Properties} {accounts : List Account}
    (h : credentialAccounts document = .ok accounts) :
    accounts.map (fun a => a.account.1) = document.map Prod.fst := by
  have hentries := mapM_eq_ok.mp h
  clear h
  induction hentries with
  | nil => rfl
  | cons hentry _ ih => rw [List.map_cons, List.map_cons, ih, credentialAccount_account hentry]

/-- The accounts of a document have distinct names. -/
theorem credentialAccounts_nodup {credentials : Document} {accounts : List Account}
    (h : credentialAccounts credentials.properties = .ok accounts) :
    (accounts.map Account.account).Nodup := by
  have hdistinct := credentials.distinct
  rw [← credentialAccounts_names h] at hdistinct
  have hnames : accounts.map (fun a => a.account.1) =
      (accounts.map Account.account).map fun name => name.1 := (List.map_map ..).symm
  rw [hnames] at hdistinct
  exact hdistinct.of_map _

theorem customProviders_lookup {parseUrl : Str → Option Url} {providers : Properties}
    {custom : List (Str × CustomProvider)} (h : customProviders parseUrl providers = .ok custom)
    (provider : Str) :
    custom.lookup provider =
      (providers.lookup provider).bind fun raw => (customProvider parseUrl provider raw).toOption := by
  have hentries := mapM_eq_ok.mp h
  clear h
  induction hentries with
  | nil => rfl
  | @cons entry result _ _ hentry _ ih =>
    cases hcustom : customProvider parseUrl entry.1 entry.2 with
    | error problem =>
      rw [hcustom] at hentry
      cases hentry
    | ok custom' =>
      rw [hcustom] at hentry
      cases hentry
      rw [List.lookup_cons, List.lookup_cons]
      cases hname : provider == entry.1 with
      | true =>
        rw [eq_of_beq hname, Option.bind_some, hcustom]
        rfl
      | false => exact ih

theorem validatePiProviders_lookup {providers : List PiProvider}
    {builtins registry : List (Str × PiProvider)}
    (h : validatePiProviders providers builtins = some registry) (provider : Str) :
    registry.lookup provider =
      (builtins.lookup provider).or (providers.find? fun builtin => builtin.id = some provider) := by
  induction providers generalizing builtins with
  | nil =>
    cases h
    rw [List.find?_nil, Option.or_none]
  | cons builtin rest ih =>
    unfold validatePiProviders at h
    split at h
    · rename_i id _ hid _
      split_ifs at h
      rw [ih h, List.lookup_append, Option.or_assoc, List.find?_cons, hid]
      congr 1
      rw [List.lookup_cons, List.lookup_nil]
      by_cases hsame : provider = id
      · rw [hsame]
        simp
      · have hsame' : ¬ some id = some provider := fun h => hsame (Option.some_inj.mp h).symm
        simp [beq_false_of_ne hsame, hsame']
    · cases h

theorem customProviders_known {parseUrl : Str → Option Url} {providers : Properties}
    {custom : List (Str × CustomProvider)} (h : customProviders parseUrl providers = .ok custom)
    (provider : Str) : (custom.lookup provider).isSome = (providers.lookup provider).isSome := by
  have hentries := mapM_eq_ok.mp h
  clear h
  induction hentries with
  | nil => rfl
  | @cons entry result _ _ hentry _ ih =>
    have hname : result.1 = entry.1 := by
      cases hcustom : customProvider parseUrl entry.1 entry.2 with
      | error problem =>
        rw [hcustom] at hentry
        cases hentry
      | ok custom' =>
        rw [hcustom] at hentry
        cases hentry
        rfl
    rw [List.lookup_cons, List.lookup_cons, hname]
    split
    · rfl
    · exact ih

/-- The sources say the same of a provider. -/
structure Agree (sources sources' : Sources) (provider : Str) : Prop where
  custom : sources.custom.lookup provider = sources'.custom.lookup provider
  builtin : sources.builtins.lookup provider = sources'.builtins.lookup provider
  parseUrl : sources.parseUrl = sources'.parseUrl
  getApiProvider : sources.getApiProvider = sources'.getApiProvider

/-- The entries of an account depend on its own provider only. -/
theorem accountRoutes_congr {sources' : Sources} (h : Agree sources sources' a.provider.1) :
    accountRoutes sources a = accountRoutes sources' a := by
  have hoffered : offered sources a = offered sources' a := by
    funext model
    unfold offered offer
    rw [h.getApiProvider]
  have hmodels : accountModels sources a = accountModels sources' a := by
    simp only [accountModels, rawModels, filtered, h.custom, h.builtin, h.parseUrl]
  unfold accountRoutes
  rw [hoffered, hmodels]

/-- Of all the routes those of one account are its own. -/
theorem filter_accountRoutes {accounts : List Account}
    (hnames : (accounts.map Account.account).Nodup) (ha : a ∈ accounts) :
    (accounts.flatMap (accountRoutes sources)).filter (fun route => route.account = a.account.1) =
      accountRoutes sources a := by
  have hself : ∀ b : Account, b.account = a.account →
      (accountRoutes sources b).filter (fun route => route.account = a.account.1) =
        accountRoutes sources b := by
    intro b hb
    rw [List.filter_eq_self]
    intro route hroute
    obtain ⟨model, -, hleads⟩ := accountRoutes_leads hroute
    rw [hleads.account, hb, decide_eq_true_eq]
  have hother : ∀ b : Account, b.account ≠ a.account →
      (accountRoutes sources b).filter (fun route => route.account = a.account.1) = [] := by
    intro b hb
    rw [List.filter_eq_nil_iff]
    intro route hroute
    obtain ⟨model, -, hleads⟩ := accountRoutes_leads hroute
    rw [hleads.account, decide_eq_true_eq]
    exact fun h => hb (Subtype.ext h)
  induction accounts with
  | nil => cases ha
  | cons b rest ih =>
    rw [List.map_cons, List.nodup_cons] at hnames
    rw [List.flatMap_cons, List.filter_append]
    rcases List.mem_cons.mp ha with rfl | ha
    · have hrest : (rest.flatMap (accountRoutes sources)).filter
          (fun route => route.account = a.account.1) = [] := by
        rw [List.filter_flatMap, List.flatMap_eq_nil_iff]
        intro b hb
        exact hother b fun h => hnames.1 (List.mem_map.mpr ⟨b, hb, h⟩)
      rw [hself a rfl, hrest, List.append_nil]
    · have hne : b.account ≠ a.account := fun h => hnames.1 (List.mem_map.mpr ⟨a, ha, h.symm⟩)
      rw [hother b hne, List.nil_append]
      exact ih hnames.2 ha

/-- A provider that a custom definition or the registry names. -/
def Known (providers : List PiProvider) (custom : Document) (provider : Str) : Prop :=
  (custom.properties.lookup provider).isSome ∨
    (providers.find? fun builtin => builtin.id = some provider).isSome

/-- The documents and the registry are well formed. -/
structure Accepted (providers : List PiProvider) (credentials custom : Document)
    (accounts : List Account) (sources : Sources) : Prop where
  listed : credentialAccounts credentials.properties = .ok accounts
  defined : customProviders sources.parseUrl custom.properties = .ok sources.custom
  nonempty : providers ≠ []
  registered : validatePiProviders providers [] = some sources.builtins

theorem Accepted.unknown_iff {providers : List PiProvider} {credentials custom : Document}
    {accounts : List Account} (h : Accepted providers credentials custom accounts sources)
    (a : Account) : Unknown sources a ↔ ¬ Known providers custom a.provider.1 := by
  have hcustom := customProviders_known h.defined a.provider.1
  have hbuiltin := validatePiProviders_lookup h.registered a.provider.1
  rw [List.lookup_nil, Option.none_or] at hbuiltin
  unfold Unknown Known rawModels
  rw [← hcustom, ← hbuiltin]
  cases sources.custom.lookup a.provider.1 with
  | some custom' => simp
  | none => cases sources.builtins.lookup a.provider.1 <;> simp

/-- The catalogue of some routes. -/
def ofRoutes (localeLe : Str → Str → Bool) (routes : List Route) (diagnostics : List Diagnostic) :
    Catalogue where
  models := (routes.map Route.publicModel).mergeSort fun left right => localeLe left.id right.id
  routes := routes.map Route.entry
  diagnostics := diagnostics

theorem Accepted.buildCatalogue {providers : List PiProvider} {credentials custom : Document}
    {accounts : List Account} (h : Accepted providers credentials custom accounts sources)
    (localeLe : Str → Str → Bool) :
    (∃ a ∈ accounts, Unknown sources a ∧
      buildCatalogue localeLe sources.parseUrl sources.getApiProvider providers credentials custom =
        .error (.unknownProvider a.account.1 a.provider.1)) ∨
    ((∀ a ∈ accounts, ¬ Unknown sources a) ∧ ∃ diagnostics,
      buildCatalogue localeLe sources.parseUrl sources.getApiProvider providers credentials custom =
        .ok (ofRoutes localeLe (accounts.flatMap (accountRoutes sources)) diagnostics)) := by
  have hempty : providers.isEmpty = false := by
    rw [List.isEmpty_eq_false_iff]
    exact h.nonempty
  have hbuild : Accounts.buildCatalogue localeLe sources.parseUrl sources.getApiProvider providers
      credentials custom = (addAccounts sources accounts ⟨[], [], []⟩).map fun catalogue =>
        { catalogue with
          models := catalogue.models.mergeSort fun left right => localeLe left.id right.id } := by
    unfold Accounts.buildCatalogue
    rw [h.listed, h.defined]
    change buildCatalogueFromAccounts localeLe sources.parseUrl sources.getApiProvider providers
      sources.custom accounts = _
    unfold buildCatalogueFromAccounts
    rw [hempty, if_neg (by decide), h.registered]
  rw [hbuild]
  have hfresh : ∀ a ∈ accounts, (⟨[], [], []⟩ : Catalogue).Without a := by
    intro a ha
    exact List.forall_mem_nil _
  rcases addAccounts_spec sources accounts (credentialAccounts_nodup h.listed) hfresh
    with ⟨a, ha, hunknown, hadd⟩ | ⟨hknown, diagnostics, hadd⟩
  · rw [hadd]
    exact .inl ⟨a, ha, hunknown, rfl⟩
  · rw [hadd]
    exact .inr ⟨hknown, diagnostics, rfl⟩

/-- Every build that gets past the documents and the registry is of accepted ones. -/
theorem buildCatalogue_cases (localeLe : Str → Str → Bool) (parseUrl : Str → Option Url)
    (getApiProvider : Str → Option (Option ApiProvider)) (providers : List PiProvider)
    (credentials custom : Document) :
    (∃ problem, buildCatalogue localeLe parseUrl getApiProvider providers credentials custom =
      .error (.invalidDocument problem)) ∨
    buildCatalogue localeLe parseUrl getApiProvider providers credentials custom =
      .error .invalidRegistry ∨
    ∃ accounts definitions registry, Accepted providers credentials custom accounts
      ⟨definitions, registry, parseUrl, getApiProvider⟩ := by
  unfold buildCatalogue
  cases haccounts : credentialAccounts credentials.properties with
  | error problem => exact .inl ⟨problem, rfl⟩
  | ok accounts =>
    cases hcustom : customProviders parseUrl custom.properties with
    | error problem => exact .inl ⟨problem, rfl⟩
    | ok definitions =>
      right
      change buildCatalogueFromAccounts localeLe parseUrl getApiProvider providers definitions
        accounts = _ ∨ _
      unfold buildCatalogueFromAccounts
      cases hproviders : providers with
      | nil => exact .inl rfl
      | cons builtin rest =>
        rw [List.isEmpty_cons, if_neg (by decide)]
        cases hregistry : validatePiProviders (builtin :: rest) [] with
        | none => exact .inl rfl
        | some registry =>
          exact .inr ⟨accounts, definitions, registry, haccounts, hcustom,
            List.cons_ne_nil _ _, hregistry⟩

/-- Models under distinct identifiers, one for each route, and every route to a model of an account. -/
structure Catalogue.Lists (c : Catalogue) (accounts : List Account) : Prop where
  models_distinct : (c.models.map PublicModel.id).Nodup
  routes_distinct : (c.routes.map Prod.fst).Nodup
  corresponds : c.models.Perm (c.routes.map fun entry => entry.2.publicModel)
  routes : ∀ entry ∈ c.routes, entry.1 = entry.2.publicModel.id ∧
    ∃ a ∈ accounts, ∃ model : Model, model.provider = a.provider.1 ∧
      entry.1 = publicId a.account.1 model.id ∧ entry.2.Leads a model

theorem lists_ofRoutes (localeLe : Str → Str → Bool) {accounts : List Account}
    (hnames : (accounts.map Account.account).Nodup) (diagnostics : List Diagnostic) :
    (ofRoutes localeLe (accounts.flatMap (accountRoutes sources)) diagnostics).Lists accounts := by
  have hperm : (ofRoutes localeLe (accounts.flatMap (accountRoutes sources)) diagnostics).models.Perm
      ((accounts.flatMap (accountRoutes sources)).map Route.publicModel) := List.mergeSort_perm _ _
  have hids : ((accounts.flatMap (accountRoutes sources)).map
      fun route => route.publicModel.id).Nodup := by
    rw [List.map_flatMap, List.nodup_flatMap]
    constructor
    · intro a _
      exact accountRoutes_nodup
    · refine (List.pairwise_map.mp hnames).imp ?_
      intro a b hne id ha hb
      obtain ⟨route, hroute, rfl⟩ := List.mem_map.mp ha
      obtain ⟨route', hroute', hid⟩ := List.mem_map.mp hb
      obtain ⟨model, -, hleads⟩ := accountRoutes_leads hroute
      obtain ⟨model', -, hleads'⟩ := accountRoutes_leads hroute'
      rw [hleads.id, hleads'.id] at hid
      exact hne (publicId_injective hid).1.symm
  constructor
  · refine (hperm.map PublicModel.id).nodup_iff.mpr ?_
    rw [List.map_map]
    exact hids
  · unfold ofRoutes
    rw [List.map_map]
    exact hids
  · unfold ofRoutes at hperm ⊢
    rw [List.map_map]
    exact hperm
  · intro entry hentry
    obtain ⟨route, hroute, rfl⟩ := List.mem_map.mp hentry
    obtain ⟨a, ha, hroute⟩ := List.mem_flatMap.mp hroute
    obtain ⟨model, hmodel, hleads⟩ := accountRoutes_leads hroute
    exact ⟨rfl, a, ha, model, (accountModels_candidates sources a).provider model hmodel, hleads.id,
      hleads⟩

/-- Two builds that read the same of an account and of its provider. -/
structure SameAccount (providers providers' : List PiProvider)
    (credentials credentials' custom custom' : Document) (a : Account) : Prop where
  credential : credentials'.properties.lookup a.account.1 = credentials.properties.lookup a.account.1
  custom : custom'.properties.lookup a.provider.1 = custom.properties.lookup a.provider.1
  builtin : (providers'.find? fun builtin => builtin.id = some a.provider.1) =
    providers.find? fun builtin => builtin.id = some a.provider.1

theorem Document.lookup_eq_some {document : Document} {name : Str} {value : Json} :
    document.properties.lookup name = some value ↔ (name, value) ∈ document.properties := by
  rw [List.lookup_eq_some_iff]
  constructor
  · intro h
    obtain ⟨before, after, hproperties, -⟩ := h
    rw [hproperties]
    exact List.mem_append_right _ List.mem_cons_self
  · intro h
    obtain ⟨before, after, hproperties⟩ := List.append_of_mem h
    refine ⟨before, after, hproperties, ?_⟩
    intro entry hentry
    have hdistinct := document.distinct
    rw [hproperties, List.map_append, List.map_cons, List.nodup_append] at hdistinct
    exact bne_iff_ne.mpr
      (hdistinct.2.2 _ (List.mem_map_of_mem hentry) _ List.mem_cons_self).symm

theorem mem_credentialAccounts {credentials : Document} {accounts : List Account}
    (h : credentialAccounts credentials.properties = .ok accounts) :
    a ∈ accounts ↔ ∃ raw, credentials.properties.lookup a.account.1 = some raw ∧
      credentialAccount a.account.1 raw = .ok a := by
  obtain ⟨hread, haccounts⟩ := mem_of_forall₂ (mapM_eq_ok.mp h)
  constructor
  · intro ha
    obtain ⟨entry, hentry, haccount⟩ := hread a ha
    rw [credentialAccount_account haccount]
    exact ⟨entry.2, Document.lookup_eq_some.mpr hentry, haccount⟩
  · intro h
    obtain ⟨raw, hraw, haccount⟩ := h
    obtain ⟨b, hb, haccount'⟩ := haccounts _ (Document.lookup_eq_some.mp hraw)
    rw [haccount] at haccount'
    cases haccount'
    exact hb

/-- The entries that lead to an account. -/
def Catalogue.entriesOf (c : Catalogue) (account : RouteName) : List (Str × Route) :=
  c.routes.filter fun entry => entry.2.account = account.1

theorem entriesOf_ofRoutes {localeLe : Str → Str → Bool} {accounts : List Account}
    (hnames : (accounts.map Account.account).Nodup) (ha : a ∈ accounts)
    (diagnostics : List Diagnostic) :
    (ofRoutes localeLe (accounts.flatMap (accountRoutes sources)) diagnostics).entriesOf a.account =
      (accountRoutes sources a).map Route.entry := by
  rw [← filter_accountRoutes hnames ha, Catalogue.entriesOf, ofRoutes, List.filter_map]
  rfl

theorem SameAccount.agree {providers providers' : List PiProvider}
    {credentials credentials' custom custom' : Document} {accounts accounts' : List Account}
    {sources' : Sources} (h : Accepted providers credentials custom accounts sources)
    (h' : Accepted providers' credentials' custom' accounts' sources')
    (hsame : SameAccount providers providers' credentials credentials' custom custom' a)
    (hparse : sources'.parseUrl = sources.parseUrl)
    (hapi : sources'.getApiProvider = sources.getApiProvider) :
    Agree sources' sources a.provider.1 := by
  constructor
  · rw [customProviders_lookup h.defined, customProviders_lookup h'.defined, hsame.custom, hparse]
  · rw [validatePiProviders_lookup h.registered, validatePiProviders_lookup h'.registered,
      hsame.builtin]
  · exact hparse
  · exact hapi

section
variable {localeLe : Str → Str → Bool} {parseUrl : Str → Option Url}
  {getApiProvider : Str → Option (Option ApiProvider)} {providers : List PiProvider}
  {credentials custom : Document}

theorem buildCatalogue_eq_ok {catalogue : Catalogue}
    (h : buildCatalogue localeLe parseUrl getApiProvider providers credentials custom =
      .ok catalogue) :
    ∃ accounts definitions registry, Accepted providers credentials custom accounts
      ⟨definitions, registry, parseUrl, getApiProvider⟩ ∧ ∃ diagnostics, catalogue =
      ofRoutes localeLe (accounts.flatMap
        (accountRoutes ⟨definitions, registry, parseUrl, getApiProvider⟩)) diagnostics := by
  rcases buildCatalogue_cases localeLe parseUrl getApiProvider providers credentials custom with
    ⟨problem, hfail⟩ | hfail | ⟨accounts, definitions, registry, haccepted⟩
  · cases hfail.symm.trans h
  · cases hfail.symm.trans h
  · rcases haccepted.buildCatalogue localeLe with
      ⟨a, -, -, hfail⟩ | ⟨-, diagnostics, hok⟩
    · cases hfail.symm.trans h
    · cases hok.symm.trans h
      exact ⟨accounts, definitions, registry, haccepted, diagnostics, rfl⟩

theorem buildCatalogue_ne_duplicateModel (id : Str) :
    buildCatalogue localeLe parseUrl getApiProvider providers credentials custom ≠
      .error (.duplicateModel id) := by
  intro h
  rcases buildCatalogue_cases localeLe parseUrl getApiProvider providers credentials custom with
    ⟨problem, hfail⟩ | hfail | ⟨accounts, definitions, registry, haccepted⟩
  · cases hfail.symm.trans h
  · cases hfail.symm.trans h
  · rcases haccepted.buildCatalogue localeLe with
      ⟨a, -, -, hfail⟩ | ⟨-, diagnostics, hok⟩
    · cases hfail.symm.trans h
    · cases hok.symm.trans h

/-- What is accepted fails for a provider that nothing names, and for nothing else. -/
theorem Accepted.built_iff {accounts : List Account}
    (h : Accepted providers credentials custom accounts sources) :
    (∃ catalogue, Accounts.buildCatalogue localeLe sources.parseUrl sources.getApiProvider providers
      credentials custom = .ok catalogue) ↔ ∀ a ∈ accounts, Known providers custom a.provider.1 := by
  rcases h.buildCatalogue localeLe with
    ⟨a, ha, hunknown, hfail⟩ | ⟨hknown, diagnostics, hok⟩
  · refine iff_of_false ?_ fun hknown => (h.unknown_iff a).mp hunknown (hknown a ha)
    intro hbuilt
    obtain ⟨catalogue, hok⟩ := hbuilt
    cases hfail.symm.trans hok
  · refine iff_of_true ⟨_, hok⟩ ?_
    intro a ha
    exact not_not.mp fun hnot => hknown a ha ((h.unknown_iff a).mpr hnot)

end

/-- No build fails for an identifier that is listed twice, and one that is accepted only for a
provider that nothing names. A catalogue lists models under distinct identifiers, one for each route
of an account to one of its provider's models, and the entries of an account are the same in all
builds that read the same of it and of its provider. -/
theorem catalogue_entries (localeLe : Str → Str → Bool) (parseUrl : Str → Option Url)
    (getApiProvider : Str → Option (Option ApiProvider)) (providers : List PiProvider)
    (credentials custom : Document) :
    let build := buildCatalogue localeLe parseUrl getApiProvider
    (∀ id, build providers credentials custom ≠ .error (.duplicateModel id)) ∧
    (∀ accounts definitions registry, Accepted providers credentials custom accounts
        ⟨definitions, registry, parseUrl, getApiProvider⟩ →
      ((∃ catalogue, build providers credentials custom = .ok catalogue) ↔
        ∀ a ∈ accounts, Known providers custom a.provider.1)) ∧
    ∀ catalogue, build providers credentials custom = .ok catalogue →
      ∃ accounts, credentialAccounts credentials.properties = .ok accounts ∧
        catalogue.Lists accounts ∧
        ∀ providers' credentials' custom' catalogue',
          build providers' credentials' custom' = .ok catalogue' →
          ∀ a ∈ accounts,
            SameAccount providers providers' credentials credentials' custom custom' a →
            catalogue'.entriesOf a.account = catalogue.entriesOf a.account := by
  intro build
  refine ⟨buildCatalogue_ne_duplicateModel, ?_, ?_⟩
  · intro accounts definitions registry haccepted
    exact haccepted.built_iff
  · intro catalogue h
    obtain ⟨accounts, definitions, registry, haccepted, diagnostics, rfl⟩ := buildCatalogue_eq_ok h
    have hnames := credentialAccounts_nodup haccepted.listed
    refine ⟨accounts, haccepted.listed, lists_ofRoutes localeLe hnames diagnostics, ?_⟩
    intro providers' credentials' custom' catalogue' h' a ha hsame
    obtain ⟨accounts', definitions', registry', haccepted', diagnostics', rfl⟩ :=
      buildCatalogue_eq_ok h'
    have ha' : a ∈ accounts' := by
      rw [mem_credentialAccounts haccepted'.listed, hsame.credential]
      exact (mem_credentialAccounts haccepted.listed).mp ha
    rw [entriesOf_ofRoutes hnames ha,
      entriesOf_ofRoutes (credentialAccounts_nodup haccepted'.listed) ha',
      accountRoutes_congr (hsame.agree haccepted haccepted' rfl rfl)]

/-- A provider that cannot list its models. -/
def silentProvider : PiProvider where
  id := some (lit "p")
  auth := true
  baseUrl := none
  getModels := some .throws
  filterModels := none
  streamSimple := true

def keyedCredential (provider : String) : Json :=
  .obj [(lit "type", .str (lit "api_key")), (lit "key", .str (lit "k")),
    (lit "provider", .str (lit provider))]

def listedModel (id : String) : Json :=
  .obj [(lit "id", .str (lit id)), (lit "api", .str (lit "openai-responses")),
    (lit "baseUrl", .str (lit "http://q/")), (lit "input", .arr [.str (lit "text")]),
    (lit "contextWindow", .num (.finite 8)), (lit "maxTokens", .num (.finite 4))]

/-- An account of the silent provider, and one of a provider that is listed. -/
def twoCredentials : Document where
  properties := [(lit "a", keyedCredential "p"), (lit "b", keyedCredential "q")]
  distinct := by decide

def listedProvider : Document where
  properties := [(lit "q", .obj [(lit "models", .arr [listedModel "", listedModel "m"])])]
  distinct := by decide

def listedCatalogue : Except Failure Catalogue :=
  buildCatalogue (fun _ _ => true) (fun url => some ⟨lit "http:", [], [], [], [], url⟩)
    (fun api => some (some ⟨api, true, true⟩)) [silentProvider] twoCredentials listedProvider

theorem catalogue_entries_listed : ∃ catalogue accounts, listedCatalogue = .ok catalogue ∧
    catalogue.routes.map Prod.fst = [lit "b/m"] ∧
    catalogue.diagnostics.map (·.account) = [lit "a", lit "b"] ∧
    credentialAccounts twoCredentials.properties = .ok accounts ∧ catalogue.Lists accounts := by
  have computed : listedCatalogue.toOption.map (fun catalogue =>
      (catalogue.routes.map Prod.fst, catalogue.diagnostics.map (·.account))) =
        some ([lit "b/m"], [lit "a", lit "b"]) := by
    decide +kernel
  obtain ⟨catalogue, hbuilt, hlisted⟩ := Option.map_eq_some_iff.mp computed
  obtain ⟨hroutes, hdiagnostics⟩ := Prod.mk.inj hlisted
  have hcatalogue := toOption_eq_some.mp hbuilt
  obtain ⟨accounts, haccounts, hlists, -⟩ :=
    (catalogue_entries _ _ _ _ _ _).2.2 catalogue hcatalogue
  exact ⟨catalogue, accounts, hcatalogue, hroutes, hdiagnostics, haccounts, hlists⟩

end Cyclo.Gateway.Accounts
