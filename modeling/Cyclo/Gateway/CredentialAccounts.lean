import Cyclo.Gateway.CatalogueEntries
import Cyclo.Gateway.CredentialRuns

/-! The accounts of the credential store under any interleaving of requests: the store stays one
that the catalogue accepts, and every account belongs to the provider that the requests say. -/
namespace Cyclo.Gateway.Credentials
open Js Protocol Accounts Process

variable {F : Prop} {w v : Stored} {path : Str} {store : Properties} {name : Str} {raw : Json}

/-- The provider of a credential that is stored under the name. -/
def providerOf (name : Str) : Json → Option Str
  | .obj credential => (nullish (credential.lookup (lit "provider")) (some (.str name))).bind
    Json.asString
  | _ => none

theorem providerOf_obj (name : Str) (credential : Properties) : providerOf name (.obj credential) =
    (nullish (credential.lookup (lit "provider")) (some (.str name))).bind Json.asString := rfl

/-- An entry that the catalogue accepts: a credential under the name of an account, with distinct
properties. -/
structure Entry (name : Str) (raw : Json) (provider : Str) : Prop where
  account : isProviderPrefix name = true
  credential : ∃ credential, raw = .obj credential ∧ validCredential credential = true ∧
    (credential.map Prod.fst).Nodup
  owner : isProviderPrefix provider = true
  found : providerOf name raw = some provider

/-- The accounts of the store are under distinct names, and all of them are accepted. -/
structure Valid (store : Properties) : Prop where
  distinct : (store.map Prod.fst).Nodup
  entries : ∀ e ∈ store, ∃ provider, Entry e.1 e.2 provider

def Stored.Valid (w : Stored) : Prop := ∃ store, storeOrEmpty w.auth = .ok store ∧
    Credentials.Valid store

/-- The providers of the accounts. -/
abbrev Directory := Str → Option Str

def directory (store : Properties) : Directory :=
  fun name => (store.lookup name).bind (providerOf name)

def Stored.directory (w : Stored) : Directory :=
  match storeOrEmpty w.auth with
  | .ok store => Credentials.directory store
  | .error _ => fun _ => none

/-- What a request does to the accounts. -/
def Request.apply (request : Request) (d : Directory) : Directory :=
  match request with
  | .login args _ => Function.update d args.target.1 (some args.provider.1)
  | .logout account => Function.update d account.1 none
  | .rename args => Function.update (Function.update d args.target.1 (d args.source.1))
    args.source.1 none
  | .refresh _ _ => d

theorem text_map_wire {value : Option Json} {s : Str} (h : text value = some s) :
    text (value.map Json.wire) = some s := by
  unfold text at h
  split at h
  · exact h
  · cases h

theorem nullish_map_wire {value : Option Json} {s t : Str}
    (h : nullish value (some (.str s)) = some (.str t)) :
    nullish (value.map Json.wire) (some (.str s)) = some (.str t) := by
  cases value with
  | none => exact h
  | some v =>
    cases v with
    | null => exact h
    | str u => exact h
    | _ => cases h

theorem wire_of_positive {n : Number} (h : (n.isFinite && (Number.finite 0).lt n) = true) :
    (Json.num n).wire = .num n := by
  cases n with
  | finite q => rfl
  | negativeZero =>
    rw [Bool.and_eq_true] at h
    have hlt : (Number.finite 0).lt .negativeZero = false := by
      unfold Number.lt
      exact decide_eq_false (lt_irrefl _)
    rw [hlt] at h
    cases h.2
  | nan => cases h
  | infinite s => cases h

theorem validCredential_wire {credential : Properties} (h : validCredential credential = true) :
    validCredential (Json.wireEntries credential) = true := by
  unfold validCredential at h ⊢
  rw [Json.lookup_wireEntries, Json.lookup_wireEntries, Json.lookup_wireEntries,
    Json.lookup_wireEntries, Json.lookup_wireEntries]
  have htext : ∀ value : Option Json, (text value).isSome = true →
      (text (value.map Json.wire)).isSome = true := by
    intro value hvalue
    obtain ⟨s, hs⟩ := Option.isSome_iff_exists.mp hvalue
    rw [text_map_wire hs]
    rfl
  split at h
  · rename_i type htype
    rw [htype]
    simp only [Option.map_some, Json.wire]
    split_ifs at h ⊢ with hkey
    · exact htext _ h
    · rw [Bool.and_eq_true, Bool.and_eq_true, Bool.and_eq_true] at h ⊢
      obtain ⟨⟨⟨htype, haccess⟩, hrefresh⟩, hexpires⟩ := h
      refine ⟨⟨⟨htype, htext _ haccess⟩, htext _ hrefresh⟩, ?_⟩
      split at hexpires
      · rename_i n hn
        rw [hn, Option.map_some, wire_of_positive hexpires]
        exact hexpires
      · cases hexpires
  · cases h

/-- The provider is in the credential, or it is the name. -/
theorem provided {credential : Properties} {provider : Str}
    (h : providerOf name (.obj credential) = some provider) :
    nullish (credential.lookup (lit "provider")) (some (.str name)) = some (.str provider) := by
  rw [providerOf_obj] at h
  obtain ⟨value, hvalue, htext⟩ := Option.bind_eq_some_iff.mp h
  rw [hvalue]
  cases value with
  | str s =>
    cases htext
    rfl
  | _ => cases htext

theorem Entry.wire {provider : Str} (h : Entry name raw provider) : Entry name raw.wire provider := by
  obtain ⟨credential, rfl, hvalid, hnodup⟩ := h.credential
  refine ⟨h.account, ⟨Json.wireEntries credential, rfl, validCredential_wire hvalid, ?_⟩, h.owner, ?_⟩
  · rw [Json.keys_wireEntries]
    exact hnodup
  · have hfound := h.found
    have hvalue := provided hfound
    have hwire : (Json.obj credential).wire = .obj (Json.wireEntries credential) := rfl
    rw [hwire, providerOf, Json.lookup_wireEntries, nullish_map_wire hvalue]
    rfl

/-- A store reads back as it was written, and with the same accounts. -/
theorem Valid.write (h : Valid store) : (w.write store).Valid ∧
    (w.write store).directory = directory store := by
  have hread : storeOrEmpty (w.write store).auth = .ok (Json.wireEntries store) := rfl
  constructor
  · refine ⟨_, hread, ⟨?_, ?_⟩⟩
    · rw [Json.keys_wireEntries]
      exact h.distinct
    · intro e he
      rw [Json.wireEntries_eq_map] at he
      obtain ⟨e', he', rfl⟩ := List.mem_map.mp he
      obtain ⟨provider, hentry⟩ := h.entries e' he'
      exact ⟨provider, hentry.wire⟩
  · funext name
    unfold Stored.directory
    rw [hread]
    dsimp only
    unfold directory
    rw [Json.lookup_wireEntries]
    cases hlookup : store.lookup name with
    | none => rfl
    | some raw =>
      have hmem := (Json.lookup_eq_some_iff_mem h.distinct).mp hlookup
      obtain ⟨provider, hentry⟩ := h.entries _ hmem
      rw [Option.map_some, Option.bind_some, Option.bind_some, hentry.wire.found, hentry.found]

theorem Valid.assign {provider : Str} {credential : Properties} (h : Valid store)
    (hentry : Entry name (.obj credential) provider) :
    Valid (Json.assign store name (.obj credential)) ∧
      directory (Json.assign store name (.obj credential)) = Function.update (directory store) name
        (some provider) := by
  constructor
  · refine ⟨Json.nodup_assign _ _ _, fun e he => ?_⟩
    rcases Json.mem_assign he with he | rfl
    · exact h.entries e he
    · exact ⟨provider, hentry⟩
  · funext other
    unfold directory
    rw [Json.lookup_assign h.distinct]
    by_cases hother : other = name
    · rw [if_pos hother, hother, Function.update_self]
      exact hentry.found
    · rw [if_neg hother, Function.update_of_ne hother]

theorem Valid.remove (h : Valid store) (name : Str) : Valid (Json.remove store name) ∧
    directory (Json.remove store name) = Function.update (directory store) name none := by
  constructor
  · exact ⟨Json.nodup_remove h.distinct, fun e he => h.entries e (List.mem_of_mem_filter he)⟩
  · funext other
    unfold directory
    rw [Json.lookup_remove]
    by_cases hother : other = name
    · rw [if_pos hother, hother, Function.update_self]
      rfl
    · rw [if_neg hother, Function.update_of_ne hother]

theorem credentialAccount_eq_ok {a : Account} (h : credentialAccount name raw = .ok a) :
    ∃ credential, raw = .obj credential ∧ validCredential credential = true := by
  unfold credentialAccount at h
  obtain ⟨account, -, h⟩ := bind_eq_ok.mp h
  obtain ⟨credential, hobject, h⟩ := bind_eq_ok.mp h
  obtain ⟨_, hvalid, -⟩ := bind_eq_ok.mp h
  unfold objectDocument at hobject
  split at hobject
  · cases hobject
    refine ⟨_, rfl, ?_⟩
    unfold refuse at hvalid
    split_ifs at hvalid with hrefused
    simpa using hrefused
  · cases hobject

theorem routeName_eq_ok {value : Option Json} {r : RouteName} (h : Accounts.routeName value = .ok r) :
    value = some (.str r.1) := by
  cases value with
  | none => cases h
  | some v =>
    cases v with
    | str s =>
      unfold Accounts.routeName at h
      dsimp only at h
      split_ifs at h
      cases h
      rfl
    | _ => cases h

theorem routeName_str {s : Str} (h : isProviderPrefix s = true) :
    ∃ r, Accounts.routeName (some (.str s)) = .ok r := by
  unfold Accounts.routeName
  exact ⟨_, dif_pos h⟩

/-- The catalogue accepts an entry whose credential has distinct properties exactly where it is
valid. -/
theorem credentialAccount_returns (hdistinct : ∀ credential, raw = .obj credential →
    (credential.map Prod.fst).Nodup) :
    (∃ a, credentialAccount name raw = .ok a) ↔ ∃ provider, Entry name raw provider := by
  constructor
  · intro h
    obtain ⟨a, ha⟩ := h
    obtain ⟨credential, hobj, hvalid⟩ := credentialAccount_eq_ok ha
    subst hobj
    have hname := credentialAccount_account ha
    unfold credentialAccount at ha
    obtain ⟨_, -, ha⟩ := bind_eq_ok.mp ha
    obtain ⟨found, hfound, ha⟩ := bind_eq_ok.mp ha
    obtain ⟨_, -, ha⟩ := bind_eq_ok.mp ha
    obtain ⟨provider, hprovider, ha⟩ := bind_eq_ok.mp ha
    cases hfound
    refine ⟨provider.1, ?_, ⟨_, rfl, hvalid, hdistinct _ rfl⟩, provider.2, ?_⟩
    · rw [← hname]
      exact a.account.2
    · rw [providerOf_obj, routeName_eq_ok hprovider]
      rfl
  · intro h
    obtain ⟨provider, hentry⟩ := h
    obtain ⟨credential, rfl, hvalid, -⟩ := hentry.credential
    have hobject : objectDocument (.obj credential) = .ok credential := rfl
    have hkept : refuse (!validCredential credential) .invalidCredential = .ok () := by
      rw [hvalid]
      rfl
    unfold credentialAccount
    obtain ⟨account, haccount⟩ := routeName_str hentry.account
    obtain ⟨owner, howner⟩ := routeName_str hentry.owner
    rw [haccount, ok_bind, hobject, ok_bind, hkept, ok_bind, provided hentry.found, howner]
    exact ⟨_, rfl⟩

/-- A store that was parsed is valid exactly where the catalogue accepts it. -/
theorem valid_iff_listed (h : (Json.obj store).Proper) :
    Valid store ↔ ∃ accounts, credentialAccounts store = .ok accounts := by
  have hnodup : ∀ object : Properties, (Json.obj object).Proper → (object.map Prod.fst).Nodup := by
    intro object hproper
    rw [← hproper.1]
    exact Json.nodup_ownProperties object
  have hentries := Json.properEntries_iff.mp h.2
  have hreturns : (∃ accounts, credentialAccounts store = .ok accounts) ↔
      ∀ e ∈ store, ∃ provider, Entry e.1 e.2 provider := by
    refine mapM_returns.trans (forall₂_congr fun e he =>
      credentialAccount_returns fun credential hobj => ?_)
    have hproper := hentries e he
    rw [hobj] at hproper
    exact hnodup credential hproper
  rw [hreturns]
  exact ⟨Valid.entries, fun hall => ⟨hnodup store h, hall⟩⟩

theorem lookup_loginCredential (args : LoginArgs) (obtained : Obtained) :
    (loginCredential args obtained).lookup (lit "provider") = some (.str args.provider.1) ∧
      ((loginCredential args obtained).map Prod.fst).Nodup := by
  refine ⟨?_, Json.nodup_spread _ _⟩
  have hnodup : (obtained.credential.map Prod.fst).Nodup := by
    cases obtained with
    | apiKey key =>
      have hkeys : ([lit "type", lit "key"] : List Str).Nodup := by decide
      exact hkeys
    | oauth credential => exact Json.nodup_spread _ _
  exact Json.lookup_spread hnodup [] (List.forall_mem_nil _)

theorem login_entry {args : LoginArgs} {obtained : Obtained} {site : Surroundings} (h : Valid store)
    (hvalid : validateStore args site (candidate store args.target.1
      (loginCredential args obtained)) = .ok ()) :
    Entry args.target.1 (.obj (loginCredential args obtained)) args.provider.1 := by
  obtain ⟨hprovider, hnodup⟩ := lookup_loginCredential args obtained
  refine ⟨args.target.2, ⟨_, rfl, ?_, hnodup⟩, args.provider.2, ?_⟩
  · unfold validateStore at hvalid
    obtain ⟨catalogue, hcatalogue, -⟩ := bind_eq_ok.mp hvalid
    have hbuild := mapError_eq_ok.mp hcatalogue
    unfold buildCatalogue at hbuild
    obtain ⟨accounts, haccounts, -⟩ := bind_eq_ok.mp hbuild
    have hentries := mapM_eq_ok.mp (mapError_eq_ok.mp haccounts)
    have hmem : (args.target.1, Json.obj (loginCredential args obtained)) ∈
        (candidate store args.target.1 (loginCredential args obtained)).properties := by
      rw [← Json.lookup_eq_some_iff_mem (candidate store args.target.1
        (loginCredential args obtained)).distinct]
      unfold candidate
      rw [Json.lookup_assign h.distinct, if_pos rfl]
    obtain ⟨a, -, ha⟩ := (mem_of_forall₂ hentries).2 _ hmem
    obtain ⟨credential, hsame, hcredential⟩ := credentialAccount_eq_ok ha
    cases hsame
    exact hcredential
  · rw [providerOf_obj, hprovider]
    rfl

theorem validCredential_congr {credential other : Properties}
    (h : ∀ name, name ≠ lit "provider" → credential.lookup name = other.lookup name) :
    validCredential credential = validCredential other := by
  unfold validCredential
  rw [h (lit "type") (by decide), h (lit "key") (by decide), h (lit "access") (by decide),
    h (lit "refresh") (by decide), h (lit "expires") (by decide)]

/-- The credential of a renamed account belongs to the same provider. -/
theorem moved_entry {target provider : Str} {credential : Properties}
    (h : Entry name (.obj credential) provider)
    (htarget : isProviderPrefix target = true) :
    Entry target (.obj (moved name credential)) provider := by
  obtain ⟨_, hsame, hvalid, hnodup⟩ := h.credential
  cases hsame
  have hfound := h.found
  rw [providerOf_obj] at hfound
  unfold moved
  have hassign : nullish (credential.lookup (lit "provider")) (some (.str name)) = some (.str name) →
      Entry target (.obj (Json.assign credential (lit "provider") (.str name))) provider := by
    intro hnullish
    rw [hnullish] at hfound
    refine ⟨htarget, ⟨_, rfl, ?_, Json.nodup_assign _ _ _⟩, h.owner, ?_⟩
    · rw [← hvalid]
      refine validCredential_congr fun other hother => ?_
      rw [Json.lookup_assign hnodup, if_neg hother]
    · rw [providerOf_obj, Json.lookup_assign hnodup, if_pos rfl]
      exact hfound
  split
  · rename_i hlookup
    rw [hlookup] at hassign
    exact hassign rfl
  · rename_i hlookup
    rw [hlookup] at hassign
    exact hassign rfl
  · rename_i value hnull hlookup
    refine ⟨htarget, ⟨_, rfl, hvalid, hnodup⟩, h.owner, ?_⟩
    rw [providerOf_obj, hlookup]
    rw [hlookup] at hfound
    cases value with
    | null => exact (hnull rfl).elim
    | _ => exact hfound

theorem validCredential_of_complete {credential : Properties} (h : completeOAuth credential = true) :
    validCredential credential = true := by
  unfold completeOAuth isOauth at h
  rw [Bool.and_eq_true, Bool.and_eq_true, Bool.and_eq_true] at h
  obtain ⟨⟨⟨htype, haccess⟩, hrefresh⟩, hexpires⟩ := h
  have hlookup : credential.lookup (lit "type") = some (.str (lit "oauth")) := by
    cases hvalue : credential.lookup (lit "type") with
    | none =>
      rw [hvalue] at htype
      cases htype
    | some value =>
      rw [hvalue] at htype
      cases value with
      | str type => rw [of_decide_eq_true htype]
      | _ => cases htype
  have hne : lit "oauth" ≠ lit "api_key" := by decide
  unfold expires at hexpires
  unfold validCredential
  rw [hlookup]
  dsimp only
  rw [if_neg hne, haccess, hrefresh, decide_eq_true rfl]
  cases htime : credential.lookup (lit "expires") with
  | none =>
    rw [htime] at hexpires
    cases hexpires
  | some value =>
    rw [htime] at hexpires
    cases value with
    | num time => exact hexpires
    | _ => cases hexpires

theorem nextCredential_provider {current : Properties} (h : (current.map Prod.fst).Nodup)
    (updated : Updated) (provider : Str) :
    (nextCredential current updated provider).lookup (lit "provider") = some (.str provider) := by
  unfold nextCredential
  dsimp only
  have hsplit : ∀ rest : Updated, updated ++ [(lit "type", some (.str (lit "oauth"))),
      (lit "provider", some (.str provider))] ++ rest =
        (updated ++ [(lit "type", some (.str (lit "oauth")))]) ++
        (lit "provider", some (.str provider)) :: rest := by
    intro rest
    simp
  rw [hsplit]
  refine Json.lookup_spread h _ fun e he => ?_
  split_ifs at he with haccount
  · rw [List.mem_singleton.mp he]
    have hne : lit "accountId" ≠ lit "provider" := by decide
    exact hne
  · cases he

/-- The account of a stored credential. -/
theorem Valid.entry (h : Valid store) (hlookup : store.lookup name = some raw) :
    ∃ provider, Entry name raw provider ∧ directory store name = some provider := by
  obtain ⟨provider, hentry⟩ := h.entries _ ((Json.lookup_eq_some_iff_mem h.distinct).mp hlookup)
  refine ⟨provider, hentry, ?_⟩
  unfold directory
  rw [hlookup]
  exact hentry.found

theorem credentialFor_eq_ok {account provider : Str} {current : Properties} :
    credentialFor store account provider = .ok current ↔
      store.lookup account = some (.obj current) ∧ providerOf account (.obj current) =
        some provider := by
  unfold credentialFor
  cases hlookup : store.lookup account with
  | none => exact iff_of_false (fun h => by cases h) fun h => by cases h.1
  | some raw =>
    cases raw with
    | obj credential =>
      dsimp only
      have htext : ∀ value : Option Json, isText value provider = true ↔
          value.bind Json.asString = some provider := by
        intro value
        unfold isText
        cases value with
        | none => exact iff_of_false Bool.false_ne_true fun h => by cases h
        | some v =>
          cases v with
          | str s =>
            rw [Option.bind_some, Json.asString, Option.some.injEq]
            exact decide_eq_true_iff
          | _ => exact iff_of_false Bool.false_ne_true fun h => by cases h
      split_ifs with hprovider
      · rw [htext] at hprovider
        constructor
        · intro h
          cases h
          exact ⟨rfl, hprovider⟩
        · intro h
          cases h.1
          rfl
      · rw [htext] at hprovider
        refine iff_of_false (fun h => by cases h) fun h => ?_
        cases h.1
        exact hprovider h.2
    | _ => exact iff_of_false (fun h => by cases h) fun h => by cases h.1

theorem storeDocument_eq_ok (h : storeDocument path w.auth = .ok store) :
    storeOrEmpty w.auth = .ok store := by
  unfold storeDocument at h
  unfold storeOrEmpty
  obtain ⟨value, hvalue, h⟩ := bind_eq_ok.mp h
  rw [hvalue, ok_bind]
  cases value with
  | obj properties => exact h
  | _ => cases h

/-- Both ways to read the store differ where there is none. -/
theorem storeOrEmpty_cases (h : storeOrEmpty w.auth = .ok store) :
    storeDocument path w.auth = .ok store ∨ store = [] := by
  unfold storeOrEmpty at h
  unfold storeDocument
  obtain ⟨value, hvalue, h⟩ := bind_eq_ok.mp h
  rw [hvalue, ok_bind]
  cases value with
  | obj properties => exact Or.inl h
  | null =>
    cases h
    exact Or.inr rfl
  | _ => cases h

theorem Stored.Valid.of_store (h : w.Valid) (hstore : storeOrEmpty w.auth = .ok store) :
    Credentials.Valid store ∧ w.directory = Credentials.directory store := by
  obtain ⟨store', hstore', hvalid⟩ := h
  rw [hstore] at hstore'
  cases hstore'
  refine ⟨hvalid, ?_⟩
  unfold Stored.directory
  rw [hstore]

/-- Every request keeps the store valid and does to the accounts what it says. -/
theorem Takes.valid {request : Request} {result : Option Properties}
    (h : Takes path request w result v)
    (hw : w.Valid) : v.Valid ∧ v.directory = request.apply w.directory := by
  cases h with
  | login hstore hcatalogue =>
    obtain ⟨hvalid, hdirectory⟩ := hw.of_store hstore
    obtain ⟨hassigned, hafter⟩ := hvalid.assign (login_entry hvalid hcatalogue)
    obtain ⟨hwritten, hread⟩ := hassigned.write (w := w)
    rw [hdirectory]
    exact ⟨hwritten, hread.trans hafter⟩
  | @logout account _ store changed hstore hchanged =>
    obtain ⟨hvalid, hdirectory⟩ := hw.of_store hstore
    unfold withoutAccount at hchanged
    split_ifs at hchanged
    · cases hchanged
      obtain ⟨hremoved, hafter⟩ := hvalid.remove account.1
      obtain ⟨hwritten, hread⟩ := hremoved.write (w := w)
      rw [hdirectory]
      exact ⟨hwritten, hread.trans hafter⟩
    · cases hchanged
  | @rename args _ store changed hstore hchanged =>
    obtain ⟨hvalid, hdirectory⟩ := hw.of_store hstore
    unfold renamed at hchanged
    cases hlookup : store.lookup args.source.1 with
    | none =>
      rw [hlookup] at hchanged
      cases hchanged
    | some raw =>
      rw [hlookup] at hchanged
      dsimp only at hchanged
      split_ifs at hchanged
      · cases hchanged
      · obtain ⟨provider, hentry, hsource⟩ := hvalid.entry hlookup
        cases raw with
        | obj credential =>
          cases hchanged
          obtain ⟨hassigned, hafter⟩ := hvalid.assign (moved_entry hentry args.target.2)
          obtain ⟨hremoved, hlast⟩ := hassigned.remove args.source.1
          obtain ⟨hwritten, hread⟩ := hremoved.write (w := w)
          refine ⟨hwritten, ?_⟩
          rw [hread, hlast, hafter, hdirectory, Request.apply, hsource]
        | _ => cases hchanged
  | current hholds _ => exact ⟨hw, rfl⟩
  | @refresh account provider _ store current now updated hholds _ hcomplete =>
    obtain ⟨hvalid, hdirectory⟩ := hw.of_store (storeDocument_eq_ok hholds.stored)
    obtain ⟨hlookup, hprovider⟩ := credentialFor_eq_ok.mp hholds.found
    obtain ⟨provider', hentry, hfound⟩ := hvalid.entry hlookup
    have hsame : provider' = provider := Option.some.inj (hentry.found.symm.trans hprovider)
    rw [hsame] at hentry hfound
    obtain ⟨_, hobj, -, hnodup⟩ := hentry.credential
    cases hobj
    have hnext : Entry account (.obj (nextCredential current updated provider)) provider := by
      refine ⟨hentry.account, ⟨_, rfl, validCredential_of_complete hcomplete,
        Json.nodup_spread _ _⟩, hentry.owner, ?_⟩
      rw [providerOf_obj, nextCredential_provider hnodup]
      rfl
    obtain ⟨hassigned, hafter⟩ := hvalid.assign hnext
    obtain ⟨hwritten, hread⟩ := hassigned.write (w := w.present ⟨account, provider, current, now⟩)
    refine ⟨hwritten, ?_⟩
    rw [hread, hafter, hdirectory, Request.apply, ← hfound, Function.update_eq_self]

/-- What a section does to the accounts. -/
def Moved (faulty : Prop) (event : Section) (before after : Directory) : Prop :=
  match event.outcome with
  | some (.ok _) => after = event.call.apply before
  | some (.error e) => after = before ∨ storage.Blames faulty e ∧ after = event.call.apply before
  | none => after = before ∨ after = event.call.apply before

theorem Leaves.valid {request : Request} (h : Leaves path request w v) (hw : w.Valid) :
    v.Valid ∧ v.directory = w.directory := by
  rcases h with rfl | hpresents
  · exact ⟨hw, rfl⟩
  · cases hpresents
    exact ⟨hw, rfl⟩

theorem Passes.valid {request : Request} (h : Passes path request w v) (hw : w.Valid) :
    v.Valid ∧ (v.directory = w.directory ∨ v.directory = request.apply w.directory) := by
  rcases h with hleaves | ⟨result, htakes⟩
  · obtain ⟨hv, hsame⟩ := hleaves.valid hw
    exact ⟨hv, Or.inl hsame⟩
  · obtain ⟨hv, hafter⟩ := htakes.valid hw
    exact ⟨hv, Or.inr hafter⟩

theorem took_valid {event : Section} (h : (effects path).Took (storage.Blames F) event w v)
    (hw : w.Valid) : v.Valid ∧ Moved F event w.directory v.directory := by
  unfold Effects.Took at h
  unfold Moved
  cases houtcome : event.outcome with
  | none =>
    rw [houtcome] at h
    exact Passes.valid h hw
  | some outcome =>
    rw [houtcome] at h
    cases outcome with
    | ok result => exact Takes.valid h hw
    | error e =>
      rcases h with hfails | ⟨hfaulty, hpasses⟩
      · obtain ⟨hv, hsame⟩ := Leaves.valid hfails hw
        exact ⟨hv, Or.inl hsame⟩
      · obtain ⟨hv, hcase⟩ := Passes.valid hpasses hw
        exact ⟨hv, hcase.imp_right fun hafter => ⟨hfaulty, hafter⟩⟩

theorem serial_valid {history : List Section}
    (h : Serial ((effects path).Took (storage.Blames F)) w history v) (hw : w.Valid) :
    v.Valid ∧ Serial (Moved F) w.directory history v.directory := by
  induction h with
  | nil => exact ⟨hw, .nil⟩
  | cons hstep _ ih =>
    obtain ⟨hnext, hmoved⟩ := took_valid hstep hw
    obtain ⟨hlast, hserial⟩ := ih hnext
    exact ⟨hlast, .cons hmoved hserial⟩

/-- In every interleaving the store stays one that the catalogue accepts, and its accounts are those
that the requests have made, one after the other. -/
theorem accounts_follow {s : Files} {history : List Section}
    {c : Locked (StoreOp Files Change Error Question) Files Request (Except Error (Option Properties))}
    (h : Sessions F path s history c) (hs : s.toStored.Valid) :
    c.shared.toStored.Valid ∧ ∃ d, Serial (Moved F) s.toStored.directory history d ∧
      match c.holder with
      | none => c.shared.toStored.directory = d
      | some (_, request, _) =>
        c.shared.toStored.directory = d ∨ c.shared.toStored.directory = request.apply d := by
  obtain ⟨w, hserial, hholder⟩ := (requests_sound (F := F) path).serial h
  obtain ⟨hw, hmoved⟩ := serial_valid hserial hs
  unfold Effects.Progress at hholder
  cases hcase : c.holder with
  | none =>
    rw [hcase] at hholder
    dsimp only at hholder
    rw [hholder]
    exact ⟨hw, w.directory, hmoved, rfl⟩
  | some holder =>
    rw [hcase] at hholder
    obtain ⟨p, request, x⟩ := holder
    obtain ⟨hvalid, hafter⟩ := Passes.valid hholder hw
    exact ⟨hvalid, w.directory, hmoved, hafter⟩

theorem demo_valid : Valid demoStore := by
  refine ⟨by decide, fun e he => ?_⟩
  rw [List.mem_singleton.mp he]
  exact ⟨lit "acme", by decide, ⟨_, rfl, by decide +kernel, by decide⟩, by decide, rfl⟩

theorem demo_follows : ∃ (next : Option Properties) (t : Files), t.toStored.Valid ∧
    ∃ d, Serial (Moved False) demoFiles.toStored.directory [lostSection, demoSection next] d ∧
    t.toStored.directory = d := by
  obtain ⟨next, t, h, -⟩ := demo_sessions
  exact ⟨next, t, accounts_follow h ⟨demoStore, rfl, demo_valid⟩⟩

/-- The catalogue lists the accounts of the store with their providers. -/
theorem credentialAccounts_directory {credentials : Accounts.Document} {accounts : List Account}
    (h : credentialAccounts credentials.properties = .ok accounts) :
    ∀ a ∈ accounts, directory credentials.properties a.account.1 = some a.provider.1 := by
  intro a ha
  obtain ⟨raw, hlookup, haccount⟩ := (mem_credentialAccounts h).mp ha
  unfold directory
  rw [hlookup, Option.bind_some]
  unfold credentialAccount at haccount
  obtain ⟨_, -, haccount⟩ := bind_eq_ok.mp haccount
  obtain ⟨credential, hobject, haccount⟩ := bind_eq_ok.mp haccount
  obtain ⟨_, -, haccount⟩ := bind_eq_ok.mp haccount
  obtain ⟨provider, hprovider, haccount⟩ := bind_eq_ok.mp haccount
  have hobj : raw = .obj credential := by
    cases raw with
    | obj properties =>
      cases hobject
      rfl
    | _ => cases hobject
  have hname : provider = a.provider := by
    cases haccount
    rfl
  rw [hobj, providerOf_obj, routeName_eq_ok hprovider, hname]
  rfl

/-- A valid credential is an API key or a complete OAuth credential. -/
theorem validCredential_cases {credential : Properties} (h : validCredential credential = true) :
    isText (credential.lookup (lit "type")) (lit "api_key") = true ∧
        isText (credential.lookup (lit "type")) (lit "oauth") = false ∧
          (text (credential.lookup (lit "key"))).isNone = false ∨
      isText (credential.lookup (lit "type")) (lit "api_key") = false ∧
        isText (credential.lookup (lit "type")) (lit "oauth") = true ∧
          completeOAuth credential = true := by
  unfold validCredential at h
  have hne : lit "api_key" ≠ lit "oauth" := by decide
  cases htype : credential.lookup (lit "type") with
  | none =>
    rw [htype] at h
    cases h
  | some value =>
    rw [htype] at h
    cases value with
    | str type =>
      dsimp only at h
      unfold isText
      dsimp only
      split_ifs at h with hkey
      · left
        rw [hkey, decide_eq_true rfl, decide_eq_false hne]
        refine ⟨rfl, rfl, ?_⟩
        rw [Option.isNone_eq_false_iff]
        exact h
      · right
        rw [Bool.and_eq_true, Bool.and_eq_true, Bool.and_eq_true] at h
        obtain ⟨⟨⟨hoauth, haccess⟩, hrefresh⟩, hexpires⟩ := h
        refine ⟨decide_eq_false hkey, hoauth, ?_⟩
        unfold completeOAuth isOauth expires
        rw [htype, haccess, hrefresh]
        dsimp only
        rw [hoauth]
        cases htime : credential.lookup (lit "expires") with
        | none =>
          rw [htime] at hexpires
          cases hexpires
        | some value =>
          rw [htime] at hexpires
          cases value with
          | num time => exact hexpires
          | _ => cases hexpires
    | _ => cases h

/-- The credential of an account is found for its provider, and only for it. -/
theorem Valid.credentialFor (h : Valid store) (account provider : Str) :
    (∃ current, credentialFor store account provider = .ok current ∧ validCredential current = true) ↔
      directory store account = some provider := by
  constructor
  · intro hfound
    obtain ⟨current, hcurrent, -⟩ := hfound
    obtain ⟨hlookup, hprovider⟩ := credentialFor_eq_ok.mp hcurrent
    unfold directory
    rw [hlookup]
    exact hprovider
  · intro hdirectory
    unfold directory at hdirectory
    obtain ⟨raw, hlookup, hprovider⟩ := Option.bind_eq_some_iff.mp hdirectory
    obtain ⟨_, hentry, -⟩ := h.entry hlookup
    obtain ⟨credential, hobj, hvalid, -⟩ := hentry.credential
    rw [hobj] at hlookup hprovider
    exact ⟨credential, credentialFor_eq_ok.mpr ⟨hlookup, hprovider⟩, hvalid⟩

section
variable {implemented : Str → Bool} {routes : List (Str × Str)}

theorem checkRoutes_eq_ok (accounts : List Str) (h : Valid store)
    (hroutes : ∀ r ∈ routes, ∀ r' ∈ routes, r.1 = r'.1 → r.2 = r'.2)
    (hcode : ∀ r ∈ routes, implemented r.2 = true) :
    check.checkRoutes implemented store routes accounts = .ok () ↔
      ∀ r ∈ routes, r.1 ∈ accounts ∨ directory store r.1 = some r.2 := by
  induction routes generalizing accounts with
  | nil => exact iff_of_true rfl (List.forall_mem_nil _)
  | cons route rest ih =>
    obtain ⟨account, provider⟩ := route
    have hrest := fun accounts => ih accounts
      (fun r hr r' hr' => hroutes r (List.mem_cons_of_mem _ hr) r' (List.mem_cons_of_mem _ hr'))
      (fun r hr => hcode r (List.mem_cons_of_mem _ hr))
    unfold check.checkRoutes
    rw [List.forall_mem_cons]
    by_cases hseen : account ∈ accounts
    · rw [if_pos hseen, hrest accounts]
      exact (and_iff_right (Or.inl hseen)).symm
    · rw [if_neg hseen]
      have hfound := h.credentialFor account provider
      cases hcurrent : Credentials.credentialFor store account provider with
      | error e =>
        refine iff_of_false (fun hcheck => by cases hcheck) fun hall => ?_
        obtain ⟨current, hok, -⟩ := hfound.mpr (hall.1.resolve_left hseen)
        cases hcurrent.symm.trans hok
      | ok current =>
        obtain ⟨hlookup, hprovider⟩ := credentialFor_eq_ok.mp hcurrent
        obtain ⟨_, hentry, hdirectory⟩ := h.entry hlookup
        obtain ⟨_, hobj, hvalid, -⟩ := hentry.credential
        cases hobj
        have hsame := hentry.found.symm.trans hprovider
        rw [hsame] at hdirectory
        have hchecked : (∀ r ∈ rest, r.1 ∈ account :: accounts ∨ directory store r.1 = some r.2) ↔
            (account ∈ accounts ∨ directory store account = some provider) ∧
              ∀ r ∈ rest, r.1 ∈ accounts ∨ directory store r.1 = some r.2 := by
          rw [and_iff_right (Or.inr hdirectory)]
          refine forall₂_congr fun r hr => ?_
          rw [List.mem_cons, or_assoc]
          refine or_iff_right_of_imp fun haccount => Or.inr ?_
          rw [haccount, hdirectory]
          exact congrArg some (hroutes _ List.mem_cons_self r
            (List.mem_cons_of_mem _ hr) haccount.symm)
        rw [← hchecked, ← hrest (account :: accounts), ok_bind]
        dsimp only
        rcases validCredential_cases hvalid with ⟨hkey, hoauth, htext⟩ | ⟨hkey, hoauth, hcomplete⟩
        · rw [hkey, hoauth, htext]
          exact Iff.rfl
        · rw [hkey, hoauth, (validateOAuth_eq_ok (u := ())).mpr hcomplete, hcode _ List.mem_cons_self]
          exact Iff.rfl

/-- The check passes for routes whose accounts still belong to their providers, and for no others. -/
theorem check_eq_ok (hw : w.Valid) (hroutes : ∀ r ∈ routes, ∀ r' ∈ routes, r.1 = r'.1 → r.2 = r'.2)
    (hcode : ∀ r ∈ routes, implemented r.2 = true) :
    check path implemented w.auth routes = .ok () ↔ ∀ r ∈ routes, w.directory r.1 = some r.2 := by
  unfold check
  cases routes with
  | nil => exact iff_of_true rfl (List.forall_mem_nil _)
  | cons route rest =>
    rw [if_neg (List.cons_ne_nil _ _)]
    cases hstore : storeDocument path w.auth with
    | error e =>
      refine iff_of_false (fun h => by cases h) fun h => ?_
      obtain ⟨store, hread, hvalid⟩ := hw
      have hroute := h route List.mem_cons_self
      rw [(Stored.Valid.of_store ⟨store, hread, hvalid⟩ hread).2] at hroute
      rcases storeOrEmpty_cases hread with hsame | hempty
      · cases hstore.symm.trans hsame
      · rw [hempty] at hroute
        cases hroute
    | ok store =>
      obtain ⟨hvalid, hdirectory⟩ := hw.of_store (storeDocument_eq_ok hstore)
      have hchecked := checkRoutes_eq_ok [] hvalid hroutes hcode
      rw [hdirectory]
      refine hchecked.trans (forall₂_congr fun r _ => ?_)
      exact or_iff_right List.not_mem_nil

end

/-- The accounts and the providers that the routes of a catalogue lead to. -/
def routeAccounts (catalogue : Catalogue) : List (Str × Str) :=
  catalogue.routes.map fun route => (route.2.account, route.2.provider)

section
variable {localeLe : Str → Str → Bool} {parseUrl : Str → Option Url}
    {getApiProvider : Str → Option (Option ApiProvider)}
  {providers : List PiProvider} {credentials custom : Accounts.Document} {catalogue : Catalogue}

theorem routeAccounts_directory
    (h : buildCatalogue localeLe parseUrl getApiProvider providers credentials custom =
      .ok catalogue) :
    ∀ r ∈ routeAccounts catalogue, directory credentials.properties r.1 = some r.2 := by
  obtain ⟨accounts, definitions, registry, haccepted, diagnostics, hcatalogue⟩ :=
    buildCatalogue_eq_ok h
  have hlists : catalogue.Lists accounts := by
    rw [hcatalogue]
    exact lists_ofRoutes localeLe (credentialAccounts_nodup haccepted.listed) diagnostics
  intro r hr
  obtain ⟨entry, hentry, hsame⟩ := List.mem_map.mp hr
  obtain ⟨-, a, ha, model, -, -, hleads⟩ := hlists.routes entry hentry
  rw [← hsame]
  dsimp only
  rw [hleads.account, hleads.provider]
  exact credentialAccounts_directory haccepted.listed a ha

/-- After any sessions, the routes of a catalogue pass the check exactly where every account of them
belongs to the provider that it belonged to when the catalogue was built. -/
theorem check_after_sessions {implemented : Str → Bool} {s t : Files} {history : List Section}
    (hstored : storeOrEmpty s.auth = .ok credentials.properties) (hs : s.toStored.Valid)
    (hbuilt : buildCatalogue localeLe parseUrl getApiProvider providers credentials custom =
      .ok catalogue)
    (hcode : ∀ r ∈ routeAccounts catalogue, implemented r.2 = true)
    (h : Sessions F path s history ⟨t, none⟩) :
    Serial (Moved F) s.toStored.directory history t.toStored.directory ∧
      (check path implemented t.auth (routeAccounts catalogue) = .ok () ↔
        ∀ r ∈ routeAccounts catalogue, t.toStored.directory r.1 = s.toStored.directory r.1) := by
  have hrouted := routeAccounts_directory hbuilt
  rw [← (hs.of_store hstored).2] at hrouted
  obtain ⟨w, hserial, hholder⟩ := (requests_sound (F := F) path).serial h
  obtain ⟨hw, hmoved⟩ := serial_valid hserial hs
  have hsame : t.toStored = w := hholder
  have hroutes : ∀ r ∈ routeAccounts catalogue, ∀ r' ∈ routeAccounts catalogue, r.1 = r'.1 →
      r.2 = r'.2 := by
    intro r hr r' hr' hsame
    have hfirst := hrouted r hr
    rw [hsame, hrouted r' hr'] at hfirst
    exact (Option.some.inj hfirst).symm
  rw [← hsame] at hw hmoved
  refine ⟨hmoved, (check_eq_ok hw hroutes hcode).trans (forall₂_congr fun r hr => ?_)⟩
  rw [hrouted r hr]

end

def demoProvider : PiProvider where
  id := some (lit "acme")
  auth := true
  baseUrl := some (.str (lit "http://acme/"))
  getModels := some (.models [⟨.obj [(lit "id", .str (lit "m")),
    (lit "api", .str (lit "openai-responses")),
    (lit "input", .arr [.str (lit "text")]), (lit "contextWindow", .num (.finite 8)),
    (lit "maxTokens", .num (.finite 4))], true⟩])
  filterModels := none
  streamSimple := true

def demoCatalogue : Except Accounts.Failure Catalogue :=
  buildCatalogue (fun _ _ => true) (fun url => some ⟨lit "http:", [], [], [], [], url⟩)
    (fun api => some (some ⟨api, true, true⟩)) [demoProvider] ⟨demoStore, demo_valid.distinct⟩
      ⟨[], List.nodup_nil⟩

theorem demo_checked : ∃ (next : Option Properties) (t : Files) (catalogue : Catalogue),
    routeAccounts catalogue = [(lit "work", lit "acme")] ∧
    Serial (Moved False) demoFiles.toStored.directory [lostSection, demoSection next]
      t.toStored.directory ∧ (check (lit "auth.json") (fun _ => true) t.auth
        (routeAccounts catalogue) = .ok () ↔
        ∀ r ∈ routeAccounts catalogue, t.toStored.directory r.1 =
          demoFiles.toStored.directory r.1) := by
  obtain ⟨next, t, h, -⟩ := demo_sessions
  have computed : demoCatalogue.toOption.map routeAccounts = some [(lit "work", lit "acme")] := by
    decide +kernel
  obtain ⟨catalogue, hok, hroutes⟩ := Option.map_eq_some_iff.mp computed
  have hbuilt := toOption_eq_some.mp hok
  exact ⟨next, t, catalogue, hroutes, check_after_sessions rfl ⟨demoStore, rfl, demo_valid⟩ hbuilt
    (fun _ _ => rfl) h⟩

end Cyclo.Gateway.Credentials
