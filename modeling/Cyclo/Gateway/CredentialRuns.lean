import Cyclo.Gateway.CredentialStore
import Cyclo.Process.Observed

/-! Processes that log in, log out, rename and refresh, and that can be lost anywhere: their sections
take effect one after the other, each on the store that the one before has left. -/
namespace Cyclo.Gateway.Credentials
open Js Accounts Process

variable {F : Prop} {I : Stored → Prop} {X : Stored → Prop} {w v : Stored} {path : Str}

/-- The store with these properties in its file. -/
def Stored.write (w : Stored) (store : Properties) : Stored :=
  { w with auth := some (.parsed (Json.obj store).wire) }

def Stored.present (w : Stored) (presented : Presented) : Stored :=
  { w with presented := w.presented ++ [presented] }

/-- The store has a complete credential for the account of the provider. -/
structure Stored.Holds (w : Stored) (path account provider : Str) (store current : Properties) :
    Prop where
  stored : storeDocument path w.auth = .ok store
  found : credentialFor store account provider = .ok current
  complete : completeOAuth current = true

/-- What a request does that returns. -/
inductive Takes (path : Str) : Request → Stored → Option Properties → Stored → Prop where
  | login {args : LoginArgs} {obtained : Obtained} {site : Surroundings} {w : Stored}
    {store : Properties} : storeOrEmpty w.auth = .ok store →
    validateStore args site (candidate store args.target.1 (loginCredential args obtained)) = .ok () →
    Takes path (.login args obtained) w none
      (w.write (candidate store args.target.1 (loginCredential args obtained)).properties)
  | logout {account : RouteName} {w : Stored} {store changed : Properties} :
    storeOrEmpty w.auth = .ok store → withoutAccount account store = .ok changed →
    Takes path (.logout account) w none (w.write changed)
  | rename {args : RenameArgs} {w : Stored} {store changed : Properties} :
    storeOrEmpty w.auth = .ok store → renamed args store = .ok changed →
    Takes path (.rename args) w none (w.write changed)
  | current {account provider : Str} {w : Stored} {store current : Properties} {now : TimeValue} :
    w.Holds path account provider store current → notExpired now current = true →
    Takes path (.refresh account provider) w (some current) w
  | refresh {account provider : Str} {w : Stored} {store current : Properties} {now : TimeValue}
    {updated : Updated} : w.Holds path account provider store current →
    notExpired now current = false → completeOAuth (nextCredential current updated provider) =
      true →
    Takes path (.refresh account provider) w (some (nextCredential current updated provider))
      ((w.present ⟨account, provider, current, now⟩).write
        (Json.assign store account (.obj (nextCredential current updated provider))))

/-- A refresh has presented the credential of the store, which had expired. -/
inductive Presents (path : Str) : Request → Stored → Stored → Prop where
  | refresh {account provider : Str} {w : Stored} {store current : Properties} {now : TimeValue} :
    w.Holds path account provider store current → notExpired now current = false →
    Presents path (.refresh account provider) w (w.present ⟨account, provider, current, now⟩)

/-- The document is as it was; at most a credential was presented. -/
def Leaves (path : Str) (request : Request) (w v : Stored) : Prop := v = w ∨ Presents path request w v

/-- Where a request can be stopped. -/
def Passes (path : Str) (request : Request) (w v : Stored) : Prop :=
  Leaves path request w v ∨ ∃ result, Takes path request w result v

def effects (path : Str) : Effects Request (Option Properties) Stored where
  takes := Takes path
  fails := Leaves path
  passes := Passes path

/-- One section under the lock. -/
abbrev Section := Event Request (Except Error (Option Properties))

instance nonempty_surroundings : Nonempty Surroundings :=
  ⟨⟨fun _ _ => true, fun _ => none, fun _ => none, [], ⟨[], List.nodup_nil⟩⟩⟩

instance nonempty_timeValue : Nonempty TimeValue := ⟨⟨0, TimeValue.zero_inRange⟩⟩

/-- What a program does to the store, whatever there is of a temporary file. -/
abbrev Does (F : Prop) (I : Stored → Prop) {α : Type} (x : Call α) (P : α → Stored → Prop)
    (X : Stored → Prop) (w : Stored) : Prop := Observed storage F Files.toStored I x P X w

theorem readAuth_does {α : Type} {P : α → Stored → Prop} {f : Option Content → Call α} (hI : I w)
    (h : Does F I (f w.auth) P X w) : Does F I (readAuth >>= f) P X w :=
  Observed.get Stored.auth (fun _ => rfl) hI h

theorem ask_does {α β : Type} {P : α → Stored → Prop} {question : Question β} [Nonempty β]
    {f : β → Call α} (hI : I w) (h : ∀ answer, Does F I (f answer) P X w) :
    Does F I (ask question >>= f) P X w :=
  Observed.ask hI (fun _ => ⟨Classical.arbitrary β, trivial⟩) h

theorem system_does {call : SystemCall} {P : Unit → Stored → Prop} (hI : I w) (h : P () w) :
    Does F I (system call) P X w :=
  Observed.change hI fun s hs => ⟨s, rfl, by rwa [hs], by rwa [hs]⟩

theorem withFileLock_does {α : Type} {P : α → Stored → Prop} {body : Call α}
    (h : Does F I body P X w) : Does F I (withFileLock body) P X w := by
  intro s hs
  refine Along.bind (Along.weaken (h s hs) (fun _ ht => ht) (fun _ _ hx => hx) fun r t hI hr => ?_)
  -- released or not, the lock is no part of the store
  have hrelease : Does F (fun v => t.toStored = v) (system .releaseLock) (fun _ _ => True)
      (fun _ => False) t.toStored := system_does rfl trivial
  refine Along.bind (Along.weaken (hrelease t rfl) (fun u hsame => ?_) (fun _ _ hx => hx)
    fun c u hsame hc => ?_)
  · rw [← hsame]
    exact hI
  have hu : I u.toStored := by
    rw [← hsame]
    exact hI
  cases r with
  | ok a =>
    have hP : P a t.toStored := hr
    rw [hsame] at hP
    cases c with
    | ok _ => exact ⟨hu, hP⟩
    | error e => exact ⟨hu, Or.inl (hc.resolve_right id)⟩
  | error e =>
    have hX : storage.Blames F e ∨ X t.toStored := hr
    rw [hsame] at hX
    cases c with
    | ok _ => exact ⟨hu, hX⟩
    | error e' => exact ⟨hu, hX⟩

theorem removeTemporary_does (hI : I w) :
    Does F I (change .removeTemporary) (fun _ v => w = v) (fun _ => False) w := by
  refine Observed.change hI fun s hs => ⟨{ s with temporary := none }, rfl, ?_⟩
  rw [← hs] at hI ⊢
  exact ⟨hI, rfl⟩

/-- The file is replaced at once, when all of the other one is there. -/
theorem replace_does {store : Properties} (hbefore : I w) (hafter : I (w.write store)) :
    Does F I (do
      change .truncateTemporary
      change (.writeTemporary (.obj store))
      system .flush
      change .renameTemporary) (fun _ v => v = w.write store) X w := by
  intro s hs
  have hkept : I s.toStored := by rwa [hs]
  let truncated : Files := { s with temporary := some .malformed }
  let written : Files := { s with temporary := some (.parsed (Json.obj store).wire) }
  let replaced : Files := { s with auth := some (.parsed (Json.obj store).wire), temporary := none }
  have hreplaced : replaced.toStored = w.write store := by rw [← hs]; rfl
  refine Leads.bind (P := fun _ t => t = truncated) (Leads.changeTo hkept rfl hkept rfl)
    (fun _ _ _ h => h) ?_
  rintro _ _ _ rfl
  refine Leads.bind (P := fun _ t => t = written) (Leads.changeTo hkept rfl hkept rfl)
    (fun _ _ _ h => h) ?_
  rintro _ _ _ rfl
  refine Leads.bind (P := fun _ t => t = written) (Leads.changeTo hkept rfl hkept rfl)
    (fun _ _ _ h => h) ?_
  rintro _ _ _ rfl
  exact Leads.changeTo (t := replaced) hkept rfl (by rwa [hreplaced]) hreplaced

theorem writeJsonAtomic_does {store : Properties} (hbefore : I w) (hafter : I (w.write store)) :
    Does F I (writeJsonAtomic (.obj store)) (fun _ v => v = w.write store) X w := by
  unfold writeJsonAtomic
  refine Observed.bind (M := fun _ v => v = w) (system_does hbefore rfl) fun _ v _ hv => ?_
  have hreplace : Does F I (.protect (do
      change .truncateTemporary
      change (.writeTemporary (.obj store))
      system .flush
      change .renameTemporary) (change .removeTemporary)) (fun _ u => u = w.write store) X v := by
    rw [hv]
    exact Observed.protect (replace_does hbefore hafter) fun u hu => removeTemporary_does hu
  refine Observed.bind hreplace fun _ u hu hwritten => ?_
  rw [← hwritten]
  refine Observed.bind (M := fun _ v => v = u) (system_does hu rfl) fun _ v hv hsame => ?_
  rw [hsame]
  exact Observed.protect (system_does hu rfl) fun _ hI => system_does hI rfl

theorem login_does {args : LoginArgs} {obtained : Obtained} (hbefore : I w) (hX : X w)
    (hafter : ∀ v, Takes path (.login args obtained) w none v → I v) :
    Does F I (login args obtained) (fun _ v => Takes path (.login args obtained) w none v) X w := by
  unfold login
  refine withFileLock_does (readAuth_does hbefore ?_)
  refine Observed.ofExcept hbefore (fun _ _ => hX) fun store hstore => ?_
  refine ask_does hbefore fun site => ?_
  refine Observed.ofExcept hbefore (fun _ _ => hX) fun _ hvalid => ?_
  have htakes : Takes path (.login args obtained) w none _ := Takes.login hstore hvalid
  refine (writeJsonAtomic_does hbefore (hafter _ htakes)).weaken fun _ v _ hv => ?_
  rw [hv]
  exact htakes

theorem updateCredentialStore_does {update : Properties → Except Error Properties} {request : Request}
    (htakes : ∀ store changed, storeOrEmpty w.auth = .ok store → update store = .ok changed →
      Takes path request w none (w.write changed))
    (hbefore : I w) (hX : X w) (hafter : ∀ v, Takes path request w none v → I v) :
    Does F I (updateCredentialStore update) (fun _ v => Takes path request w none v) X w := by
  unfold updateCredentialStore
  refine withFileLock_does (readAuth_does hbefore ?_)
  refine Observed.ofExcept hbefore (fun _ _ => hX) fun store hstore => ?_
  refine Observed.ofExcept hbefore (fun _ _ => hX) fun changed hchanged => ?_
  have htaken := htakes store changed hstore hchanged
  refine (writeJsonAtomic_does hbefore (hafter _ htaken)).weaken fun _ v _ hv => ?_
  rw [hv]
  exact htaken

theorem validateOAuth_eq_ok {credential : Properties} {account : Str} {u : Unit} :
    validateOAuth credential account = .ok u ↔ completeOAuth credential = true := by
  unfold validateOAuth refused
  cases completeOAuth credential with
  | true => exact iff_of_true rfl rfl
  | false => exact iff_of_false (fun h => by cases h) (fun h => by cases h)

theorem refresh_does {account provider : Str} (hbefore : I w) (hX : X w)
    (hpresents : ∀ v, Presents path (.refresh account provider) w v → I v ∧ X v)
    (hafter : ∀ result v, Takes path (.refresh account provider) w result v → I v) :
    Does F I (refresh path account provider)
      (fun credential v => Takes path (.refresh account provider) w (some credential) v) X w := by
  unfold refresh
  refine withFileLock_does (readAuth_does hbefore ?_)
  refine Observed.ofExcept hbefore (fun _ _ => hX) fun store hstored => ?_
  refine Observed.ofExcept hbefore (fun _ _ => hX) fun current hfound => ?_
  refine Observed.ofExcept hbefore (fun _ _ => hX) fun _ hvalid => ?_
  have hholds : w.Holds path account provider store current :=
    ⟨hstored, hfound, validateOAuth_eq_ok.mp hvalid⟩
  refine ask_does hbefore fun now => ?_
  cases hexpired : notExpired now current with
  | true =>
    rw [if_pos rfl]
    exact Observed.pure hbefore (Takes.current hholds hexpired)
  | false =>
    rw [if_neg Bool.false_ne_true]
    refine ask_does hbefore fun implemented => ?_
    cases implemented with
    | false => exact Observed.raise hbefore hX
    | true =>
      have hpresented := Presents.refresh hholds hexpired
      obtain ⟨hI, hX⟩ := hpresents _ hpresented
      refine Observed.bind (M := fun _ v => v = w.present ⟨account, provider, current, now⟩)
        ?_ fun _ v _ hv => ?_
      · refine Observed.change hbefore fun s hs => ⟨_, rfl, ?_⟩
        rw [← hs] at hI ⊢
        exact ⟨hI, rfl⟩
      subst hv
      refine ask_does hI fun answer => ?_
      cases answer with
      | none => exact Observed.raise hI hX
      | some updated =>
        dsimp only
        cases hnext : completeOAuth (nextCredential current updated provider) with
        | false => exact Observed.raise hI hX
        | true =>
          have htakes := Takes.refresh hholds hexpired hnext
          refine Observed.bind (writeJsonAtomic_does hI (hafter _ _ htakes)) fun _ v hv hwritten => ?_
          rw [hwritten] at hv ⊢
          exact Observed.pure hv htakes

/-- Every request takes effect at once, if at all, and before that leaves the document as it is. -/
theorem request_does (request : Request) :
    Does F (Passes path request w) (request.call path) (fun result v => Takes path request w result v)
      (Leaves path request w) w := by
  have hbefore : Passes path request w w := Or.inl (Or.inl rfl)
  have hX : Leaves path request w w := Or.inl rfl
  have hafter : ∀ result v, Takes path request w result v → Passes path request w v :=
    fun result v h => Or.inr ⟨result, h⟩
  cases request with
  | login args obtained =>
    refine Observed.bind (login_does hbefore hX (hafter none)) fun _ v hv htakes => ?_
    exact Observed.pure hv htakes
  | logout account =>
    have hlogout := updateCredentialStore_does (F := F)
      (fun _ _ hstore hchanged => Takes.logout hstore hchanged) hbefore hX (hafter none)
    exact Observed.bind hlogout fun _ v hv htakes => Observed.pure hv htakes
  | rename args =>
    have hrename := updateCredentialStore_does (F := F)
      (fun _ _ hstore hchanged => Takes.rename hstore hchanged) hbefore hX (hafter none)
    exact Observed.bind hrename fun _ v hv htakes => Observed.pure hv htakes
  | refresh account provider =>
    have hrefresh := refresh_does (F := F) hbefore hX (fun v h => ⟨Or.inl (Or.inr h), Or.inr h⟩) hafter
    exact Observed.bind hrefresh fun _ v hv htakes => Observed.pure hv htakes

theorem requests_sound (path : Str) : (effects path).Sound storage F Files.toStored
    (Request.call path) :=
  fun request _ => request_does request

/-- Processes with requests to one store, each of which can be lost at any operation. -/
abbrev Sessions (faulty : Prop) (path : Str) (s : Files) (history : List Section)
    (c : Locked (StoreOp Files Change Error Question) Files Request
      (Except Error (Option Properties))) : Prop :=
  LockRuns (storage.kernel faulty) (fun request => (request.call path).run) ⟨s, none⟩ history c

/-- The document is whole. -/
def Stored.Whole (w : Stored) : Prop := w.auth ≠ some .malformed

theorem write_whole (store : Properties) : (w.write store).Whole := by
  intro h
  cases h

theorem Takes.whole {request : Request} {result : Option Properties}
    (h : Takes path request w result v) (hw : w.Whole) : v.Whole := by
  cases h with
  | current _ _ => exact hw
  | login _ _ => exact write_whole _
  | logout _ _ => exact write_whole _
  | rename _ _ => exact write_whole _
  | refresh _ _ _ => exact write_whole _

theorem Passes.whole {request : Request} (h : Passes path request w v) (hw : w.Whole) : v.Whole := by
  rcases h with (rfl | hpresents) | ⟨result, htakes⟩
  · exact hw
  · cases hpresents
    exact hw
  · exact htakes.whole hw

theorem effects_covered (path : Str) : (effects path).Covered := by
  constructor
  · intro request w v result htakes
    exact Or.inr ⟨result, htakes⟩
  · intro request w v hfails
    exact Or.inl hfails

/-- In every interleaving the sections take effect one after the other, none of them in part: the
document is always whole, what a request returns is what it did to the store that the requests
before it have left, and a failed request has done nothing, or all of it and then met a fault. -/
theorem credential_store_serial {faulty : Prop} {s : Files} {history : List Section}
    {c : Locked (StoreOp Files Change Error Question) Files Request (Except Error (Option Properties))}
    (h : Sessions faulty path s history c) :
    (∃ w, Serial ((effects path).Took (storage.Blames faulty)) s.toStored history w ∧
      (effects path).Progress Files.toStored c w) ∧
    (s.toStored.Whole → c.shared.toStored.Whole) := by
  refine ⟨(requests_sound (F := faulty) path).serial h, ?_⟩
  exact (requests_sound (F := faulty) path).invariant (effects_covered path)
    (fun _ _ _ hpasses => hpasses.whole) h

/-- The account `work` of the provider `acme`, with a credential that has expired. -/
def demoStore : Properties :=
  [(lit "work", .obj [(lit "type", .str (lit "oauth")), (lit "access", .str (lit "a")),
    (lit "refresh", .str (lit "r")), (lit "expires", .num (.finite 1)),
    (lit "provider", .str (lit "acme"))])]

def demoFiles : Files := ⟨⟨some (.parsed (.obj demoStore)), []⟩, none⟩

/-- Whatever is asked at the epoch; the provider returns a credential for an hour. -/
def demoAnswer : {β : Type} → Question β → Files → β
  | _, .surroundings, _ => ⟨fun _ _ => true, fun _ => none, fun _ => none, [], ⟨[], List.nodup_nil⟩⟩
  | _, .now, _ => ⟨0, TimeValue.zero_inRange⟩
  | _, .implementation _, _ => true
  | _, .refresh _, _ => some [(lit "access", some (.str (lit "b"))),
    (lit "expires", some (.num (.finite 3600000)))]

def demoRefresh : Request := .refresh (lit "work") (lit "acme")

/-- The process is lost when it has presented the credential. -/
def lostSection : Section := ⟨0, demoRefresh, none⟩

/-- Another one finds the store as it was. -/
def demoSection (next : Option Properties) : Section := ⟨1, demoRefresh, some (.ok next)⟩

theorem demo_sessions : ∃ (next : Option Properties) (t : Files),
    Sessions False (lit "auth.json") demoFiles [lostSection, demoSection next] ⟨t, none⟩ ∧
    t.presented.length = 2 := by
  have computed : ((Interp.advance (storage.eval demoAnswer) 4
      (demoRefresh.call (lit "auth.json")).run demoFiles).bind
      fun r => (Interp.run (storage.eval demoAnswer) (demoRefresh.call (lit "auth.json")).run r.2).map
        fun r => ((r.1.bind Except.toOption).isSome, r.2.presented.length)) = some (true,
        2) := by decide +kernel
  obtain ⟨⟨rest, u⟩, hadvance, hrest⟩ := Option.bind_eq_some_iff.mp computed
  obtain ⟨⟨out, t⟩, hrun, hend⟩ := Option.map_eq_some_iff.mp hrest
  obtain ⟨hout, hlength⟩ := Prod.mk.inj hend
  obtain ⟨next, hnext⟩ := Option.isSome_iff_exists.mp hout
  obtain ⟨r, hr, hok⟩ := Option.bind_eq_some_iff.mp hnext
  have hlost : Reaches (storage.kernel False) 0 (demoRefresh.call (lit "auth.json")).run
      demoFiles rest u :=
    Interp.advance_sound (storage.eval_sound fun _ _ => trivial) hadvance
  have hsound : Runs (storage.kernel False) 1 (demoRefresh.call (lit "auth.json")).run u out t :=
    Interp.run_sound (storage.eval_sound fun _ _ => trivial) hrun
  have hsuccess : out = some (.ok next) := by
    cases r with
    | ok a =>
      cases hok
      exact hr
    | error e => cases hok
  rw [hsuccess] at hsound
  have hfirst : Sessions False (lit "auth.json") demoFiles [lostSection] ⟨u, none⟩ :=
    Process.Section.lockRuns ⟨rest, hlost⟩
  have hsecond : Sessions False (lit "auth.json") u [demoSection next] ⟨t, none⟩ :=
    Process.Section.lockRuns hsound
  exact ⟨next, t, hfirst.trans hsecond, hlength⟩

theorem demo_serial : ∃ (next : Option Properties) (t : Files),
    (∃ w, Serial ((effects (lit "auth.json")).Took (storage.Blames False)) demoFiles.toStored
      [lostSection, demoSection next] w ∧
      t.toStored = w) ∧ (demoFiles.toStored.Whole → t.toStored.Whole) := by
  obtain ⟨next, t, h, -⟩ := demo_sessions
  exact ⟨next, t, credential_store_serial h⟩

/-- The credential is the one that the store has for the account, complete and expired. -/
def Presented.Due (presented : Presented) (path : Str) (w : Stored) : Prop :=
  (∃ store, w.Holds path presented.account presented.provider store presented.credential) ∧
    notExpired presented.time presented.credential = false

theorem Passes.presented {request : Request} (h : Passes path request w v) :
    v.presented = w.presented ∨ ∃ presented : Presented, v.presented = w.presented ++ [presented] ∧
      request = .refresh presented.account presented.provider ∧ presented.Due path w := by
  rcases h with (rfl | hpresents) | ⟨result, htakes⟩
  · exact Or.inl rfl
  · cases hpresents with
    | refresh hholds hexpired => exact Or.inr ⟨_, rfl, rfl, ⟨_, hholds⟩, hexpired⟩
  · cases htakes with
    | refresh hholds hexpired _ => exact Or.inr ⟨_, rfl, rfl, ⟨_, hholds⟩, hexpired⟩
    | login _ _ => exact Or.inl rfl
    | logout _ _ => exact Or.inl rfl
    | rename _ _ => exact Or.inl rfl
    | current _ _ => exact Or.inl rfl

/-- A refresh that has presented nothing has left the store as it was. -/
theorem Passes.unpresented {account provider : Str} (h : Passes path (.refresh account provider) w v)
    (hsame : v.presented = w.presented) : v = w := by
  have hgrown (presented : Presented) : w.presented ++ [presented] ≠ w.presented :=
    fun hlist => List.cons_ne_nil presented [] (List.append_right_eq_self.mp hlist)
  rcases h with (rfl | hpresents) | ⟨result, htakes⟩
  · rfl
  · cases hpresents
    exact absurd hsame (hgrown _)
  · cases htakes with
    | current _ _ => rfl
    | refresh _ _ _ => exact absurd hsame (hgrown _)

theorem exec_presented {β : Type} {op : StoreOp Files Change Error Question β} {s t : Files} {r : β}
    (h : storage.exec F op s r t) :
    t.presented = s.presented ∨ ∃ presented, t.toStored = s.toStored.present presented := by
  cases op with
  | get read =>
    cases r with
    | ok value =>
      obtain ⟨-, rfl⟩ := h
      exact Or.inl rfl
    | error e =>
      obtain ⟨-, -, rfl⟩ := h
      exact Or.inl rfl
  | ask question =>
    cases r with
    | ok answer =>
      obtain ⟨-, rfl⟩ := h
      exact Or.inl rfl
    | error e =>
      obtain ⟨-, -, rfl⟩ := h
      exact Or.inl rfl
  | change change =>
    cases r with
    | error e =>
      obtain ⟨-, -, rfl⟩ := h
      exact Or.inl rfl
    | ok _ =>
      have happly : change.apply s = some t := h
      unfold Change.apply at happly
      split at happly
      case h_5 presented =>
        cases happly
        exact Or.inr ⟨presented, rfl⟩
      all_goals first
        | cases happly
          exact Or.inl rfl
        | split at happly <;> cases happly
          exact Or.inl rfl

/-- The store and its lock. -/
abbrev Shared := Locked (StoreOp Files Change Error Question) Files Request
    (Except Error (Option Properties))

/-- A run presents the credential with the step from `c` to `d`: the refresh of its account holds
the lock, and the credential is due in the store, which is as the sections before have left it. -/
structure Presentation (faulty : Prop) (path : Str) (s : Files) (earlier : List Section)
    (presented : Presented) (c d : Shared) : Prop where
  reached : Sessions faulty path s earlier c
  step : LockStep (storage.kernel faulty) (fun request => (request.call path).run) c [] d
  holder : ∃ p rest, c.holder = some (p, .refresh presented.account presented.provider, rest)
  serial : Serial ((effects path).Took (storage.Blames faulty)) s.toStored earlier c.shared.toStored
  due : presented.Due path c.shared.toStored
  presents : d.shared.toStored = c.shared.toStored.present presented

theorem step_presents {s : Files} {history l : List Section} {c d : Shared}
    (h : Sessions F path s history c) (hstep : LockStep (storage.kernel F)
      (fun request => (request.call path).run) c l d) :
    d.shared.presented = c.shared.presented ∨ ∃ presented, l = [] ∧
    Presentation F path s history presented c d := by
  cases hstep with
  | enter => exact Or.inl rfl
  | leave => exact Or.inl rfl
  | lose => exact Or.inl rfl
  | @operate p request β op next t u r hexec =>
    rcases exec_presented hexec with hsame | ⟨presented, hnew⟩
    · exact Or.inl hsame
    · obtain ⟨w, hserial, hbefore, hafter⟩ := (requests_sound (F := F) path).operates h hexec
      have hgrown : u.presented = t.presented ++ [presented] := congrArg Stored.presented hnew
      -- the section has presented nothing before
      have hfirst : t.presented = w.presented := by
        rcases hbefore.presented with hkept | ⟨first, hkept, -⟩
        · exact hkept
        · have hmore : u.presented = w.presented ++ [first, presented] := by
            rw [hgrown, show t.presented = w.presented ++ [first] from hkept, List.append_assoc]
            rfl
          rcases hafter.presented with hlast | ⟨found, hlast, -⟩
          · cases List.append_right_eq_self.mp (hmore.symm.trans hlast)
          · cases List.append_cancel_left (hmore.symm.trans hlast)
      rcases hafter.presented with hlast | ⟨found, hlast, hcall, hdue⟩
      · rw [← hfirst] at hlast
        cases List.append_right_eq_self.mp (hgrown.symm.trans hlast)
      · have hsame : presented = found := by
          rw [← hfirst] at hlast
          cases List.append_cancel_left (hgrown.symm.trans hlast)
          rfl
        rw [← hsame] at hcall hdue
        subst hcall
        have hstore : t.toStored = w := hbefore.unpresented hfirst
        rw [← hstore] at hserial hdue
        exact Or.inr ⟨presented, rfl, h, .operate hexec, ⟨p, _, rfl⟩, hserial, hdue, hnew⟩

theorem took_presented {event : Section} (h : (effects path).Took (storage.Blames F) event w v) :
    v.presented.length ≤ w.presented.length + 1 := by
  have hpasses : Passes path event.call w v := (effects_covered path).took h
  rcases hpasses.presented with hsame | ⟨presented, hnew, -⟩
  · rw [hsame]
    exact Nat.le_succ _
  · rw [hnew, List.length_append, List.length_singleton]

theorem serial_presented {history : List Section}
    (h : Serial ((effects path).Took (storage.Blames F)) w history v) :
    v.presented.length ≤ w.presented.length + history.length := by
  induction h with
  | nil => exact le_rfl
  | cons hstep _ ih =>
    have hfirst := took_presented hstep
    rw [List.length_cons]
    omega

/-- Whatever an interleaving presents, it presents with one of its steps. -/
theorem sessions_present {s : Files} {history : List Section} {c : Shared}
    (h : Sessions F path s history c) :
    ∃ more, c.shared.presented = s.presented ++ more ∧ ∀ presented ∈ more, ∃ earlier later a b,
      history = earlier ++ later ∧ Presentation F path s earlier presented a b ∧
        LockRuns (storage.kernel F) (fun request => (request.call path).run) b later c := by
  induction h with
  | refl => exact ⟨[], (List.append_nil _).symm, List.forall_mem_nil _⟩
  | @tail history l c d hrun hstep ih =>
    obtain ⟨more, hmore, hall⟩ := ih
    have hlater : ∀ presented ∈ more, ∃ earlier later a b, history ++ l = earlier ++ later ∧
        Presentation F path s earlier presented a b ∧
          LockRuns (storage.kernel F) (fun request => (request.call path).run) b later d := by
      intro presented hmem
      obtain ⟨earlier, later, a, b, hhistory, hat, hrest⟩ := hall presented hmem
      refine ⟨earlier, later ++ l, a, b, ?_, hat, .tail hrest hstep⟩
      rw [hhistory, List.append_assoc]
    rcases step_presents hrun hstep with hsame | ⟨presented, hnone, hat⟩
    · exact ⟨more, hsame.trans hmore, hlater⟩
    · have hnew : d.shared.presented = c.shared.presented ++ [presented] :=
        congrArg Stored.presented hat.presents
      refine ⟨more ++ [presented], ?_, List.forall_mem_append.mpr
        ⟨hlater, List.forall_mem_singleton.mpr ?_⟩⟩
      · rw [hnew, hmore, List.append_assoc]
      · exact ⟨history, l, c, d, rfl, hat, hnone ▸ .refl⟩

/-- A credential is presented by a refresh of its account, once in a section, and is then the one
that the sections before have left in the store. -/
theorem presented_stored {faulty : Prop} {s t : Files} {history : List Section}
    (h : Sessions faulty path s history ⟨t, none⟩) :
    ∃ more, t.presented = s.presented ++ more ∧ more.length ≤ history.length ∧ ∀ presented ∈ more,
      ∃ earlier event later c d, history = earlier ++ event :: later ∧
        event.call = .refresh presented.account presented.provider ∧
        Presentation faulty path s earlier presented c d ∧
        LockRuns (storage.kernel faulty) (fun request => (request.call path).run) d
          (event :: later) ⟨t, none⟩ := by
  obtain ⟨more, hmore, hall⟩ := sessions_present h
  obtain ⟨v, hserial, hlast⟩ := (requests_sound (F := faulty) path).serial h
  have hsame : t.toStored = v := hlast
  refine ⟨more, hmore, ?_, fun presented hmem => ?_⟩
  · have hlength := serial_presented hserial
    rw [← hsame] at hlength
    have hcount := congrArg List.length hmore
    rw [List.length_append] at hcount
    exact Nat.le_of_add_le_add_left (hcount ▸ hlength)
  · obtain ⟨earlier, later, c, d, hhistory, hat, hrest⟩ := hall presented hmem
    obtain ⟨p, rest, hholder⟩ := hat.holder
    have hwhole : LockRuns (storage.kernel faulty) (fun request => (request.call path).run) c later
        ⟨t, none⟩ :=
      LockRuns.trans (.tail .refl hat.step) hrest
    obtain ⟨shared, holder⟩ := c
    cases hholder
    rcases hwhole.holder with ⟨-, y, hnone⟩ | ⟨outcome, after, hlater⟩
    · cases hnone
    · rw [hlater] at hhistory hrest
      exact ⟨earlier, _, after, _, d, hhistory, rfl, hat, hrest⟩

theorem demo_presented : ∃ (next : Option Properties) (t : Files), t.presented.length = 2 ∧
    ∃ more, t.presented = demoFiles.presented ++ more ∧
    more.length ≤ [lostSection, demoSection next].length ∧ ∀ presented ∈ more,
      ∃ earlier event later c d, [lostSection, demoSection next] = earlier ++ event :: later ∧
        event.call = .refresh presented.account presented.provider ∧
        Presentation False (lit "auth.json") demoFiles earlier presented c d ∧
        LockRuns (storage.kernel False) (fun request => (request.call (lit "auth.json")).run) d
          (event :: later) ⟨t, none⟩ := by
  obtain ⟨next, t, h, hlength⟩ := demo_sessions
  exact ⟨next, t, hlength, presented_stored h⟩

end Cyclo.Gateway.Credentials
