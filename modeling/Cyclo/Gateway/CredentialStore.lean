import Cyclo.Gateway.Catalogue
import Cyclo.Js.Base64
import Cyclo.Js.Date
import Cyclo.Js.Object
import Cyclo.Process.Storage
import Cyclo.Python.Decoding
import Cyclo.Results

/-! The credential store of the gateway: logins, logouts, renames and refreshes replace one JSON file
under a lock. A file is represented by the document that its text spells. -/
namespace Cyclo.Gateway.Credentials
open Js Accounts Process

inductive Content where
  | parsed (value : Json)
  | malformed

/-- A provider was asked at that time to refresh the credential of an account. -/
structure Presented where
  account : Str
  provider : Str
  credential : Properties
  time : TimeValue

/-- `auth.json`, and the credentials that were presented so far. -/
structure Stored where
  auth : Option Content
  presented : List Presented

structure Files extends Stored where
  temporary : Option Content

/-- Calls that leave the contents of the files as they are. -/
inductive SystemCall where
  | makeDirectory
  | flush
  | openDirectory
  | closeDirectory
  | releaseLock

/-- The atomic changes. A file that is written is no document until all of it is there. -/
inductive Change where
  | truncateTemporary
  | writeTemporary (data : Json)
  | renameTemporary
  | removeTemporary
  | present (presented : Presented)
  | system (call : SystemCall)

/-- The effect of a change; `none` when the file system refuses it. -/
def Change.apply (files : Files) : Change → Option Files
  | .truncateTemporary => some { files with temporary := some .malformed }
  | .writeTemporary data =>
    match files.temporary with
    | none => none
    | some _ => some { files with temporary := some (.parsed data.wire) }
  | .renameTemporary =>
    match files.temporary with
    | none => none
    | some content => some { files with auth := some content, temporary := none }
  | .removeTemporary => some { files with temporary := none }
  | .present presented => some { files with presented := files.presented ++ [presented] }
  | .system _ => some files

inductive Error where
  | message (text : Str)
  | invalidJson
  | catalogue (failure : Accounts.Failure)
  /-- Of the file system, the lock, or the code of a provider. -/
  | external

def refused {α : Type} (text : Str) : Except Error α := .error (.message text)

/-- What a login finds around it: the registries, and the custom providers of `models.json`. -/
structure Surroundings where
  localeLe : Str → Str → Bool
  parseUrl : Str → Option Url
  getApiProvider : Str → Option (Option ApiProvider)
  providers : List PiProvider
  custom : Accounts.Document

/-- A property of what a provider returns may be undefined. -/
abbrev Updated := List (Str × Option Json)

/-- The clock, whether the provider has an OAuth implementation, and what its `refresh` returns: a
plain object or something else. -/
inductive Question : Type → Type where
  | surroundings : Question Surroundings
  | now : Question TimeValue
  | implementation (provider : Str) : Question Bool
  | refresh (credential : Properties) : Question (Option Updated)

def storage : Storage Files Change Error Question where
  apply change files := change.apply files
  answers _ _ _ := True
  fault e := e = .external
  refusal := .external
  fault_refusal := rfl
  surfaces e := e = .external
  surfaces_fault _ h := h

abbrev Call := Raising (StoreOp Files Change Error Question) Error

def change (change : Change) : Call Unit := .perform (.change change)

def ask {β : Type} (question : Question β) : Call β := .perform (.ask question)

def system (call : SystemCall) : Call Unit := change (.system call)

/-- The program under the lock, which is released after it; its own exception comes first. -/
def withFileLock {α : Type} (body : Call α) : Call α :=
  ExceptT.mk (body.run >>= fun result => (system .releaseLock).run >>= fun released =>
    match result, released with
    | .error e, _ => pure (.error e)
    | .ok a, .ok _ => pure (.ok a)
    | .ok _, .error e => pure (.error e))

/-- `readJson`, which is null where there is no file. -/
def readJson : Option Content → Except Error Json
  | none => .ok .null
  | some (.parsed value) => .ok value
  | some .malformed => .error .invalidJson

def writeJsonAtomic (data : Json) : Call Unit := do
  system .makeDirectory
  .protect (do
    change .truncateTemporary
    change (.writeTemporary data)
    system .flush
    change .renameTemporary) (change .removeTemporary)
  system .openDirectory
  .protect (system .flush) (system .closeDirectory)

def readAuth : Call (Option Content) := .perform (.get fun files => files.auth)

def routeName (value : Option Str) (label : String) : Except Error RouteName :=
  match value with
  | none => invalid
  | some name => if h : Protocol.isProviderPrefix name = true then .ok ⟨name, h⟩ else invalid
where
  invalid : Except Error RouteName := refused
    (lit label ++ lit (" must start with a lowercase letter or number " ++
    "and use at most 64 lowercase letters, numbers, underscores, or hyphens"))

structure LoginArgs where
  provider : RouteName
  account : Option RouteName := none
  apiKeyEnv : Option Str := none
  apiKeyStdin : Bool := false

def requireValue (flag : Str) (value : Option Str) : Except Error Str :=
  match value with
  | none => missing
  | some value => if Str.startsWith value (lit "-") then missing else .ok value
where
  missing : Except Error Str := refused (flag ++ lit " requires a value")

/-- The flags after the provider. -/
def parseFlags : List Str → LoginArgs → Except Error LoginArgs
  | [], args => .ok args
  | flag :: rest, args =>
    if flag = lit "--api-key-stdin" then parseFlags rest { args with apiKeyStdin := true }
    else if flag = lit "--as" then
      match rest with
      | [] => (requireValue flag none).map fun _ => args
      | value :: rest => do
        let value ← requireValue flag (some value)
        let account ← routeName (some value) "account name"
        parseFlags rest { args with account := some account }
    else if flag = lit "--api-key-env" then
      match rest with
      | [] => (requireValue flag none).map fun _ => args
      | value :: rest => do
        let value ← requireValue flag (some value)
        parseFlags rest { args with apiKeyEnv := some value }
    else refused (lit "unknown argument: " ++ flag)

def parseLoginArgs (argv : List Str) : Except Error LoginArgs := do
  let provider ← routeName argv.head? "provider name"
  parseFlags argv.tail { provider := provider }

/-- `parsed.account ?? parsed.provider`. -/
def LoginArgs.target (args : LoginArgs) : RouteName := args.account.getD args.provider

/-- An API key, or what the `login` of an OAuth implementation returned. -/
inductive Obtained where
  | apiKey (key : Str)
  | oauth (credential : Updated)

def Obtained.credential : Obtained → Properties
  | .apiKey key => [(lit "type", .str (lit "api_key")), (lit "key", .str key)]
  | .oauth credential => Json.spread [] (credential ++ [(lit "type", some (.str (lit "oauth")))])

/-- The credential that a login stores. -/
def loginCredential (args : LoginArgs) (obtained : Obtained) : Properties :=
  Json.spread obtained.credential [(lit "provider", some (.str args.provider.1))]

def logoutArgs : List Str → Except Error RouteName
  | [account] => routeName (some account) "account name"
  | _ => refused (lit "usage: logout ACCOUNT")

structure RenameArgs where
  source : RouteName
  target : RouteName
  differ : source.1 ≠ target.1

def renameArgs : List Str → Except Error RenameArgs
  | [old, new] => do
    let source ← routeName (some old) "source account name"
    let target ← routeName (some new) "target account name"
    if h : source.1 = target.1 then refused (lit "source and target account names must differ")
    else .ok ⟨source, target, h⟩
  | _ => refused (lit "usage: rename OLD_ACCOUNT NEW_ACCOUNT")

/-- `readJson(path) ?? {}`, where it is an object. -/
def storeOrEmpty (auth : Option Content) : Except Error Properties := do
  match ← readJson auth with
  | .null => .ok []
  | .obj store => .ok store
  | _ => refused (lit "credential store must be a JSON object")

/-- The store with the credential of an account replaced. -/
def candidate (store : Properties) (account : Str) (credential : Properties) : Accounts.Document :=
  ⟨Json.assign store account (.obj credential), Json.nodup_ownProperties _⟩

/-- The catalogue of the candidate has a route for the account. -/
def validateStore (args : LoginArgs) (site : Surroundings) (candidate : Accounts.Document) :
    Except Error Unit := do
  let catalogue ← (buildCatalogue site.localeLe site.parseUrl site.getApiProvider
      site.providers candidate
    site.custom).mapError .catalogue
  if catalogue.routes.any fun route => route.2.account = args.target.1 then .ok ()
  else refused (lit "provider " ++ args.provider.1 ++
    lit " exposes no usable models for account " ++ args.target.1)

def login (args : LoginArgs) (obtained : Obtained) : Call Unit :=
  withFileLock do
    let auth ← readAuth
    let store ← .ofExcept (storeOrEmpty auth)
    let candidate := candidate store args.target.1 (loginCredential args obtained)
    let site ← ask .surroundings
    .ofExcept (validateStore args site candidate)
    writeJsonAtomic (.obj candidate.properties)

def updateCredentialStore (update : Properties → Except Error Properties) : Call Unit :=
  withFileLock do
    let auth ← readAuth
    let store ← .ofExcept (storeOrEmpty auth)
    let candidate ← .ofExcept (update store)
    writeJsonAtomic (.obj candidate)

def withoutAccount (account : RouteName) (store : Properties) : Except Error Properties :=
  if (store.lookup account.1).isSome then .ok (Json.remove store account.1)
  else refused (lit "account " ++ account.1 ++ lit " is not stored")

def logout (account : RouteName) : Call Unit := updateCredentialStore (withoutAccount account)

/-- The credential under its new name, with the provider that a legacy record takes from the old
one. -/
def moved (source : Str) (credential : Properties) : Properties :=
  match credential.lookup (lit "provider") with
  | none | some .null => Json.assign credential (lit "provider") (.str source)
  | some _ => credential

def renamed (args : RenameArgs) (store : Properties) : Except Error Properties :=
  match store.lookup args.source.1 with
  | none => refused (lit "account " ++ args.source.1 ++ lit " is not stored")
  | some credential =>
    if (store.lookup args.target.1).isSome then
      refused (lit "account " ++ args.target.1 ++ lit " is already stored")
    else
      match credential with
      | .obj credential =>
        .ok (Json.remove (Json.assign store args.target.1 (.obj (moved args.source.1 credential)))
          args.source.1)
      | _ => refused (lit "credential " ++ args.source.1 ++ lit " must be a JSON object")

def rename (args : RenameArgs) : Call Unit := updateCredentialStore (renamed args)

def refreshSkewMs : ℤ := 60000

def storeDocument (path : Str) (auth : Option Content) : Except Error Properties := do
  match ← readJson auth with
  | .obj store => .ok store
  | _ => refused (lit "credential store " ++ path ++ lit " must be a JSON object")

/-- `value === text`. -/
def isText (value : Option Json) (text : Str) : Bool :=
  match value with
  | some (.str s) => s = text
  | _ => false

def credentialFor (store : Properties) (account provider : Str) : Except Error Properties :=
  match store.lookup account with
  | some (.obj credential) =>
    if isText (nullish (credential.lookup (lit "provider")) (some (.str account))) provider then
      .ok credential
    else refused (lit "credential " ++ account ++ lit " no longer belongs to provider " ++ provider)
  | _ => refused (lit "no credential for account " ++ account)

def expires (credential : Properties) : Option Number :=
  (credential.lookup (lit "expires")).bind Json.asNumber

def notExpired (now : TimeValue) (credential : Properties) : Bool :=
  (expires credential).any (Number.finite (now.ms + refreshSkewMs)).lt

def completeOAuth (credential : Properties) : Bool :=
  isOauth credential && (text (credential.lookup (lit "access"))).isSome &&
    (text (credential.lookup (lit "refresh"))).isSome &&
    (expires credential).any fun time => time.isFinite && (Number.finite 0).lt time

def validateOAuth (credential : Properties) (account : Str) : Except Error Unit :=
  if completeOAuth credential then .ok ()
  else refused (lit "credential " ++ account ++ lit " is not a complete OAuth credential")

/-- The account of the second part of a token, nothing where any step of the way throws. -/
def accountIdFromAccessToken (access : Option Json) : Option Json :=
  match ((access.map Json.display).getD (some (lit "undefined"))).map (List.splitOnP (· = 0x2e)) with
  | some (_ :: payload :: _) => do
    let json := (Python.decodeReplacing (Base64.decode payload)).flatMap encodeUnit
    let claims ← Json.parse json
    let claim ← claims.field (lit "https://api.openai.com/auth")
    let id ← text (claim.field (lit "chatgpt_account_id"))
    some (.str id)
  | _ => none

/-- The refreshed credential. -/
def nextCredential (current : Properties) (updated : Updated) (provider : Str) : Properties :=
  let accountId := nullish (nullish (updated.lookup (lit "accountId")).join
    (current.lookup (lit "accountId")))
    (accountIdFromAccessToken (updated.lookup (lit "access")).join)
  Json.spread current (updated ++ [(lit "type", some (.str (lit "oauth"))),
    (lit "provider", some (.str provider))] ++
    if Json.truthy accountId then [(lit "accountId", accountId)] else [])

/-- The section of `freshOAuth`, of the store at the path. -/
def refresh (path account provider : Str) : Call Properties :=
  withFileLock do
    let auth ← readAuth
    let store ← .ofExcept (storeDocument path auth)
    let current ← .ofExcept (credentialFor store account provider)
    .ofExcept (validateOAuth current account)
    let now ← ask .now
    if notExpired now current then return current
    let implemented ← ask (.implementation provider)
    if !implemented then
      throw (.message (lit "no OAuth implementation for provider " ++ provider))
    change (.present ⟨account, provider, current, now⟩)
    let invalid := lit "provider " ++ provider ++ lit " returned an invalid refreshed credential"
    match ← ask (.refresh current) with
    | none => throw (.message invalid)
    | some updated =>
      let next := nextCredential current updated provider
      if !completeOAuth next then throw (.message invalid)
      writeJsonAtomic (.obj (Json.assign store account (.obj next)))
      return next

/-- `check`: a credential for every account of the routes, and a provider's code for OAuth. -/
def check (path : Str) (implemented : Str → Bool) (auth : Option Content) (routes : List (Str × Str)) :
    Except Error Unit := do
  if routes = [] then return ()
  let store ← storeDocument path auth
  checkRoutes store routes []
where
  checkRoutes (store : Properties) : List (Str × Str) → List Str → Except Error Unit
    | [], _ => .ok ()
    | (account, provider) :: rest, accounts =>
      if account ∈ accounts then checkRoutes store rest accounts
      else do
        let credential ← credentialFor store account provider
        let type := credential.lookup (lit "type")
        if isText type (lit "api_key") && (text (credential.lookup (lit "key"))).isNone then
          refused (lit "credential " ++ account ++ lit " has no API key")
        else if isText type (lit "oauth") then do
          validateOAuth credential account
          if implemented provider then checkRoutes store rest (account :: accounts)
          else refused (lit "no OAuth implementation for provider " ++ provider)
        else if isText type (lit "api_key") then checkRoutes store rest (account :: accounts)
        else refused (lit "credential " ++ account ++ lit " has an invalid type")

/-- What a process does to the store. -/
inductive Request where
  | login (args : LoginArgs) (obtained : Obtained)
  | logout (account : RouteName)
  | rename (args : RenameArgs)
  | refresh (account provider : Str)

/-- A refresh returns the credential to use. -/
def Request.call (path : Str) : Request → Call (Option Properties)
  | .login args obtained => do
    Credentials.login args obtained
    return none
  | .logout account => do
    Credentials.logout account
    return none
  | .rename args => do
    Credentials.rename args
    return none
  | .refresh account provider => do
    let credential ← Credentials.refresh path account provider
    return some credential

/-- What is typed at a terminal, or read from a pipe. -/
structure Input where
  isTTY : Bool
  text : Str

/-- The API key of a login, where it takes one. -/
def resolveApiKey (parsed : LoginArgs) (env : Str → Option Str) (input : Input) :
    Except Error (Option Str) :=
  match parsed.apiKeyEnv with
  | some name =>
    if parsed.apiKeyStdin then refused (lit "use exactly one API-key source")
    else if (env name).getD [] = [] then
      refused (lit "environment variable " ++ name ++ lit " is empty or unset")
    else .ok (env name)
  | none =>
    if !parsed.apiKeyStdin then .ok none
    else if Str.trim input.text = [] then
      refused (lit (if input.isTTY then "no API key entered" else "no API key on stdin"))
    else .ok (some (Str.trim input.text))

/-- The three commands; a login with what it finds, and with what the OAuth implementation returns. -/
inductive Command where
  | login (env : Str → Option Str) (input : Input) (oauth : Updated)
  | logout
  | rename

/-- The request of a command line. -/
def Command.read : Command → List Str → Except Error Request
  | .login env input oauth, argv => do
    let parsed ← parseLoginArgs argv
    let key ← resolveApiKey parsed env input
    .ok (.login parsed (key.elim (.oauth oauth) .apiKey))
  | .logout, argv => do
    let account ← logoutArgs argv
    .ok (.logout account)
  | .rename, argv => do
    let args ← renameArgs argv
    .ok (.rename args)

/-- A login has at most one source of an API key, which has one. -/
def LoginArgs.Supplies (args : LoginArgs) : Obtained → Prop
  | .apiKey key => key ≠ [] ∧ (args.apiKeyEnv.isSome = true ∧ args.apiKeyStdin = false ∨
      args.apiKeyEnv = none ∧ args.apiKeyStdin = true ∧ Str.trim key = key)
  | .oauth _ => args.apiKeyEnv = none ∧ args.apiKeyStdin = false

/-- The name of a variable is no flag. -/
def LoginArgs.Named (args : LoginArgs) : Prop :=
  ∀ name ∈ args.apiKeyEnv, Str.startsWith name (lit "-") = false

theorem routeName_self (name : RouteName) (label : String) :
    routeName (some name.1) label = .ok name := by
  unfold routeName
  exact dif_pos name.2

theorem routeName_noFlag (name : RouteName) : Str.startsWith name.1 (lit "-") = false := by
  refine Bool.eq_false_iff.mpr fun hdash => ?_
  obtain ⟨rest, hrest⟩ := Str.startsWith_iff.mp hdash
  have hname := name.2
  rw [← hrest] at hname
  -- the first character would have to be a letter or a digit
  have hfirst : Protocol.matchesProviderPrefix (lit "-" ++ rest) = false := rfl
  unfold Protocol.isProviderPrefix at hname
  rw [hfirst, Bool.and_false, Bool.false_and] at hname
  cases hname

theorem requireValue_eq_ok {flag value result : Str} :
    requireValue flag (some value) = .ok result ↔ Str.startsWith value (lit "-") = false ∧
    result = value := by
  unfold requireValue requireValue.missing refused
  dsimp only
  cases Str.startsWith value (lit "-") with
  | true => exact iff_of_false (fun h => by cases h) (fun h => by cases h.1)
  | false =>
    rw [if_neg Bool.false_ne_true, Except.ok.injEq, and_iff_right rfl]
    exact eq_comm

theorem parseFlags_named {argv : List Str} {args parsed : LoginArgs} (hargs : args.Named)
    (h : parseFlags argv args = .ok parsed) : parsed.Named := by
  induction argv, args using parseFlags.induct with
  | case1 args =>
    cases h
    exact hargs
  | case2 rest args ih =>
    rw [parseFlags.eq_def (lit "--api-key-stdin" :: rest)] at h
    exact ih hargs ((if_pos rfl).symm.trans h)
  | case3 args hstdin =>
    cases h
  | case4 args value rest hstdin ih =>
    rw [parseFlags, if_neg hstdin, if_pos rfl] at h
    obtain ⟨_, -, h⟩ := bind_eq_ok.mp h
    obtain ⟨account, -, h⟩ := bind_eq_ok.mp h
    exact ih account hargs h
  | case5 args hstdin has =>
    rw [parseFlags, if_neg hstdin, if_neg has, if_pos rfl] at h
    cases h
  | case6 args value rest hstdin has ih =>
    rw [parseFlags, if_neg hstdin, if_neg has, if_pos rfl] at h
    obtain ⟨name, hname, h⟩ := bind_eq_ok.mp h
    refine ih name (fun found hfound => ?_) h
    cases hfound
    obtain ⟨hdash, rfl⟩ := requireValue_eq_ok.mp hname
    exact hdash
  | case7 flag rest args hstdin has henv =>
    have hflags : parseFlags (flag :: rest) args = refused (lit "unknown argument: " ++ flag) := by
      rw [parseFlags.eq_def (flag :: rest)]
      exact (if_neg hstdin).trans ((if_neg has).trans (if_neg henv))
    rw [hflags] at h
    cases h

/-- The command line of these arguments. -/
def LoginArgs.render (args : LoginArgs) : List Str :=
  args.provider.1 :: ((args.account.map fun name => [lit "--as", name.1]).getD [] ++
    (args.apiKeyEnv.map fun name => [lit "--api-key-env", name]).getD [] ++
      if args.apiKeyStdin then [lit "--api-key-stdin"] else [])

theorem parseLoginArgs_render {args : LoginArgs} (h : args.Named) :
    parseLoginArgs args.render = .ok args := by
  obtain ⟨provider, account, apiKeyEnv, apiKeyStdin⟩ := args
  have hstdin : parseFlags (if apiKeyStdin then [lit "--api-key-stdin"] else [])
      { provider, account, apiKeyEnv } = .ok ⟨provider, account, apiKeyEnv, apiKeyStdin⟩ := by
    cases apiKeyStdin with
    | true => rfl
    | false => rfl
  have henv : parseFlags ((apiKeyEnv.map fun name => [lit "--api-key-env", name]).getD [] ++
      if apiKeyStdin then [lit "--api-key-stdin"] else []) { provider, account } =
        .ok ⟨provider, account, apiKeyEnv, apiKeyStdin⟩ := by
    cases apiKeyEnv with
    | none => exact hstdin
    | some name =>
      change (requireValue (lit "--api-key-env") (some name) >>= fun value =>
        parseFlags _ { provider, account, apiKeyEnv := some value }) = _
      rw [requireValue_eq_ok.mpr ⟨h name rfl, rfl⟩]
      exact hstdin
  have has : parseFlags ((account.map fun name => [lit "--as", name.1]).getD [] ++
      (apiKeyEnv.map fun name => [lit "--api-key-env", name]).getD [] ++
        if apiKeyStdin then [lit "--api-key-stdin"] else []) { provider } =
          .ok ⟨provider, account, apiKeyEnv, apiKeyStdin⟩ := by
    cases account with
    | none => exact henv
    | some name =>
      change (requireValue (lit "--as") (some name.1) >>=
        fun value => routeName (some value) "account name" >>=
        fun account => parseFlags _ { provider, account := some account }) = _
      rw [requireValue_eq_ok.mpr ⟨routeName_noFlag name, rfl⟩, ok_bind, routeName_self]
      exact henv
  change (routeName (some provider.1) "provider name" >>=
    fun provider => parseFlags _ { provider }) = _
  rw [routeName_self]
  exact has

theorem parseLoginArgs_eq_ok {args : LoginArgs} :
    (∃ argv, parseLoginArgs argv = .ok args) ↔ args.Named := by
  constructor
  · intro h
    obtain ⟨argv, h⟩ := h
    unfold parseLoginArgs at h
    obtain ⟨provider, -, hflags⟩ := bind_eq_ok.mp h
    exact parseFlags_named (fun name hname => by cases hname) hflags
  · intro h
    exact ⟨args.render, parseLoginArgs_render h⟩

/-- What the arguments name as the source of the credential is where it comes from. -/
theorem resolveApiKey_eq_ok {args : LoginArgs} {obtained : Obtained} :
    (∃ env input key oauth, resolveApiKey args env input = .ok key ∧
      key.elim (.oauth oauth) .apiKey = obtained) ↔ args.Supplies obtained := by
  constructor
  · intro h
    obtain ⟨env, input, key, oauth, hkey, hobtained⟩ := h
    unfold resolveApiKey refused at hkey
    split at hkey
    next name hname =>
      split_ifs at hkey with hstdin hempty
      cases hkey
      cases hfound : env name with
      | none =>
        rw [hfound] at hempty
        exact absurd rfl hempty
      | some value =>
        rw [hfound] at hempty hobtained
        rw [← hobtained]
        exact ⟨hempty, Or.inl ⟨by rw [hname]; rfl, Bool.eq_false_iff.mpr hstdin⟩⟩
    next hname =>
      split_ifs at hkey with hstdin hempty
      · cases hkey
        rw [← hobtained]
        rw [Bool.not_eq_true'] at hstdin
        exact ⟨hname, hstdin⟩
      · cases hkey
        rw [← hobtained]
        rw [Bool.not_eq_true', Bool.not_eq_false] at hstdin
        exact ⟨hempty, Or.inr ⟨hname, hstdin, Str.trim_trim _⟩⟩
  · intro h
    unfold resolveApiKey
    cases obtained with
    | apiKey key =>
      obtain ⟨hkey, ⟨henv, hstdin⟩ | ⟨henv, hstdin, htrim⟩⟩ := h
      · obtain ⟨name, hname⟩ := Option.isSome_iff_exists.mp henv
        refine ⟨fun _ => some key, ⟨false, []⟩, some key, [], ?_, rfl⟩
        rw [hname, hstdin]
        exact if_neg hkey
      · refine ⟨fun _ => none, ⟨false, key⟩, some key, [], ?_, rfl⟩
        rw [henv, hstdin]
        dsimp only
        rw [htrim]
        exact if_neg hkey
    | oauth credential =>
      refine ⟨fun _ => none, ⟨false, []⟩, none, credential, ?_, rfl⟩
      rw [h.1, h.2]
      rfl

/-- The requests that command lines make: every logout and rename, and every login whose key or
credential comes from where its arguments say. -/
theorem read_range {request : Request} :
    (∃ (command : Command) (argv : List Str), command.read argv = .ok request) ↔
      match request with
      | .login args obtained => args.Named ∧ args.Supplies obtained
      | .logout _ => True
      | .rename _ => True
      | .refresh _ _ => False := by
  constructor
  · intro h
    obtain ⟨command, argv, hread⟩ := h
    cases command with
    | login env input oauth =>
      obtain ⟨parsed, hparsed, hread⟩ := bind_eq_ok.mp hread
      obtain ⟨key, hkey, hread⟩ := bind_eq_ok.mp hread
      cases hread
      exact ⟨parseLoginArgs_eq_ok.mp ⟨argv, hparsed⟩,
        resolveApiKey_eq_ok.mp ⟨env, input, key, oauth, hkey, rfl⟩⟩
    | logout =>
      obtain ⟨account, -, hread⟩ := bind_eq_ok.mp hread
      cases hread
      trivial
    | rename =>
      obtain ⟨args, -, hread⟩ := bind_eq_ok.mp hread
      cases hread
      trivial
  · intro h
    cases request with
    | login args obtained =>
      obtain ⟨env, input, key, oauth, hkey, hobtained⟩ := resolveApiKey_eq_ok.mpr h.2
      refine ⟨.login env input oauth, args.render, ?_⟩
      change (parseLoginArgs args.render >>= fun parsed => resolveApiKey parsed env input >>=
        fun key =>
        Except.ok (Request.login parsed (key.elim (.oauth oauth) .apiKey))) = _
      rw [parseLoginArgs_render h.1, ok_bind, hkey, ok_bind, hobtained]
    | logout account =>
      have hargs : logoutArgs [account.1] = .ok account := routeName_self account "account name"
      refine ⟨.logout, [account.1], ?_⟩
      change (logoutArgs [account.1] >>= fun account => Except.ok (Request.logout account)) = _
      rw [hargs, ok_bind]
    | rename args =>
      have hargs : renameArgs [args.source.1, args.target.1] = .ok args := by
        unfold renameArgs
        dsimp only
        rw [routeName_self, ok_bind, routeName_self, ok_bind]
        exact dif_neg args.differ
      refine ⟨.rename, [args.source.1, args.target.1], ?_⟩
      change (renameArgs [args.source.1, args.target.1] >>=
        fun args => Except.ok (Request.rename args)) = _
      rw [hargs, ok_bind]
    | refresh account provider => exact h.elim

end Cyclo.Gateway.Credentials
