import Cyclo.Protocol.ModelIds
import Cyclo.Python.Strings

/-! The roster of a team, as the host parses it. -/
namespace Cyclo.Team
open Python

structure Agent where
  name : List Char
  role : List Char
  engine : List Char
  model : List Char
  deriving DecidableEq

/-- Why the host refuses a roster; most reasons name a line. -/
inductive Rejection where
  | notUtf8
  | fieldCount (line : ℕ)
  | invalidName (label : String) (value : List Char) (line : ℕ)
  | duplicateName (name : List Char) (line : ℕ)
  | unsupportedEngine (engine : List Char) (line : ℕ)
  | notProxyModel (line : ℕ)
  | invalidProxyModel (model : List Char) (line : ℕ)
  | missingRoleFile (role : List Char) (line : ℕ)
  | noAgents
  | noPlanner
  deriving DecidableEq

def supportedEngines : List (List Char) := ["pi", "pi-interactive"].map String.toList

def planner : List Char := "planner".toList

def isAlphanumeric (c : Char) : Bool :=
  'A' ≤ c && c ≤ 'Z' || 'a' ≤ c && c ≤ 'z' || '0' ≤ c && c ≤ '9'

/-- `NAME_RE.fullmatch`: `[A-Za-z0-9][A-Za-z0-9._-]*` -/
def matchesName : List Char → Bool
  | [] => false
  | c :: rest => isAlphanumeric c &&
      rest.all fun d => isAlphanumeric d || d = '.' || d = '_' || d = '-'

def validateName (label : String) (value : List Char) (line : ℕ) : Except Rejection Unit :=
  demand (matchesName value) (.invalidName label value line)

def validateProxyModel (model : List Char) (line : ℕ) : Except Rejection Unit := do
  demand ('/' ∈ model) (.notProxyModel line)
  demand (ModelIds.splitPublicModelId (model.map codePoint)).isSome (.invalidProxyModel model line)

def roleFile (role : List Char) : List Char := role ++ ".md".toList

/-- One record of the roster, after the agents of the lines before. -/
def parseRecord (roleNames : List (List Char)) (agents : List Agent) (lineNo : ℕ)
    (line : List Char) : Except Rejection Agent :=
  match split line with
  | [name, role, engine, model] => do
    validateName "agent name" name lineNo
    validateName "role" role lineNo
    demand (name ∉ agents.map Agent.name) (.duplicateName name lineNo)
    demand (engine ∈ supportedEngines) (.unsupportedEngine engine lineNo)
    validateProxyModel model lineNo
    demand (roleFile role ∈ roleNames) (.missingRoleFile role lineNo)
    return ⟨name, role, engine, model⟩
  | _ => throw (.fieldCount lineNo)

/-- A line without a record. -/
def isComment (line : List Char) : Bool := line = [] || line.head? = some '#'

def parseLines (roleNames : List (List Char)) :
    ℕ → List Agent → List (List Char) → Except Rejection (List Agent)
  | _, agents, [] => return agents
  | lineNo, agents, raw :: lines =>
    if isComment (strip raw) then parseLines roleNames (lineNo + 1) agents lines
    else do
      let agent ← parseRecord roleNames agents lineNo (strip raw)
      parseLines roleNames (lineNo + 1) (agents ++ [agent]) lines

/-- `_parse_roster`, with the names of the role files in the snapshot. -/
def parseRoster (roleNames : List (List Char)) (content : List UInt8) :
    Except Rejection (List Agent) :=
  match decode content with
  | none => throw .notUtf8
  | some text => do
    let agents ← parseLines roleNames 1 [] (splitlines text)
    demand (agents ≠ []) .noAgents
    demand (agents.any fun agent => agent.role = planner) .noPlanner
    return agents

/-- The fields of the record on a line, if there is one. -/
def entry (raw : List Char) : Option (List (List Char)) :=
  if isComment (strip raw) then none else some (split raw)

def Agent.fields (agent : Agent) : List (List Char) :=
  [agent.name, agent.role, agent.engine, agent.model]

structure Agent.Valid (roleNames : List (List Char)) (agent : Agent) : Prop where
  name : matchesName agent.name = true
  role : matchesName agent.role = true
  engine : agent.engine ∈ supportedEngines
  model : (ModelIds.splitPublicModelId (agent.model.map codePoint)).isSome
  roleFile : roleFile agent.role ∈ roleNames

variable {roleNames : List (List Char)} {agents : List Agent} {agent : Agent} {lineNo : ℕ}

theorem parseRecord_eq_ok {line : List Char}
    (h : parseRecord roleNames agents lineNo line = .ok agent) :
    split line = agent.fields ∧ agent.Valid roleNames ∧ agent.name ∉ agents.map Agent.name := by
  unfold parseRecord at h
  split at h
  · rename_i name role engine model hsplit
    obtain ⟨_, hname, h⟩ := bind_eq_ok.mp h
    obtain ⟨_, hrole, h⟩ := bind_eq_ok.mp h
    obtain ⟨_, hfresh, h⟩ := bind_eq_ok.mp h
    obtain ⟨_, hengine, h⟩ := bind_eq_ok.mp h
    obtain ⟨_, hmodel, h⟩ := bind_eq_ok.mp h
    obtain ⟨_, hfile, h⟩ := bind_eq_ok.mp h
    obtain ⟨_, -, hmodel⟩ := bind_eq_ok.mp hmodel
    cases h
    exact ⟨hsplit, ⟨demand_eq_ok.mp hname, demand_eq_ok.mp hrole, demand_eq_ok.mp hengine,
      demand_eq_ok.mp hmodel, demand_eq_ok.mp hfile⟩, demand_eq_ok.mp hfresh⟩
  · cases h

theorem parseLines_eq_ok {lines : List (List Char)} {result : List Agent}
    (h : parseLines roleNames lineNo agents lines = .ok result)
    (hnodup : (agents.map Agent.name).Nodup) :
    ∃ new, result = agents ++ new ∧ lines.filterMap entry = new.map Agent.fields ∧
      (∀ agent ∈ new, agent.Valid roleNames) ∧ (result.map Agent.name).Nodup := by
  induction lines generalizing lineNo agents with
  | nil =>
    cases h
    exact ⟨[], by simp, rfl, by simp, hnodup⟩
  | cons raw lines ih =>
    rw [parseLines] at h
    split_ifs at h with hcomment
    · obtain ⟨new, hresult, hentries, hvalid⟩ := ih h hnodup
      have hnone : entry raw = none := if_pos hcomment
      refine ⟨new, hresult, ?_, hvalid⟩
      rw [List.filterMap_cons_none hnone, hentries]
    · obtain ⟨agent, hrecord, h⟩ := bind_eq_ok.mp h
      obtain ⟨hfields, hvalid, hfresh⟩ := parseRecord_eq_ok hrecord
      have hnodup' : ((agents ++ [agent]).map Agent.name).Nodup := by
        rw [List.map_append, List.map_singleton, List.nodup_append]
        refine ⟨hnodup, List.nodup_singleton _, ?_⟩
        intro a ha b hb hab
        rw [List.mem_singleton.mp hb] at hab
        exact hfresh (hab ▸ ha)
      obtain ⟨new, hresult, hentries, hall, hnames⟩ := ih h hnodup'
      have hsome : entry raw = some agent.fields := by
        rw [entry, if_neg hcomment, ← hfields]
        simp [split, strip]
      refine ⟨agent :: new, ?_, ?_, ?_, hnames⟩
      · rw [hresult, List.append_assoc, List.singleton_append]
      · rw [List.filterMap_cons_some hsome, hentries, List.map_cons]
      · exact List.forall_mem_cons.mpr ⟨hvalid, hall⟩

/-- The agents of an accepted roster are the records of its lines, valid, with distinct names. -/
theorem parseRoster_eq_ok {content : List UInt8} (h : parseRoster roleNames content = .ok agents) :
    ∃ text, decode content = some text ∧
      (splitlines text).filterMap entry = agents.map Agent.fields ∧
      (∀ agent ∈ agents, agent.Valid roleNames) ∧ (agents.map Agent.name).Nodup ∧
      agents ≠ [] := by
  unfold parseRoster at h
  split at h
  · cases h
  · rename_i text htext
    obtain ⟨result, hlines, h⟩ := bind_eq_ok.mp h
    obtain ⟨_, hsome, h⟩ := bind_eq_ok.mp h
    obtain ⟨_, -, h⟩ := bind_eq_ok.mp h
    cases h
    obtain ⟨new, hresult, hentries, hvalid, hnames⟩ := parseLines_eq_ok hlines List.nodup_nil
    rw [List.nil_append] at hresult
    subst hresult
    exact ⟨text, htext, hentries, hvalid, hnames, demand_eq_ok.mp hsome⟩

end Cyclo.Team
