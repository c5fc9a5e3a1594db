import SmBridge.Lib.Dict
import SmBridge.Store
import SmBridge.Text
import Mathlib.Data.List.Sort

/-!
# The converter

A source's agent is turned into an AgentFacts record, together with an account of what the
bridge invented, defaulted or dropped on the way. What pydantic does with the values of one
skill is a parameter; all other fields of a typed agent pass its checks.
-/
namespace Converter

open Python
open Attempts
open JsonValue
open Dictionary
open Text
open Trust
open Store

structure SimpleAgent where
  id : String
  name : String
  description : String
  namespace_ : String := "default"
  version : String := "1.0.0"
  labels : List String := []
  skills : List Json := []
  endpoints : Dict String String := Dict.empty
  metadata : Dict String Json := Dict.empty
  isPublic : Bool := true
  classification : Option String := none
  cardTemplate : Option String := none
  dynamicEndpoints : List String := []
  adaptiveResolverUrl : Option String := none
  adaptiveResolverPolicies : List String := []
  streaming : Bool := false
  batch : Bool := false
  authMethods : List String := ["did-auth"]
  requiredScopes : Option (List String) := none
  certificationLevel : Option String := none
  certificationIssuer : Option String := none
  attestations : List String := []
  performanceScore : Option PyFloat := none
  availability90d : Option String := none
  auditTrail : Option String := none
  telemetryEnabled : Bool := false
  telemetryRetention : Option String := none
  telemetrySampling : Option PyFloat := none

/-- The converter's settings, and the agents registered with it. -/
structure SimpleAgentConverter where
  registryId : String
  providerName : String
  providerUrl : String
  baseUrl : String
  didMethod : String
  agents : Dict String SimpleAgent

namespace SimpleAgentConverter

def new (registryId providerName providerUrl : String) (baseUrl : Option String)
    (didMethod : String := "web") : SimpleAgentConverter where
  registryId := registryId
  providerName := providerName
  providerUrl := providerUrl
  baseUrl := if (baseUrl.getD "") = "" then providerUrl else baseUrl.getD ""
  didMethod := didMethod
  agents := Dict.empty

def register (self : SimpleAgentConverter) (agent : SimpleAgent) : SimpleAgentConverter :=
  { self with agents := self.agents.set agent.id agent }

def unregister (self : SimpleAgentConverter) (agentId : String) : SimpleAgentConverter :=
  { self with agents := self.agents.pop agentId }

def getAgent (self : SimpleAgentConverter) (agentId : String) : Option SimpleAgent :=
  self.agents.get agentId

def listAgents (self : SimpleAgentConverter) (limit offset : ℕ) : List SimpleAgent :=
  (self.agents.values.drop offset).take limit

/-- The provider's URL without a scheme, as it stands in the identifiers. -/
def domain (self : SimpleAgentConverter) : String :=
  replace "http://" "" (replace "https://" "" self.providerUrl)

def buildDid (self : SimpleAgentConverter) (agent : SimpleAgent) : String :=
  "did:" ++ self.didMethod ++ ":" ++ self.domain ++ ":agents:" ++ agent.namespace_ ++ ":" ++
    agent.id

end SimpleAgentConverter

def createHandle (registry namespace_ agentId : String) : String :=
  "@" ++ registry ++ ":" ++ namespace_ ++ "/" ++ agentId

/-- `ProofResult.legacy()` -/
def legacyProof : ProofResult :=
  ProofResult.notVerified "legacy" "opaque-dict"
    "legacy-unverified: pre-v0.4 proof payload carried no verifiable evidence"

/-! ## The record -/

def strings (xs : List String) : Json := .arr (xs.map .str)

def optional {α : Type} (f : α → Json) : Option α → Json
  | some a => f a
  | none => .null

/-- `bool(text)` of an optional text. -/
def given (text : Option String) : Bool := text.getD "" ≠ ""

section Definitions

variable (python : Interpreter) (casing : Casing)
  (smSkill : List (String × Json) → Except PyError Json)

def skillId (fields : List (String × Json)) : String :=
  python.str ((fields.lookup "id").getD ((fields.lookup "name").getD (.str "unknown")))

def skillIds (skills : List Json) : List String :=
  skills.filterMap fun
    | .obj fields => some (skillId python fields)
    | .str s => some s
    | _ => none

def skillKeys : List String :=
  ["id", "name", "description", "inputModes", "outputModes", "supportedLanguages",
    "latencyBudgetMs", "maxTokens"]

def skillPath (idx : ℕ) (key : String) : String := "skills[" ++ toString idx ++ "]." ++ key

def defaultedOf (idx : ℕ) : Json → List String
  | .obj fields =>
    (if (fields.lookup "description").isNone then [skillPath idx "description"] else []) ++
      if (fields.lookup "id").isNone ∧ (fields.lookup "name").isNone then [skillPath idx "id"]
      else []
  | _ => []

def droppedOf (idx : ℕ) : Json → List String
  | .obj fields =>
    (((fields.map Prod.fst).filter (· ∉ skillKeys)).insertionSort (· ≤ ·)).map (skillPath idx)
  | _ => []

/-- The detailed skill, unless the entry is neither a dictionary nor a text. -/
def skillOf : Json → Except PyError (Option Json)
  | .obj fields => do
    let skill ← smSkill
      [("id", .str (skillId python fields)),
        ("description", (fields.lookup "description").getD (.str "")),
        ("inputModes", (fields.lookup "inputModes").getD (strings ["text"])),
        ("outputModes", (fields.lookup "outputModes").getD (strings ["text"])),
        ("supportedLanguages", (fields.lookup "supportedLanguages").getD .null),
        ("latencyBudgetMs", (fields.lookup "latencyBudgetMs").getD .null),
        ("maxTokens", (fields.lookup "maxTokens").getD .null)]
    .ok (some skill)
  | .str s => do
    let skill ← smSkill [("id", .str s), ("description", .str s)]
    .ok (some skill)
  | _ => .ok none

variable (self : SimpleAgentConverter)

def placeholderSkill : List (String × Json) :=
  [("id", .str ("urn:" ++ self.registryId ++ ":agent")),
    ("description", .str ("No skills declared by " ++ self.providerName ++
      "; placeholder for schema validity"))]

def staticUrls (agent : SimpleAgent) : List String :=
  if self.baseUrl ≠ "" ∧ agent.endpoints.values = [] then
    [self.baseUrl ++ "/agents/" ++ agent.id]
  else agent.endpoints.values

def invented (agent : SimpleAgent) (skills : List Json) : List String :=
  ["id", "provider.did"] ++
    (if self.baseUrl ≠ "" ∧ agent.endpoints.values = [] then ["endpoints.static"] else []) ++
    if skills = [] then ["skills"] else []

def protocol (url : String) : String := if startsWith url "https" then "https" else "http"

def endpointsExtended (agent : SimpleAgent) : List Json :=
  (agent.endpoints.entries.map fun (key, url) =>
    .obj [("url", .str url), ("protocol", .str (protocol url)),
      ("description", .str (casing.title (replace "_" " " key))), ("key", .str key)]) ++
  agent.dynamicEndpoints.mapIdx fun idx url =>
    .obj [("url", .str url), ("protocol", .str (protocol url)),
      ("description", .str "Dynamic Endpoint"), ("key", .str ("dynamic_" ++ toString idx))]

/-- The registry's block of the metadata. The account of the conversion is put in last, so
that a source cannot hide it. -/
def extension (agent : SimpleAgent) (skills : List Json) : Dict String Json :=
  let block : List (String × Json) :=
    [("namespace", .str agent.namespace_), ("original_id", .str agent.id),
      ("public", .bool agent.isPublic), ("classification", optional .str agent.classification),
      ("card_template", optional .str agent.cardTemplate),
      ("endpoints_extended", .arr (endpointsExtended casing agent))]
  let provenance : Json := .obj
    [("invented", strings (invented self agent skills)),
      ("defaulted", strings ((agent.skills.mapIdx defaultedOf).flatten ++
        if agent.labels = [] then ["label"] else [])),
      ("dropped", strings (agent.skills.mapIdx droppedOf).flatten)]
  (((block ++ agent.metadata.entries).foldl (fun d e => d.set e.1 e.2) Dict.empty).set
    "provenance" provenance).pop "synthesized"

def provider : Json :=
  .obj [("name", .str self.providerName), ("url", .str self.providerUrl),
    ("did", .str ("did:" ++ self.didMethod ++ ":" ++ self.domain))]

def endpoints (agent : SimpleAgent) : Json :=
  .obj [("static", strings (staticUrls self agent)),
    ("dynamic", strings agent.dynamicEndpoints),
    ("adaptive_resolver",
      if given agent.adaptiveResolverUrl then
        .obj [("url", optional .str agent.adaptiveResolverUrl),
          ("policies", strings (if agent.adaptiveResolverPolicies = [] then
            ["capability_negotiation", "load_balancing"] else agent.adaptiveResolverPolicies))]
      else .null)]

def capabilities (agent : SimpleAgent) : Json :=
  .obj [("modalities", strings agent.labels),
    ("skills", strings (skillIds python agent.skills)),
    ("authentication", .obj [("methods", strings agent.authMethods),
      ("requiredScopes", optional strings agent.requiredScopes)]),
    ("streaming", .bool agent.streaming), ("batch", .bool agent.batch)]

def certification (agent : SimpleAgent) : Json :=
  optional (fun level => .obj
    [("level", .str level),
      ("issuer", .str (if given agent.certificationIssuer then agent.certificationIssuer.getD ""
        else self.providerName)),
      ("attestations", strings agent.attestations), ("issuanceDate", .null),
      ("expirationDate", .null)]) agent.certificationLevel

def evaluations (agent : SimpleAgent) : Json :=
  if agent.performanceScore.isSome ∨ given agent.availability90d ∨ given agent.auditTrail then
    .obj [("performanceScore", optional .float agent.performanceScore),
      ("availability90d", optional .str agent.availability90d), ("lastAudited", .null),
      ("auditTrail", optional .str agent.auditTrail), ("auditorID", .null)]
  else .null

def telemetry (agent : SimpleAgent) : Json :=
  if agent.telemetryEnabled then
    .obj [("enabled", .bool true), ("retention", optional .str agent.telemetryRetention),
      ("sampling", optional .float agent.telemetrySampling), ("metrics", .null)]
  else .null

/-- The fields of the record beside the id, the handle and the proof. -/
def recordOf (agent : SimpleAgent) (declared skills : List Json) : List (String × Json) :=
  [("agent_name", .str agent.name),
    ("label", .str (agent.labels.headD agent.namespace_)),
    ("description", .str agent.description), ("version", .str agent.version),
    ("documentationUrl", .null), ("jurisdiction", .null), ("provider", provider self),
    ("endpoints", endpoints self agent), ("capabilities", capabilities python agent),
    ("skills", .arr skills), ("certification", certification self agent),
    ("evaluations", evaluations agent), ("telemetry", telemetry agent),
    ("metadata", .obj [("x_" ++ replace "-" "_" self.registryId,
      .obj (extension casing self agent declared).entries)])]

theorem recordOf_fields (agent : SimpleAgent) (declared skills : List Json) :
    ∀ field ∈ recordOf python casing self agent declared skills, field.1 ∉ namedFields := by
  simp [recordOf, namedFields]

def declaredSkills (agent : SimpleAgent) : Except PyError (List Json) := do
  let declared ← agent.skills.mapM (skillOf python smSkill)
  .ok declared.reduceOption

/-- The schema asks for a skill, so a source without one gets a placeholder. -/
def skillsOf (declared : List Json) : Except PyError (List Json) :=
  match declared with
  | [] => do
    let skill ← smSkill (placeholderSkill self)
    .ok [skill]
  | _ => .ok declared

def toSm (agent : SimpleAgent) : Except PyError SmAgentFacts := do
  let declared ← declaredSkills python smSkill agent
  let skills ← skillsOf smSkill self declared
  .ok
    { id := self.buildDid agent
      handle := some (createHandle self.registryId agent.namespace_ agent.id)
      proof := some legacyProof
      record := recordOf python casing self agent declared skills
      record_fields := recordOf_fields python casing self agent declared skills }

end Definitions

variable {python : Interpreter} {casing : Casing}
  {smSkill : List (String × Json) → Except PyError Json} {self : SimpleAgentConverter}

theorem toSm_eq_ok {agent : SimpleAgent} {facts : SmAgentFacts}
    (h : toSm python casing smSkill self agent = .ok facts) :
    facts.id = self.buildDid agent ∧
      facts.handle = some (createHandle self.registryId agent.namespace_ agent.id) := by
  obtain ⟨declared, -, h⟩ := bind_eq_ok.mp h
  obtain ⟨skills, -, h⟩ := bind_eq_ok.mp h
  rw [← Except.ok.inj h]
  exact ⟨rfl, rfl⟩

/-- The skill for an entry that gives no more than an id and a description. -/
def describedSkill (fields : List (String × Json)) : Except PyError Json :=
  .ok (.obj (fields ++ [("inputModes", strings ["text"]), ("outputModes", strings ["text"]),
    ("version", .null), ("parameters", .null), ("supportedLanguages", .null),
    ("latencyBudgetMs", .null), ("maxTokens", .null)]))

/-- An interpreter without a clock, for which no text is a number or a date. -/
def plainPython : Interpreter where
  fromIsoFormat _ := .error "Invalid isoformat string"
  isoFormat _ := ""
  intOfText _ := none
  floatOfText _ := none
  repr _ := ""
  time := .finite 0

end Converter
