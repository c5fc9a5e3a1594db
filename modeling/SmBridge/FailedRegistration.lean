import SmBridge.IndexPages
import SmBridge.Registration

/-!
# Registrations that fail

The converter takes an agent in before it converts it, and keeps it when the conversion raises.
The agent is then in the place of the one that had its id, and pages of the index raise too.
-/
namespace FailedRegistration

open Python
open JsonValue
open Dictionary
open Text
open Store
open Converter
open Attempts
open Runs
open Registration
open IndexPages

section Definitions

variable (python : Interpreter) (casing : Casing)
  (smSkill : List (String × Json) → Except PyError Json)

/-- What a call leaves behind, whether it returns or raises. -/
def after (self : SmBridge) : Call → SmBridge
  | .registerAgent agent => (registerAgent python casing smSkill self agent).1
  | .unregisterAgent agentId => (unregisterAgent python casing smSkill self agentId).1

def Steps (self : SmBridge) (call : Call) (self' : SmBridge) : Prop :=
  after python casing smSkill self call = self'

/-- The registration raises, the two stores are what they were, and so is each page of the
index that was served before. -/
structure FailsClean (bridge : SmBridge) (agent : SimpleAgent) : Prop where
  raises : ∃ exc, (registerAgent python casing smSkill bridge agent).2 = .error exc
  kept : after python casing smSkill bridge (.registerAgent agent) = bridge
  served : ∀ registryId limit offset answer,
    smIndex python casing smSkill bridge.converter registryId limit offset = .ok answer →
      smIndex python casing smSkill
        (after python casing smSkill bridge (.registerAgent agent)).converter
        registryId limit offset = .ok answer

/-- Every agent that the converter holds converts. -/
def Converting (converter : SimpleAgentConverter) : Prop :=
  ∀ id agent, converter.getAgent id = some agent →
    ∃ facts, toSm python casing smSkill converter agent = .ok facts

end Definitions

variable {python : Interpreter} {casing : Casing}
  {smSkill : List (String × Json) → Except PyError Json} {self bridge bridge' : SmBridge}
  {converter : SimpleAgentConverter} {agent : SimpleAgent} {exc : PyError} {call : Call}

/-! ## One call -/

/-- The conversion of an agent does not look at the agents that the converter holds. -/
theorem toSm_agents (converter : SimpleAgentConverter) (agents : Dict String SimpleAgent) :
    toSm python casing smSkill { converter with agents := agents } agent =
      toSm python casing smSkill converter agent := rfl

theorem registerAgent_of_error
    (h : toSm python casing smSkill bridge.converter agent = .error exc) :
    registerAgent python casing smSkill bridge agent =
      (⟨bridge.converter.register agent, bridge.deltaStore⟩, .error exc) := by
  rw [registerAgent, SimpleAgentConverter.register, toSm_agents, h]

theorem after_registerAgent (bridge : SmBridge) (agent : SimpleAgent) :
    (after python casing smSkill bridge (.registerAgent agent)).converter =
      bridge.converter.register agent := by
  rw [after, registerAgent]
  cases toSm python casing smSkill (bridge.converter.register agent) agent <;> rfl

/-- A failed registration changes nothing only if the agent is held already. -/
theorem register_eq_self :
    converter.register agent = converter ↔ converter.getAgent agent.id = some agent := by
  rw [SimpleAgentConverter.getAgent, ← Dict.set_eq_self]
  constructor
  · intro h
    exact congrArg SimpleAgentConverter.agents h
  · intro h
    rw [SimpleAgentConverter.register, h]

theorem fails_clean_iff (h : toSm python casing smSkill bridge.converter agent = .error exc) :
    FailsClean python casing smSkill bridge agent ↔
      bridge.converter.getAgent agent.id = some agent := by
  have hcall := registerAgent_of_error h
  have hafter : after python casing smSkill bridge (.registerAgent agent) =
      ⟨bridge.converter.register agent, bridge.deltaStore⟩ := congrArg Prod.fst hcall
  constructor
  · intro hclean
    rw [← register_eq_self]
    exact congrArg SmBridge.converter (hafter.symm.trans hclean.kept)
  · intro hheld
    have hkept : after python casing smSkill bridge (.registerAgent agent) = bridge := by
      rw [hafter, register_eq_self.mpr hheld]
    refine ⟨⟨exc, congrArg Prod.snd hcall⟩, hkept, fun registryId limit offset answer hserved => ?_⟩
    rwa [hkept]

/-- The registry is as it was after a failed registration, in any state that calls lead to,
exactly if the converter holds this very agent already. -/
theorem failed_registration_iff (python : Interpreter) (casing : Casing)
    (smSkill : List (String × Json) → Except PyError Json)
    (registryId providerName providerUrl : String) (baseUrl : Option String)
    (calls : List Call) (bridge : SmBridge) (agent : SimpleAgent) (exc : PyError)
    (_ : Run (Steps python casing smSkill)
      (.new registryId providerName providerUrl baseUrl) calls bridge)
    (hraises : toSm python casing smSkill bridge.converter agent = .error exc) :
    FailsClean python casing smSkill bridge agent ↔
      bridge.converter.getAgent agent.id = some agent :=
  fails_clean_iff hraises

/-! ## Runs of calls -/

/-- No call changes the settings by which agents are converted. -/
theorem toSm_after (call : Call) (agent : SimpleAgent) :
    toSm python casing smSkill (after python casing smSkill bridge call).converter agent =
      toSm python casing smSkill bridge.converter agent := by
  cases call with
  | registerAgent other =>
    rw [after_registerAgent]
    rfl
  | unregisterAgent agentId =>
    rw [after, unregisterAgent]
    split
    · rfl
    · split <;> rfl

theorem getAgent_unregister {id agentId : String}
    (h : (after python casing smSkill bridge (.unregisterAgent agentId)).converter.getAgent id =
      some agent) : bridge.converter.getAgent id = some agent := by
  rw [after, unregisterAgent] at h
  split at h
  · exact h
  · split at h
    · exact h
    · have hpop := Dict.get_pop bridge.converter.agents agentId id
      change (bridge.converter.agents.pop agentId).get id = some agent at h
      rw [h] at hpop
      split at hpop
      · cases hpop
      · exact hpop.symm

/-- What is registered converts. -/
def Converts (python : Interpreter) (casing : Casing)
    (smSkill : List (String × Json) → Except PyError Json) (bridge : SmBridge) (call : Call) :
    Prop :=
  ∀ agent, call = .registerAgent agent →
    ∃ facts, toSm python casing smSkill bridge.converter agent = .ok facts

/-- One call keeps the held agents convertible exactly if what it registers converts. -/
theorem converting_after_iff (h : Converting python casing smSkill bridge.converter) (call : Call) :
    Converting python casing smSkill (after python casing smSkill bridge call).converter ↔
      Converts python casing smSkill bridge call := by
  constructor
  · rintro hafter agent rfl
    rw [← toSm_after (.registerAgent agent)]
    refine hafter agent.id agent ?_
    rw [after_registerAgent]
    exact Dict.get_set_self _ _ _
  · intro hcall id agent hagent
    rw [toSm_after]
    cases call with
    | registerAgent new =>
      rw [after_registerAgent, SimpleAgentConverter.getAgent, SimpleAgentConverter.register,
        Dict.get_set] at hagent
      split at hagent
      · obtain rfl := Option.some.inj hagent
        exact hcall new rfl
      · exact h id agent hagent
    | unregisterAgent agentId => exact h id agent (getAgent_unregister hagent)

/-- All along a run of calls every agent that is held converts, so that no page of the index
raises, exactly if no registration of the run raised. -/
theorem converting_along_iff {registryId providerName providerUrl : String}
    {baseUrl : Option String} {calls : List Call}
    (hrun : Run (Steps python casing smSkill)
      (.new registryId providerName providerUrl baseUrl) calls bridge) :
    (∀ before self, before <+: calls →
      Run (Steps python casing smSkill)
        (.new registryId providerName providerUrl baseUrl) before self →
        Converting python casing smSkill self.converter) ↔
    ∀ before call self, before ++ [call] <+: calls →
      Run (Steps python casing smSkill)
        (.new registryId providerName providerUrl baseUrl) before self →
        Converts python casing smSkill self call :=
  hrun.along_iff (P := fun self => Converting python casing smSkill self.converter)
    (fun _ _ _ _ h h' => h.symm.trans h') (fun _ _ h => by cases h)
    fun _ call _ hconverting hstep => hstep ▸ converting_after_iff hconverting call

/-- Where all held agents convert, every page of the index is served. -/
theorem exists_smIndex (h : Converting python casing smSkill converter) (registryId : String)
    (limit : Limit) (offset : ℕ) :
    ∃ answer, smIndex python casing smSkill converter registryId limit offset = .ok answer := by
  obtain ⟨agents, hagents⟩ := exists_mapM_eq_ok.mpr fun agent
      (hagent : agent ∈ (Pages.slice converter.agents.values limit.value offset).filter
        SimpleAgent.isPublic) => by
    have hmem : agent ∈ converter.agents.values :=
      List.mem_of_mem_drop (List.mem_of_mem_take (List.mem_of_mem_filter hagent))
    obtain ⟨id, hid⟩ := Dict.mem_values.mp hmem
    exact h id agent hid
  exact ⟨⟨registryId, agents, _⟩, smIndex_eq_ok.mpr ⟨hagents, rfl, rfl⟩⟩

/-! ## An agent whose skill has no text for a description -/

/-- A skill is refused unless its description is a text. -/
def checkedSkill (fields : List (String × Json)) : Except PyError Json :=
  match fields.lookup "description" with
  | some (.str _) => describedSkill fields
  | _ => .error (.valueError "Input should be a valid string")

def brokenClerk : SimpleAgent :=
  { clerk with skills := [.obj [("id", .str "sum"), ("description", .int 1)]] }

theorem brokenClerk_raises : toSm plainPython asciiCasing checkedSkill acme.converter brokenClerk =
    .error (.valueError "Input should be a valid string") := rfl

/-- The bridge after the clerk, and then the clerk with a skill that is refused. -/
def clerkBroken : SmBridge :=
  after plainPython asciiCasing checkedSkill
    (after plainPython asciiCasing checkedSkill acme (.registerAgent clerk))
    (.registerAgent brokenClerk)

theorem clerkBroken_run : Run (Steps plainPython asciiCasing checkedSkill) acme
    [.registerAgent clerk, .registerAgent brokenClerk] clerkBroken :=
  (Run.nil.concat rfl).concat rfl

theorem failed_registration_iff_clerk :
    FailsClean plainPython asciiCasing checkedSkill clerkBroken brokenClerk ↔
      clerkBroken.converter.getAgent brokenClerk.id = some brokenClerk :=
  failed_registration_iff plainPython asciiCasing checkedSkill "acme" "Acme" "https://acme.example"
    none [.registerAgent clerk, .registerAgent brokenClerk] clerkBroken brokenClerk _
    clerkBroken_run (((toSm_after _ _).trans (toSm_after _ _)).trans brokenClerk_raises)

/-- The agent that could not be converted is registered. -/
theorem broken_clerk_registered : ¬ ∀ calls bridge agent exc,
    Run (Steps plainPython asciiCasing checkedSkill)
      (.new "acme" "Acme" "https://acme.example" none) calls bridge →
    toSm plainPython asciiCasing checkedSkill bridge.converter agent = .error exc →
      FailsClean plainPython asciiCasing checkedSkill bridge agent := by
  intro h
  have hclean := h [] acme brokenClerk _ Run.nil brokenClerk_raises
  have hheld := (fails_clean_iff brokenClerk_raises).mp hclean
  cases hheld

end FailedRegistration
