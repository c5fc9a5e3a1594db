import SmBridge.Converter
import SmBridge.Gateway
import SmBridge.Lib.Runs
import Mathlib.Data.Set.Insert

/-!
# Registering agents with a bridge

The converter holds the registered agents by their id, and the delta store speaks about DIDs.
Each call looks only at the visibility that the agent has at the time.
-/
namespace Registration

open Python
open JsonValue
open Dictionary
open Text
open Replay
open Store
open Gateway
open Converter
open Runs

/-- The parts of a bridge that the registration of agents reads and writes. -/
structure SmBridge where
  converter : SimpleAgentConverter
  deltaStore : DeltaStore

/-- A bridge with the default converter and delta store. -/
def SmBridge.new (registryId providerName providerUrl : String) (baseUrl : Option String) :
    SmBridge where
  converter := .new registryId providerName providerUrl
    (some (if baseUrl.getD "" = "" then providerUrl else baseUrl.getD ""))
  deltaStore := DeltaStore.empty

inductive Call where
  | registerAgent (agent : SimpleAgent)
  | unregisterAgent (agentId : String)

section Definitions

variable (python : Interpreter) (casing : Casing)
  (smSkill : List (String × Json) → Except PyError Json)

/-- An agent whose conversion raises stays registered with the converter. -/
def registerAgent (self : SmBridge) (agent : SimpleAgent) :
    SmBridge × Except PyError SmAgentFacts :=
  let converter := self.converter.register agent
  match toSm python casing smSkill converter agent with
  | .error e => (⟨converter, self.deltaStore⟩, .error e)
  | .ok smFacts =>
    (⟨converter,
      if agent.isPublic then self.deltaStore.add .upsert smFacts else self.deltaStore⟩,
      .ok smFacts)

def unregisterAgent (self : SmBridge) (agentId : String) : SmBridge × Except PyError Unit :=
  match self.converter.getAgent agentId with
  | none => (self, .ok ())
  | some agent =>
    match toSm python casing smSkill self.converter agent with
    | .error e => (self, .error e)
    | .ok smFacts =>
      (⟨self.converter.unregister agentId,
        if agent.isPublic then self.deltaStore.add .delete smFacts else self.deltaStore⟩, .ok ())

/-- The call returns, and leaves the bridge in the second state. -/
def Returns (self : SmBridge) : Call → SmBridge → Prop
  | .registerAgent agent, self' =>
    ∃ smFacts, registerAgent python casing smSkill self agent = (self', .ok smFacts)
  | .unregisterAgent agentId, self' =>
    unregisterAgent python casing smSkill self agentId = (self', .ok ())

end Definitions

/-- The agents whose latest delta is an upsert. -/
def served (store : DeltaStore) : Set String :=
  {id | ∃ delta, last agentOf id store.deltas = some delta ∧ delta.action = .upsert}

/-- The DIDs of the public agents that are registered under another id. -/
def publishedBeside (converter : SimpleAgentConverter) (agentId : String) : Set String :=
  {did | ∃ id agent, id ≠ agentId ∧ converter.getAgent id = some agent ∧
    agent.isPublic = true ∧ converter.buildDid agent = did}

/-- The DIDs of the registered public agents. -/
def published (converter : SimpleAgentConverter) : Set String :=
  {did | ∃ id agent, converter.getAgent id = some agent ∧ agent.isPublic = true ∧
    converter.buildDid agent = did}

def Tracks (self : SmBridge) : Prop := served self.deltaStore = published self.converter

/-- A call that replaces a public agent leaves its DID published, by the new agent or by
another one, and a call that removes a public agent does not. -/
def Keeps (self : SmBridge) : Call → Prop
  | .registerAgent agent =>
    ∀ old, self.converter.getAgent agent.id = some old → old.isPublic = true →
      (agent.isPublic = true ∧ self.converter.buildDid agent = self.converter.buildDid old) ∨
        self.converter.buildDid old ∈ publishedBeside self.converter agent.id
  | .unregisterAgent agentId =>
    ∀ old, self.converter.getAgent agentId = some old → old.isPublic = true →
      self.converter.buildDid old ∉ publishedBeside self.converter agentId

/-! ## What a call changes -/

/-- The DID of an agent, if it is there and public. -/
def didOf (converter : SimpleAgentConverter) (agent : Option SimpleAgent) : Set String :=
  {did | ∃ a, agent = some a ∧ a.isPublic = true ∧ converter.buildDid a = did}

@[simp] theorem mem_didOf_some {converter : SimpleAgentConverter} {agent : SimpleAgent}
    {did : String} : did ∈ didOf converter (some agent) ↔
      agent.isPublic = true ∧ converter.buildDid agent = did := by
  simp [didOf]

@[simp] theorem didOf_none (converter : SimpleAgentConverter) : didOf converter none = ∅ := by
  simp [didOf]

theorem published_eq (converter : SimpleAgentConverter) (agentId : String) :
    published converter =
      didOf converter (converter.getAgent agentId) ∪ publishedBeside converter agentId := by
  ext did
  constructor
  · rintro ⟨id, agent, hget, hpublic, hdid⟩
    by_cases hid : id = agentId
    · subst id
      exact Or.inl ⟨agent, hget, hpublic, hdid⟩
    · exact Or.inr ⟨id, agent, hid, hget, hpublic, hdid⟩
  · rintro (⟨agent, hget, hpublic, hdid⟩ | ⟨id, agent, -, hget, hpublic, hdid⟩)
    · exact ⟨agentId, agent, hget, hpublic, hdid⟩
    · exact ⟨id, agent, hget, hpublic, hdid⟩

theorem published_register (converter : SimpleAgentConverter) (agent : SimpleAgent) :
    published (converter.register agent) =
      didOf converter (some agent) ∪ publishedBeside converter agent.id := by
  rw [published_eq _ agent.id]
  have hget : ∀ id, (converter.register agent).getAgent id =
      if id = agent.id then some agent else converter.getAgent id :=
    fun id => Dict.get_set converter.agents agent.id id agent
  congr 1
  · rw [hget, if_pos rfl]
    rfl
  · ext did
    refine exists_congr fun id => exists_congr fun other => and_congr_right fun hne => ?_
    rw [hget, if_neg hne]
    rfl

theorem published_unregister (converter : SimpleAgentConverter) (agentId : String) :
    published (converter.unregister agentId) = publishedBeside converter agentId := by
  have hget : ∀ id, (converter.unregister agentId).getAgent id =
      if id = agentId then none else converter.getAgent id :=
    fun id => Dict.get_pop converter.agents agentId id
  rw [published_eq _ agentId, hget, if_pos rfl, didOf_none, Set.empty_union]
  ext did
  refine exists_congr fun id => exists_congr fun other => and_congr_right fun hne => ?_
  rw [hget, if_neg hne]
  rfl

theorem mem_served_add {store : DeltaStore} {action : Action} {agent : SmAgentFacts}
    {did : String} : did ∈ served (store.add action agent) ↔
      if agent.id = did then action = .upsert else did ∈ served store := by
  rw [served, Set.mem_ofPred_eq, DeltaStore.add_deltas, last_concat, agentOf]
  by_cases hid : agent.id = did
  · simp [hid]
  · simp [hid, served]

section Calls

variable {python : Interpreter} {casing : Casing}
  {smSkill : List (String × Json) → Except PyError Json} {self self' : SmBridge}

/-- What a returning registration does to the two stores. -/
theorem registerAgent_returns {agent : SimpleAgent}
    (h : Returns python casing smSkill self (.registerAgent agent) self') :
    self'.converter = self.converter.register agent ∧
      served self'.deltaStore =
        didOf self.converter (some agent) ∪ served self.deltaStore := by
  obtain ⟨smFacts, h⟩ := h
  rw [registerAgent] at h
  cases hfacts : toSm python casing smSkill (self.converter.register agent) agent with
  | error e => simp [hfacts] at h
  | ok facts =>
    have hid : facts.id = self.converter.buildDid agent := (toSm_eq_ok hfacts).1
    simp only [hfacts, Prod.mk.injEq] at h
    rw [← h.1]
    refine ⟨rfl, ?_⟩
    ext did
    rw [Set.mem_union, mem_didOf_some]
    by_cases hpublic : agent.isPublic = true
    · simp only [if_pos hpublic, mem_served_add, hid]
      by_cases hdid : self.converter.buildDid agent = did <;> simp [hdid, hpublic]
    · simp [hpublic]

/-- What a returning removal does to the two stores. -/
theorem unregisterAgent_returns {agentId : String}
    (h : Returns python casing smSkill self (.unregisterAgent agentId) self') :
    published self'.converter = publishedBeside self.converter agentId ∧
      served self'.deltaStore =
        served self.deltaStore \ didOf self.converter (self.converter.getAgent agentId) := by
  change unregisterAgent python casing smSkill self agentId = (self', .ok ()) at h
  rw [unregisterAgent] at h
  cases hget : self.converter.getAgent agentId with
  | none =>
    simp only [hget, Prod.mk.injEq, and_true] at h
    subst self'
    rw [published_eq _ agentId, hget, didOf_none, Set.empty_union, Set.sdiff_empty]
    exact ⟨rfl, rfl⟩
  | some agent =>
    cases hfacts : toSm python casing smSkill self.converter agent with
    | error e => simp [hget, hfacts] at h
    | ok facts =>
      have hid : facts.id = self.converter.buildDid agent := (toSm_eq_ok hfacts).1
      simp only [hget, hfacts, Prod.mk.injEq, and_true] at h
      rw [← h]
      refine ⟨published_unregister _ _, ?_⟩
      ext did
      rw [Set.mem_sdiff, mem_didOf_some]
      by_cases hpublic : agent.isPublic = true
      · simp only [if_pos hpublic, mem_served_add, hid]
        by_cases hdid : self.converter.buildDid agent = did <;> simp [hdid, hpublic]
      · simp [hpublic]

theorem returns_deterministic (self : SmBridge) (call : Call) (self₁ self₂ : SmBridge)
    (h₁ : Returns python casing smSkill self call self₁)
    (h₂ : Returns python casing smSkill self call self₂) : self₁ = self₂ := by
  cases call with
  | registerAgent agent =>
    obtain ⟨facts₁, h₁⟩ := h₁
    obtain ⟨facts₂, h₂⟩ := h₂
    exact congrArg Prod.fst (h₁.symm.trans h₂)
  | unregisterAgent agentId => exact congrArg Prod.fst (Eq.trans (Eq.symm h₁) h₂)

/-- One call keeps the two stores in step exactly under its condition. -/
theorem returns_tracks_iff (call : Call) (htracks : Tracks self)
    (h : Returns python casing smSkill self call self') : Tracks self' ↔ Keeps self call := by
  cases call with
  | registerAgent agent =>
    obtain ⟨hconverter, hserved⟩ := registerAgent_returns h
    rw [Tracks, hserved, hconverter, published_register, htracks,
      published_eq self.converter agent.id, Set.ext_iff]
    constructor
    · intro heq old hold hpublic
      have hmem := (heq (self.converter.buildDid old)).mp
        (Or.inr (Or.inl ⟨old, hold, hpublic, rfl⟩))
      exact hmem.imp mem_didOf_some.mp id
    · intro hkeeps did
      constructor
      · rintro (hnew | ⟨old, hold, hpublic, rfl⟩ | hbeside)
        · exact Or.inl hnew
        · exact (hkeeps old hold hpublic).imp mem_didOf_some.mpr id
        · exact Or.inr hbeside
      · rintro (hnew | hbeside)
        · exact Or.inl hnew
        · exact Or.inr (Or.inr hbeside)
  | unregisterAgent agentId =>
    obtain ⟨hpublished, hserved⟩ := unregisterAgent_returns h
    rw [Tracks, hserved, hpublished, htracks, published_eq self.converter agentId,
      Set.union_sdiff_left, sdiff_eq_left, Set.disjoint_right]
    constructor
    · intro hdisjoint old hold hpublic
      exact hdisjoint ⟨old, hold, hpublic, rfl⟩
    · rintro hkeeps did ⟨old, hold, hpublic, rfl⟩
      exact hkeeps old hold hpublic

end Calls

theorem new_tracks (registryId providerName providerUrl : String) (baseUrl : Option String) :
    Tracks (.new registryId providerName providerUrl baseUrl) := by
  ext did
  constructor
  · rintro ⟨delta, hlast, -⟩
    cases hlast
  · rintro ⟨id, agent, hget, -⟩
    cases hget

/-- The served agents are the registered public ones all along a run of calls exactly when each
call of the run meets its condition. -/
theorem catalog_tracks_iff (python : Interpreter) (casing : Casing)
    (smSkill : List (String × Json) → Except PyError Json)
    (registryId providerName providerUrl : String) (baseUrl : Option String)
    (calls : List Call) (bridge : SmBridge)
    (hrun : Run (Returns python casing smSkill)
      (.new registryId providerName providerUrl baseUrl) calls bridge) :
    (∀ before self, before <+: calls →
      Run (Returns python casing smSkill)
        (.new registryId providerName providerUrl baseUrl) before self → Tracks self) ↔
    ∀ before call self, before ++ [call] <+: calls →
      Run (Returns python casing smSkill)
        (.new registryId providerName providerUrl baseUrl) before self → Keeps self call :=
  hrun.along_iff returns_deterministic (new_tracks _ _ _ _)
    fun _ call _ htracks hreturns => returns_tracks_iff call htracks hreturns

/-! ## An agent that is made private -/

def acme : SmBridge := .new "acme" "Acme" "https://acme.example" none

def clerk : SimpleAgent where
  id := "clerk"
  name := "Clerk"
  description := "Keeps the books"

def hiddenClerk : SimpleAgent := { clerk with isPublic := false }

/-- The bridge once the clerk is registered. -/
def clerkListed : SmBridge :=
  (registerAgent plainPython asciiCasing describedSkill acme clerk).1

def clerkHidden : SmBridge :=
  (registerAgent plainPython asciiCasing describedSkill clerkListed hiddenClerk).1

theorem clerk_run : Run (Returns plainPython asciiCasing describedSkill) acme
    [.registerAgent clerk] clerkListed :=
  Run.nil.concat ⟨_, rfl⟩

theorem hidden_returns : Returns plainPython asciiCasing describedSkill clerkListed
    (.registerAgent hiddenClerk) clerkHidden := ⟨_, rfl⟩

theorem hidden_run : Run (Returns plainPython asciiCasing describedSkill) acme
    [.registerAgent clerk, .registerAgent hiddenClerk] clerkHidden :=
  clerk_run.concat hidden_returns

theorem catalog_tracks_iff_hidden :
    (∀ before self, before <+: [.registerAgent clerk, .registerAgent hiddenClerk] →
      Run (Returns plainPython asciiCasing describedSkill)
        (.new "acme" "Acme" "https://acme.example" none) before self → Tracks self) ↔
    ∀ before call self,
      before ++ [call] <+: [.registerAgent clerk, .registerAgent hiddenClerk] →
      Run (Returns plainPython asciiCasing describedSkill)
        (.new "acme" "Acme" "https://acme.example" none) before self → Keeps self call :=
  catalog_tracks_iff plainPython asciiCasing describedSkill "acme" "Acme" "https://acme.example"
    none [.registerAgent clerk, .registerAgent hiddenClerk] clerkHidden hidden_run

/-- Registering the clerk again as a private agent takes it out of the converter's public
agents, and leaves it in the catalog. -/
theorem hidden_clerk_served :
    ¬ ∀ calls bridge, Run (Returns plainPython asciiCasing describedSkill)
      (.new "acme" "Acme" "https://acme.example" none) calls bridge → Tracks bridge := by
  intro h
  have hkeeps := (returns_tracks_iff (.registerAgent hiddenClerk) (h _ _ clerk_run)
    hidden_returns).mp (h _ _ hidden_run)
  have hget : ∀ id, clerkListed.converter.getAgent id = if id = "clerk" then some clerk else none :=
    fun id => Dict.get_set Dict.empty "clerk" id clerk
  rcases hkeeps clerk ((hget "clerk").trans (if_pos rfl)) rfl with
    ⟨hpublic, -⟩ | ⟨id, agent, hid, hother, -⟩
  · cases hpublic
  · rw [hget, if_neg (show ¬ id = "clerk" from hid)] at hother
    cases hother

end Registration
