import SmBridge.Text
import SmBridge.Lib.Objects

/-!
# The tools that a bridge advertises

The bridge and its router each keep a list of the tools, which is the same object only if the
bridge was built with tools. A tool that is added later is seen by both, or by one.
-/
namespace AdvertisedTools

open Python
open Text
open Objects

structure SmTool where
  toolId : String
  description : String
  endpoint : String
  params : List String := []
  version : String := "v1"

structure SmProvider where
  name : String
  url : String

/-- The discovery document. -/
structure SmWellKnown where
  registryId : String
  registryDid : String
  namespaces : List String
  indexUrl : String
  resolveUrl : String
  deltasUrl : String
  toolsUrl : Option String
  provider : SmProvider
  capabilities : List String

structure SmToolsResponse where
  registryId : String
  tools : List SmTool

/-- What the functions of `create_sm_router` capture. -/
structure Router where
  registryId : String
  baseUrl : String
  providerName : String
  providerUrl : String
  tools : Ref
  namespaces : List String
  path : String

structure SmBridge where
  heap : Heap (List SmTool)
  registryId : String
  providerName : String
  providerUrl : String
  baseUrl : String
  tools : Ref
  router : Router

/-- `tools or []` -/
def orNew (heap : Heap (List SmTool)) : Option Ref → Ref × Heap (List SmTool)
  | some r => if heap.read r = [] then heap.alloc [] else (r, heap)
  | none => heap.alloc []

/-- The namespaces of a provider, if none are given. -/
def providerNamespaces (providerUrl : String) : List String :=
  ["did:web:" ++ replace "https://" "" providerUrl ++ ":*"]

def createSmRouter (heap : Heap (List SmTool))
    (registryId baseUrl providerName providerUrl : String) (tools : Option Ref)
    (namespaces : Option (List String)) (path : String := "/nanda") :
    Router × Heap (List SmTool) :=
  let (tools, heap) := orNew heap tools
  let namespaces :=
    if namespaces.getD [] = [] then providerNamespaces providerUrl else namespaces.getD []
  (⟨registryId, baseUrl, providerName, providerUrl, tools, namespaces, path⟩, heap)

/-- The bridge is built with the caller's list, or with none. -/
def SmBridge.new (registryId providerName providerUrl : String) (baseUrl : Option String)
    (tools : Option (List SmTool)) (namespaces : Option (List String)) : SmBridge :=
  let heap : Heap (List SmTool) := ⟨1, fun _ => tools.getD []⟩
  let baseUrl := if baseUrl.getD "" = "" then providerUrl else baseUrl.getD ""
  let (own, heap) := orNew heap (tools.map fun _ => 0)
  let (router, heap) :=
    createSmRouter heap registryId baseUrl providerName providerUrl (some own) namespaces
  ⟨heap, registryId, providerName, providerUrl, baseUrl, own, router⟩

def addTool (self : SmBridge) (tool : SmTool) : SmBridge :=
  { self with heap := self.heap.write self.tools (self.heap.read self.tools ++ [tool]) }

/-- `bridge.tools` -/
def toolList (self : SmBridge) : List SmTool := self.heap.read self.tools

def registryDid (baseUrl : String) : String :=
  "did:web:" ++ replace "http://" "" (replace "https://" "" baseUrl)

def capabilities (tools : List SmTool) : List String :=
  ["agentfacts", "deltas"] ++ if tools ≠ [] then ["mcp-tools"] else []

/-- `bridge.wellknown` -/
def wellknown (self : SmBridge) : SmWellKnown where
  registryId := self.registryId
  registryDid := registryDid self.baseUrl
  namespaces := providerNamespaces self.providerUrl
  indexUrl := self.baseUrl ++ "/nanda/index"
  resolveUrl := self.baseUrl ++ "/nanda/resolve"
  deltasUrl := self.baseUrl ++ "/nanda/deltas"
  toolsUrl := if toolList self ≠ [] then some (self.baseUrl ++ "/nanda/tools") else none
  provider := ⟨self.providerName, self.providerUrl⟩
  capabilities := capabilities (toolList self)

/-- `GET /nanda/tools` -/
def smToolsEndpoint (self : SmBridge) : SmToolsResponse :=
  ⟨self.router.registryId, self.heap.read self.router.tools⟩

/-- `GET /.well-known/nanda.json` -/
def smWellknown (self : SmBridge) : SmWellKnown where
  registryId := self.router.registryId
  registryDid := registryDid self.router.baseUrl
  namespaces := self.router.namespaces
  indexUrl := self.router.baseUrl ++ self.router.path ++ "/index"
  resolveUrl := self.router.baseUrl ++ self.router.path ++ "/resolve"
  deltasUrl := self.router.baseUrl ++ self.router.path ++ "/deltas"
  toolsUrl :=
    if self.heap.read self.router.tools ≠ [] then
      some (self.router.baseUrl ++ self.router.path ++ "/tools")
    else none
  provider := ⟨self.router.providerName, self.router.providerUrl⟩
  capabilities := capabilities (self.heap.read self.router.tools)

theorem smToolsEndpoint_tools (self : SmBridge) :
    (smToolsEndpoint self).tools = self.heap.read self.router.tools := rfl

/-- What is served says the same about the tools as the bridge. -/
structure InStep (bridge : SmBridge) : Prop where
  tools : (smToolsEndpoint bridge).tools = toolList bridge
  toolsUrl : (smWellknown bridge).toolsUrl = (wellknown bridge).toolsUrl
  capabilities : (smWellknown bridge).capabilities = (wellknown bridge).capabilities

variable {bridge : SmBridge} {heap : Heap (List SmTool)} {r : Ref} {tool : SmTool}
  {registryId providerName providerUrl : String} {baseUrl : Option String}
  {tools : Option (List SmTool)} {namespaces : Option (List String)}

/-! ## Which lists there are -/

theorem orNew_of_ne_nil (h : heap.read r ≠ []) : orNew heap (some r) = (r, heap) := if_neg h

theorem orNew_of_nil (h : heap.read r = []) : orNew heap (some r) = heap.alloc [] := if_pos h

/-- A bridge that is built with tools shares its list with the router. -/
theorem new_shared (registryId providerName providerUrl : String) (baseUrl : Option String)
    (namespaces : Option (List String)) (h : tools.getD [] ≠ []) :
    (SmBridge.new registryId providerName providerUrl baseUrl tools namespaces).router.tools =
        (SmBridge.new registryId providerName providerUrl baseUrl tools namespaces).tools ∧
      toolList (.new registryId providerName providerUrl baseUrl tools namespaces) =
        tools.getD [] := by
  cases tools with
  | none => exact absurd rfl h
  | some given =>
    have hown : orNew ⟨1, fun _ => given⟩ (some 0) = (0, ⟨1, fun _ => given⟩) := orNew_of_ne_nil h
    simp only [SmBridge.new, createSmRouter, toolList, Option.map_some, Option.getD_some, hown]
    exact ⟨trivial, rfl⟩

/-- A bridge that is built without tools has a list of its own, and so has the router. -/
theorem new_apart (registryId providerName providerUrl : String) (baseUrl : Option String)
    (namespaces : Option (List String)) (h : tools.getD [] = []) :
    (SmBridge.new registryId providerName providerUrl baseUrl tools namespaces).router.tools ≠
        (SmBridge.new registryId providerName providerUrl baseUrl tools namespaces).tools ∧
      toolList (.new registryId providerName providerUrl baseUrl tools namespaces) = [] ∧
      (smToolsEndpoint
        (.new registryId providerName providerUrl baseUrl tools namespaces)).tools = [] := by
  have hown : orNew ⟨1, fun _ => tools.getD []⟩ (tools.map fun _ => 0) =
      Heap.alloc ⟨1, fun _ => tools.getD []⟩ [] := by
    cases tools with
    | none => rfl
    | some given => exact orNew_of_nil h
  have hrouter : ∀ heap : Heap (List SmTool),
      orNew (heap.alloc []).2 (some (heap.alloc []).1) = (heap.alloc []).2.alloc [] :=
    fun heap => orNew_of_nil Heap.read_alloc_self
  simp only [SmBridge.new, createSmRouter, toolList, smToolsEndpoint, hown, hrouter]
  refine ⟨Heap.alloc_ne_of_lt Heap.alloc_lt, ?_, Heap.read_alloc_self⟩
  rw [Heap.read_alloc_of_lt Heap.alloc_lt, Heap.read_alloc_self]

/-! ## Additions -/

/-- Additions go to the bridge's list, and to no other. -/
structure Extends (bridge bridge' : SmBridge) (added : List SmTool) : Prop where
  tools : bridge'.tools = bridge.tools
  router : bridge'.router = bridge.router
  baseUrl : bridge'.baseUrl = bridge.baseUrl
  own : toolList bridge' = toolList bridge ++ added
  other : ∀ r ≠ bridge.tools, bridge'.heap.read r = bridge.heap.read r

theorem addTools_extends (bridge : SmBridge) (added : List SmTool) :
    Extends bridge (added.foldl addTool bridge) added := by
  induction added using List.reverseRecOn with
  | nil => exact ⟨rfl, rfl, rfl, (List.append_nil _).symm, fun _ _ => rfl⟩
  | append_singleton added tool ih =>
    rw [List.foldl_append, List.foldl_cons, List.foldl_nil]
    refine ⟨ih.tools, ih.router, ih.baseUrl, ?_, fun r hr => ?_⟩
    · rw [← List.append_assoc, ← ih.own]
      exact Heap.read_write_self
    · exact (Heap.read_write_of_ne (ih.tools ▸ hr)).trans (ih.other r hr)

/-- The router serves the bridge's base URL under the path of the bridge's document. -/
structure Mounted (bridge : SmBridge) : Prop where
  baseUrl : bridge.router.baseUrl = bridge.baseUrl
  path : bridge.router.path = "/nanda"

theorem new_mounted :
    Mounted (.new registryId providerName providerUrl baseUrl tools namespaces) :=
  ⟨rfl, rfl⟩

/-- The two documents agree about the tools as soon as the two lists do. -/
theorem inStep_iff (hmounted : Mounted bridge) :
    InStep bridge ↔ (smToolsEndpoint bridge).tools = toolList bridge := by
  refine ⟨InStep.tools, fun h => ?_⟩
  have hlists : bridge.heap.read bridge.router.tools = toolList bridge := h
  refine ⟨h, ?_, ?_⟩
  · simp only [smWellknown, wellknown, hlists, hmounted.baseUrl, hmounted.path,
      String.append_assoc]
    rfl
  · simp only [smWellknown, wellknown, hlists]

/-- What is served keeps in step with the bridge exactly if the bridge was built with a tool, or
none has been added. -/
theorem in_step_iff (registryId providerName providerUrl : String) (baseUrl : Option String)
    (tools : Option (List SmTool)) (namespaces : Option (List String)) (added : List SmTool) :
    InStep (added.foldl addTool
      (.new registryId providerName providerUrl baseUrl tools namespaces)) ↔
      tools.getD [] ≠ [] ∨ added = [] := by
  have hextends := addTools_extends
    (.new registryId providerName providerUrl baseUrl tools namespaces) added
  have hmounted : Mounted (added.foldl addTool
      (.new registryId providerName providerUrl baseUrl tools namespaces)) := by
    constructor
    · rw [hextends.router, hextends.baseUrl]
      exact new_mounted.baseUrl
    · rw [hextends.router]
      exact new_mounted.path
  rw [inStep_iff hmounted, smToolsEndpoint_tools, hextends.router]
  by_cases hgiven : tools.getD [] = []
  · obtain ⟨hapart, hown, hserved⟩ := new_apart registryId providerName providerUrl
      baseUrl namespaces hgiven
    rw [hextends.own, hextends.other _ hapart, hown, List.nil_append, ← smToolsEndpoint_tools,
      hserved]
    exact ⟨fun h => Or.inr h.symm, fun h => (h.resolve_left (not_not.mpr hgiven)).symm⟩
  · have hshared := (new_shared registryId providerName providerUrl baseUrl namespaces hgiven).1
    rw [hshared, ← hextends.tools]
    exact iff_of_true rfl (Or.inl hgiven)

/-! ## A bridge without tools -/

def search : SmTool where
  toolId := "search"
  description := "Searches"
  endpoint := "https://acme.example/tools/search"

/-- The first tool that is added is not served. -/
theorem added_tool_not_served : ¬ ∀ added : List SmTool, InStep (added.foldl addTool
    (.new "acme" "Acme" "https://acme.example" none none none)) := by
  intro h
  have htools : ([] : List SmTool) = [search] := (h [search]).tools
  cases htools

end AdvertisedTools
