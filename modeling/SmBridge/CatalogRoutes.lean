import SmBridge.AnsTxt
import SmBridge.Catalog

/-!
# The routes of the catalog gateway

The catalog document and the search list the current agents, and two more routes answer for an
agent by its slug. Starlette tries the routes in the order of their registration; a parameter
of a path takes one segment that is not empty.
-/
namespace CatalogRoutes

open Python
open JsonValue
open Text
open Dictionary
open Replay
open Store
open Gateway
open AnsTxt (strip)

def a2aCardMediaType : String := "application/a2a-agent-card+json"

/-! ## Fields of a record -/

def textOf : Option Json → String
  | some (.str s) => s
  | _ => ""

def textsOf : Option Json → List String
  | some (.arr xs) => xs.map fun x => textOf (some x)
  | _ => []

/-- `getattr(facts, name)` -/
def field (facts : SmAgentFacts) (name : String) : Option Json := facts.record.lookup name

/-- `getattr(getattr(facts, name), inner)` -/
def subfield (facts : SmAgentFacts) (name inner : String) : Option Json :=
  (field facts name).bind (Json.get? inner)

/-! ## Entries and cards -/

structure CatalogEntry where
  identifier : String
  displayName : String
  mediaType : String
  url : String
  description : Option String
  tags : List String
  version : Option String
  metadata : List (String × Json)

structure CatalogDocument where
  specVersion : String
  host : Option String
  entries : List CatalogEntry

structure CardMeta where
  identifier : String
  publicUrl : String
  hostedBy : String
  agentfacts : Json

structure A2AAgentCard where
  name : String
  description : Option String
  url : String
  version : String
  capabilities : Json
  authentication : Json
  skills : List Json
  provider : Json
  meta_ : CardMeta

def toCatalogEntry (facts : SmAgentFacts) (slug baseUrl : String) : CatalogEntry where
  identifier := slug
  displayName := textOf (field facts "agent_name")
  mediaType := a2aCardMediaType
  url := baseUrl ++ "/cards/" ++ slug ++ ".json"
  description := some (textOf (field facts "description"))
  tags := textsOf (subfield facts "capabilities" "skills")
  version := some (textOf (field facts "version"))
  metadata := []

/-- `_runtime_url` -/
def runtimeUrl (facts : SmAgentFacts) : String :=
  match textsOf (subfield facts "endpoints" "static") with
  | url :: _ => url
  | [] =>
    match textsOf (subfield facts "endpoints" "dynamic") with
    | url :: _ => url
    | [] => textOf ((subfield facts "endpoints" "adaptive_resolver").bind (Json.get? "url"))

def cardSkills (facts : SmAgentFacts) : List Json :=
  match field facts "skills" with
  | some (.arr skills) => skills.map fun s =>
    .obj [("name", .str (textOf (s.get? "id"))),
      ("description", .str (textOf (s.get? "description")))]
  | _ => []

/-- `_matches` -/
def matches_ (casing : Casing) (entry : CatalogEntry) (query : String) : Bool :=
  let q := casing.lower (strip query)
  let haystack := [entry.displayName, entry.description.getD "", entry.identifier] ++ entry.tags
  q = "" || haystack.any fun field => q.toList <:+: (casing.lower field).toList

section Definitions

variable (casing : Casing) (modelDump : SmAgentFacts → Json)

def toA2aCard (facts : SmAgentFacts) (slug domain baseUrl : String) : A2AAgentCard where
  name := textOf (field facts "agent_name")
  description := some (textOf (field facts "description"))
  url := runtimeUrl facts
  version := textOf (field facts "version")
  capabilities := .obj [("streaming", (subfield facts "capabilities" "streaming").getD
    (.bool false))]
  authentication := .obj [("schemes", .arr ((textsOf ((subfield facts "capabilities"
    "authentication").bind (Json.get? "methods"))).map .str))]
  skills := cardSkills facts
  provider := .obj [("organization", .str (textOf (subfield facts "provider" "name"))),
    ("url", .str (textOf (subfield facts "provider" "url")))]
  meta_ := {
    identifier := cardIdentifier casing domain slug
    publicUrl := baseUrl ++ "/cards/" ++ slug ++ ".json"
    hostedBy := "sm-bridge"
    agentfacts := modelDump facts }

/-! ## Routes -/

/-- The arguments of `create_gateway_router`. -/
structure GatewayRouter where
  baseUrl : String
  domain : String
  slugOf : SmAgentFacts → String := defaultSlug
  isListed : String → SmAgentFacts → Bool := fun _ _ => true

def GatewayRouter.base (router : GatewayRouter) : String := rstrip '/' router.baseUrl

inductive Response where
  | document (document : CatalogDocument)
  | entry (entry : CatalogEntry)
  | card (card : A2AAgentCard)
  | notFound (detail : String)

/-- `listed_entries` -/
def GatewayRouter.listedEntries (router : GatewayRouter) (store : DeltaStore) :
    List CatalogEntry :=
  (currentFacts store router.slugOf).entries.filterMap fun (slug, facts) =>
    if router.isListed slug facts then some (toCatalogEntry facts slug router.base) else none

/-- `ai_catalog` -/
def GatewayRouter.aiCatalog (router : GatewayRouter) (store : DeltaStore) : CatalogDocument :=
  ⟨"1.0", some router.base, router.listedEntries store⟩

def GatewayRouter.searchAgents (router : GatewayRouter) (store : DeltaStore) (q : String) :
    CatalogDocument :=
  ⟨"1.0", some router.base, (router.listedEntries store).filter fun e => matches_ casing e q⟩

def notFoundAgent (slug : String) : Response := .notFound ("agent '" ++ slug ++ "' not found")

def GatewayRouter.getAgent (router : GatewayRouter) (store : DeltaStore) (slug : String) :
    Response :=
  match (currentFacts store router.slugOf).get slug with
  | none => notFoundAgent slug
  | some facts => .entry (toCatalogEntry facts slug router.base)

def GatewayRouter.getCard (router : GatewayRouter) (store : DeltaStore) (slug : String) :
    Response :=
  match (currentFacts store router.slugOf).get slug with
  | none => notFoundAgent slug
  | some facts => .card (toA2aCard casing modelDump facts slug router.domain router.base)

/-- The segment that a path has between a literal start and a literal end. -/
def pathSegment (start stop path : String) : Option String :=
  let rest := path.toList.drop start.toList.length
  let segment := rest.take (rest.length - stop.toList.length)
  if path.toList = start.toList ++ segment ++ stop.toList ∧ segment ≠ [] ∧ '/' ∉ segment then
    some (String.ofList segment)
  else none

/-- `GET path?q=q`, for a path behind the router's prefix. -/
def GatewayRouter.get (router : GatewayRouter) (store : DeltaStore) (path q : String) :
    Response :=
  if path = "/.well-known/ai-catalog.json" then .document (router.aiCatalog store)
  else if path = "/agents/search" then .document (router.searchAgents casing store q)
  else
    match pathSegment "/agents/" "" path with
    | some slug => router.getAgent store slug
    | none =>
      match pathSegment "/cards/" ".json" path with
      | some slug => router.getCard casing modelDump store slug
      | none => .notFound "Not Found"

end Definitions

def agentPath (slug : String) : String := "/agents/" ++ slug
def cardPath (slug : String) : String := "/cards/" ++ slug ++ ".json"

/-- A slug that a path can hold as one segment. -/
def Segment (slug : String) : Prop := slug ≠ "" ∧ '/' ∉ slug.toList

instance : DecidablePred Segment := fun _ => inferInstanceAs (Decidable (_ ∧ _))

/-! ## Paths -/

theorem pathSegment_eq_some {start stop path slug : String} :
    pathSegment start stop path = some slug ↔ path = start ++ slug ++ stop ∧ Segment slug := by
  constructor
  · intro h
    rw [pathSegment] at h
    split at h
    · rename_i hpath
      obtain ⟨hpath, hne, hslash⟩ := hpath
      obtain rfl := Option.some.inj h
      refine ⟨String.toList_injective ?_, ?_, ?_⟩
      · rw [String.toList_append, String.toList_append, String.toList_ofList]
        exact hpath
      · intro hempty
        exact hne (String.ofList_eq_empty_iff.mp hempty)
      · rwa [String.toList_ofList]
    · cases h
  · rintro ⟨rfl, hne, hslash⟩
    have hrest : (start ++ slug ++ stop).toList.drop start.toList.length =
        slug.toList ++ stop.toList := by
      rw [String.toList_append, String.toList_append, List.append_assoc, List.drop_left]
    have hsegment : (slug.toList ++ stop.toList).take
        ((slug.toList ++ stop.toList).length - stop.toList.length) = slug.toList := by
      rw [List.length_append, Nat.add_sub_cancel, List.take_left]
    have hne' : slug.toList ≠ [] := fun hnil => hne (String.toList_eq_nil_iff.mp hnil)
    simp only [pathSegment, hrest, hsegment]
    rw [if_pos, String.ofList_toList]
    refine ⟨?_, hne', hslash⟩
    rw [String.toList_append, String.toList_append]

theorem agentPath_inj {s t : String} : agentPath s = agentPath t ↔ s = t := by
  rw [agentPath, agentPath, ← String.toList_inj, String.toList_append, String.toList_append,
    List.append_right_inj, String.toList_inj]

theorem agentPath_ne_cards (s : String) (rest : String) : agentPath s ≠ "/cards/" ++ rest := by
  intro h
  have hlist := congrArg String.toList h
  simp [agentPath, String.toList_append] at hlist

section Routes

variable {casing : Casing} {modelDump : SmAgentFacts → Json} {router : GatewayRouter}
  {store : DeltaStore} {slug q : String}

/-- The search is registered first, so the slug `search` is never looked up. -/
theorem get_agentPath : router.get casing modelDump store (agentPath slug) q =
    if slug = "search" then .document (router.searchAgents casing store q)
    else if Segment slug then router.getAgent store slug
    else .notFound "Not Found" := by
  have hcatalog : agentPath slug ≠ "/.well-known/ai-catalog.json" := by
    intro h
    have hlist := congrArg String.toList h
    simp [agentPath, String.toList_append] at hlist
  have hsearch : agentPath slug = "/agents/search" ↔ slug = "search" :=
    agentPath_inj (s := slug) (t := "search")
  have hcard : pathSegment "/cards/" ".json" (agentPath slug) = none := by
    rw [Option.eq_none_iff_forall_ne_some]
    intro s h
    have hpath := (pathSegment_eq_some.mp h).1
    rw [String.append_assoc] at hpath
    exact agentPath_ne_cards slug _ hpath
  rw [GatewayRouter.get, if_neg hcatalog]
  simp only [hsearch]
  by_cases hs : slug = "search"
  · rw [if_pos hs, if_pos hs]
  rw [if_neg hs, if_neg hs]
  by_cases hsegment : Segment slug
  · have hagent : pathSegment "/agents/" "" (agentPath slug) = some slug :=
      pathSegment_eq_some.mpr ⟨by rw [agentPath, String.append_empty], hsegment⟩
    rw [hagent, if_pos hsegment]
  · have hagent : pathSegment "/agents/" "" (agentPath slug) = none := by
      rw [Option.eq_none_iff_forall_ne_some]
      intro s h
      obtain ⟨hpath, hs⟩ := pathSegment_eq_some.mp h
      rw [String.append_empty] at hpath
      exact hsegment (agentPath_inj.mp hpath ▸ hs)
    rw [hagent, hcard, if_neg hsegment]

theorem get_cardPath : router.get casing modelDump store (cardPath slug) q =
    if Segment slug then router.getCard casing modelDump store slug
    else .notFound "Not Found" := by
  have hother : ∀ s, cardPath slug ≠ agentPath s := by
    intro s h
    rw [cardPath, String.append_assoc] at h
    exact agentPath_ne_cards s _ h.symm
  have hcatalog : cardPath slug ≠ "/.well-known/ai-catalog.json" := by
    intro h
    have hlist := congrArg String.toList h
    simp [cardPath, String.toList_append] at hlist
  have hagent : pathSegment "/agents/" "" (cardPath slug) = none := by
    rw [Option.eq_none_iff_forall_ne_some]
    intro s h
    have hpath := (pathSegment_eq_some.mp h).1
    rw [String.append_empty] at hpath
    exact hother s hpath
  have hsearch : cardPath slug ≠ "/agents/search" := hother "search"
  rw [GatewayRouter.get, if_neg hcatalog, if_neg hsearch, hagent]
  by_cases hsegment : Segment slug
  · have hcard : pathSegment "/cards/" ".json" (cardPath slug) = some slug :=
      pathSegment_eq_some.mpr ⟨rfl, hsegment⟩
    rw [hcard, if_pos hsegment]
  · have hcard : pathSegment "/cards/" ".json" (cardPath slug) = none := by
      rw [Option.eq_none_iff_forall_ne_some]
      intro s h
      obtain ⟨hpath, hs⟩ := pathSegment_eq_some.mp h
      have hlist := congrArg String.toList hpath
      simp only [cardPath, String.toList_append, List.append_left_inj,
        List.append_right_inj] at hlist
      exact hsegment (String.toList_inj.mp hlist ▸ hs)
    rw [hcard, if_neg hsegment]

/-! ## What is listed -/

theorem mem_listedEntries {e : CatalogEntry} : e ∈ router.listedEntries store ↔
    ∃ facts, (currentFacts store router.slugOf).get e.identifier = some facts ∧
      router.isListed e.identifier facts = true ∧
      e = toCatalogEntry facts e.identifier router.base := by
  rw [GatewayRouter.listedEntries, List.mem_filterMap]
  constructor
  · rintro ⟨⟨slug, facts⟩, hmem, h⟩
    dsimp only at h
    split at h
    · rename_i hlisted
      obtain rfl := Option.some.inj h
      exact ⟨facts, Dict.mem_entries.mp hmem, hlisted, rfl⟩
    · cases h
  · rintro ⟨facts, hget, hlisted, heq⟩
    refine ⟨(e.identifier, facts), Dict.mem_entries.mpr hget, ?_⟩
    dsimp only
    rw [if_pos hlisted, ← heq]

/-- No slug is listed twice. -/
theorem listedEntries_nodup :
    ((router.listedEntries store).map CatalogEntry.identifier).Nodup := by
  have hsublist : ∀ entries : List (String × SmAgentFacts),
      ((entries.filterMap fun (slug, facts) => if router.isListed slug facts then
        some (toCatalogEntry facts slug router.base) else none).map
          CatalogEntry.identifier).Sublist (entries.map Prod.fst) := by
    intro entries
    induction entries with
    | nil => exact List.Sublist.slnil
    | cons entry entries ih =>
      obtain ⟨slug, facts⟩ := entry
      rw [List.filterMap_cons]
      dsimp only
      split
      · rename_i h
        split at h
        · cases h
        · exact ih.cons slug
      · rename_i h
        split at h
        · obtain rfl := Option.some.inj h
          exact ih.cons_cons slug
        · cases h
  exact (currentFacts store router.slugOf).nodup.sublist (hsublist _)

end Routes

/-! ## Later requests -/

/-- What is said about other agents under other slugs leaves an agent where it is. -/
theorem currentFacts_later {slugOf : SmAgentFacts → String} {slug : String}
    {facts : SmAgentFacts} (adds later : List (Action × SmAgentFacts))
    (hshown : (currentFacts (storeOf adds) slugOf).get slug = some facts)
    (hlater : ∀ add ∈ later, slugOf add.2 ≠ slug ∧ add.2.id ≠ facts.id) :
    (currentFacts (storeOf (adds ++ later)) slugOf).get slug = some facts := by
  induction later using List.reverseRecOn with
  | nil => rwa [List.append_nil]
  | append_singleton later add ih =>
    obtain ⟨hslug, hid⟩ := hlater add (by simp)
    rw [← List.append_assoc, storeOf_concat]
    exact Catalog.removal_elsewhere (storeOf_invariant _) hslug
      (ih fun add hadd => hlater add (List.mem_append_left _ hadd)) hid.symm

def agentNamed (name : String) : SmAgentFacts :=
  ⟨"did:web:example.com:agents:" ++ name, some ("@example:agents/" ++ name), none,
    [("agent_name", .str name)], by simp [namedFields]⟩

def exampleRouter : GatewayRouter where
  baseUrl := "https://reg.example.com/"
  domain := "example.com"

end CatalogRoutes
