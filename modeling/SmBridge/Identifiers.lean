import SmBridge.Converter
import SmBridge.Gateway

/-!
# The identifiers of an agent, and how a registry reads them

A handle, a DID or an AIR URN names the registry that answers for it. A registry reads an
identifier back to a bare id only if it finds itself named there.
-/
namespace Identifiers

open Python
open JsonValue
open Text
open Segments
open Store
open Gateway
open Converter

/-- `value or None` -/
def orNone (value : String) : Option String := if value = "" then none else some value

def didAuthority (providerUrl : String) : String := rstrip '/' (afterFirstText "://" providerUrl)

section Definitions

variable (casing : Casing)

def publisherFqdn (providerUrl : String) : String :=
  casing.lower (head ':' (head '/' (afterFirstText "://" providerUrl)))

/-- The local id that an identifier names, or nothing if it is not ours. -/
def parseAgentIdentifier (value registryId providerUrl : String) : Option String :=
  if value = "" then none
  else if startsWith value "@" then
    let body := dropStart "@" value
    if '/' ∈ body.toList then
      if head ':' (head '/' body) ≠ registryId then none else orNone (tail '/' body)
    else orNone body
  else if startsWith value "did:" then
    let localPrefix := "did:web:" ++ didAuthority providerUrl ++ ":"
    if ¬ startsWith value localPrefix then none
    else orNone (lastPart ':' (dropStart localPrefix value))
  else
    let lowered := casing.lower value
    if startsWith lowered "urn:air:" then
      let rest := dropStart "urn:air:" value
      if casing.lower (head ':' rest) ≠ publisherFqdn casing providerUrl then none
      -- a path of fewer than two segments has no colon
      else if ':' ∉ (tail ':' rest).toList then none
      else orNone (lastPart ':' (tail ':' rest))
    else if startsWith lowered "urn:" then none
    else some value

end Definitions

/-- The part of a registry id that a reader of its handles sees. -/
def registryRoot (registryId : String) : String := head ':' (head '/' registryId)

/-- The agent's DID names `web` and this authority in front of a colon. -/
def NamesAuthority (self : SimpleAgentConverter) (agent : SimpleAgent) (authority : String) :
    Prop :=
  ("web:" ++ authority ++ ":").toList <+:
    (self.didMethod ++ ":" ++ self.domain ++ ":agents:" ++ agent.namespace_ ++ ":" ++
      agent.id).toList

instance (self : SimpleAgentConverter) (agent : SimpleAgent) (authority : String) :
    Decidable (NamesAuthority self agent authority) :=
  inferInstanceAs (Decidable (_ <+: _))

@[simp] theorem orNone_eq_none {value : String} : orNone value = none ↔ value = "" := by
  rw [orNone]
  split <;> simp [*]

theorem orNone_eq_some {value id : String} :
    orNone value = some id ↔ value = id ∧ id ≠ "" := by
  rw [orNone]
  split
  · rename_i hempty
    subst value
    simp only [reduceCtorEq, false_iff, not_and, not_not]
    exact Eq.symm
  · rename_i hne
    rw [Option.some_inj]
    constructor
    · rintro rfl
      exact ⟨rfl, hne⟩
    · exact And.left

theorem dropStart_append (start rest : String) : dropStart start (start ++ rest) = rest := by
  apply String.toList_injective
  rw [toList_dropStart, String.toList_append, List.drop_left]

theorem startsWith_append (start rest : String) : startsWith (start ++ rest) start = true := by
  rw [startsWith_iff, String.toList_append]
  exact List.prefix_append _ _

theorem startsWith_append_iff {start a b : String} :
    startsWith (start ++ b) (start ++ a) = true ↔ a.toList <+: b.toList := by
  rw [startsWith_iff, String.toList_append, String.toList_append, List.prefix_append_right_inj]

/-! ## Handles -/

section Handles

variable {casing : Casing} {registryId namespace_ agentId registryId' providerUrl : String}

theorem handle_scope :
    head ':' (head '/' (registryId ++ ":" ++ namespace_ ++ "/" ++ agentId)) =
      registryRoot registryId := by
  apply String.toList_injective
  simp only [registryRoot, toList_head, String.toList_append, List.append_assoc]
  by_cases hslash : '/' ∈ registryId.toList
  · rw [beforeFirst_append hslash]
  · rw [beforeFirst_append_of_notMem hslash, beforeFirst_eq_self hslash]
    exact beforeFirst_append_cons registryId.toList _

theorem registryRoot_eq_self :
    registryRoot registryId = registryId ↔
      ':' ∉ registryId.toList ∧ '/' ∉ registryId.toList := by
  rw [← String.toList_inj, registryRoot, toList_head, toList_head]
  constructor
  · intro hroot
    have hcolon : ':' ∉ registryId.toList := hroot ▸ notMem_beforeFirst _
    refine ⟨hcolon, fun hslash => ?_⟩
    rw [← hroot] at hslash
    exact notMem_beforeFirst _ (beforeFirst_subset _ hslash)
  · rintro ⟨hcolon, hslash⟩
    rw [beforeFirst_eq_self hslash, beforeFirst_eq_self hcolon]

theorem parse_handle :
    parseAgentIdentifier casing (createHandle registryId namespace_ agentId) registryId'
        providerUrl =
      if registryRoot registryId ≠ registryId' then none
      else orNone (tail '/' (registryId ++ ":" ++ namespace_ ++ "/" ++ agentId)) := by
  have hvalue : createHandle registryId namespace_ agentId =
      "@" ++ (registryId ++ ":" ++ namespace_ ++ "/" ++ agentId) := by
    simp only [createHandle, String.append_assoc]
  have hslash : '/' ∈ (registryId ++ ":" ++ namespace_ ++ "/" ++ agentId).toList := by
    simp [String.toList_append]
  rw [hvalue, parseAgentIdentifier, if_neg (by simp), if_pos (startsWith_append _ _)]
  simp only [dropStart_append]
  rw [if_pos hslash, handle_scope]

theorem handle_tail : (tail '/' (registryId ++ ":" ++ namespace_ ++ "/" ++ agentId)).toList =
    afterFirst '/' ((registryId ++ ":" ++ namespace_).toList ++ '/' :: agentId.toList) := by
  simp only [toList_tail, String.toList_append, List.append_assoc]
  rfl

theorem slash_notMem : '/' ∉ (registryId ++ ":" ++ namespace_).toList ↔
    '/' ∉ registryId.toList ∧ '/' ∉ namespace_.toList := by
  simp [String.toList_append]

theorem parse_handle_eq_none :
    parseAgentIdentifier casing (createHandle registryId namespace_ agentId) registryId'
        providerUrl = none ↔
      registryRoot registryId ≠ registryId' ∨
        '/' ∉ registryId.toList ∧ '/' ∉ namespace_.toList ∧ agentId = "" := by
  rw [parse_handle]
  split
  · simp [*]
  · rename_i hroot
    rw [orNone_eq_none, ← String.toList_inj, handle_tail]
    change afterFirst '/' _ = [] ↔ _
    rw [afterFirst_eq_nil, slash_notMem, and_assoc, String.toList_eq_nil_iff]
    exact (or_iff_right hroot).symm

theorem parse_handle_eq_some (hid : agentId ≠ "") :
    parseAgentIdentifier casing (createHandle registryId namespace_ agentId) registryId'
        providerUrl = some agentId ↔
      registryRoot registryId = registryId' ∧ '/' ∉ registryId.toList ∧
        '/' ∉ namespace_.toList := by
  rw [parse_handle]
  split
  · simp [*]
  · rename_i hroot
    rw [orNone_eq_some, ← String.toList_inj, handle_tail, afterFirst_eq_iff, slash_notMem,
      and_iff_left hid, and_iff_right (not_not.mp hroot)]

end Handles

/-! ## DIDs -/

section Dids

variable {casing : Casing} {self : SimpleAgentConverter} {agent : SimpleAgent}
  {registryId providerUrl : String}

theorem lastPart_append (start rest : String) :
    lastPart ':' (start ++ ":" ++ rest) = lastPart ':' rest := by
  apply String.toList_injective
  simp only [toList_lastPart, String.toList_append, List.append_assoc]
  exact afterLast_cons start.toList rest.toList

theorem buildDid_eq : self.buildDid agent = "did:" ++ (self.didMethod ++ ":" ++ self.domain ++
    ":agents:" ++ agent.namespace_ ++ ":" ++ agent.id) := by
  simp only [SimpleAgentConverter.buildDid, String.append_assoc]

theorem startsWith_did : startsWith (self.buildDid agent)
    ("did:web:" ++ didAuthority providerUrl ++ ":") = true ↔
      NamesAuthority self agent (didAuthority providerUrl) := by
  have hscope : "did:web:" ++ didAuthority providerUrl ++ ":" =
      "did:" ++ ("web:" ++ didAuthority providerUrl ++ ":") := by
    simp only [← String.append_assoc]
    rfl
  rw [hscope, buildDid_eq, startsWith_append_iff, NamesAuthority]

/-- The last segment of a DID is that of the agent's id, whatever it starts with. -/
theorem did_local (h : NamesAuthority self agent (didAuthority providerUrl)) :
    lastPart ':' (dropStart ("did:web:" ++ didAuthority providerUrl ++ ":")
      (self.buildDid agent)) = lastPart ':' agent.id := by
  obtain ⟨rest, hrest⟩ := startsWith_iff.mp (startsWith_did.mpr h)
  have hdid : self.buildDid agent =
      "did:web:" ++ didAuthority providerUrl ++ ":" ++ String.ofList rest := by
    apply String.toList_injective
    rw [← hrest]
    simp only [String.toList_append, String.toList_ofList]
  calc lastPart ':' (dropStart ("did:web:" ++ didAuthority providerUrl ++ ":")
        (self.buildDid agent)) = lastPart ':' (String.ofList rest) := by
        rw [hdid, dropStart_append]
    _ = lastPart ':' (self.buildDid agent) := by rw [hdid, lastPart_append]
    _ = lastPart ':' agent.id := lastPart_append _ _

theorem parse_did :
    parseAgentIdentifier casing (self.buildDid agent) registryId providerUrl =
      if NamesAuthority self agent (didAuthority providerUrl) then
        orNone (lastPart ':' agent.id)
      else none := by
  have hat : startsWith (self.buildDid agent) "@" = false := by
    rw [buildDid_eq, startsWith, String.toList_append]
    rfl
  have hstart : startsWith (self.buildDid agent) "did:" = true := by
    rw [buildDid_eq]
    exact startsWith_append _ _
  have hempty : self.buildDid agent ≠ "" := by simp [buildDid_eq]
  rw [parseAgentIdentifier, if_neg hempty, hat, if_neg Bool.false_ne_true, if_pos hstart]
  simp only [startsWith_did]
  by_cases hnames : NamesAuthority self agent (didAuthority providerUrl)
  · rw [if_neg (not_not.mpr hnames), if_pos hnames, did_local hnames]
  · rw [if_pos hnames, if_neg hnames]

theorem parse_did_eq_none :
    parseAgentIdentifier casing (self.buildDid agent) registryId providerUrl = none ↔
      ¬ NamesAuthority self agent (didAuthority providerUrl) ∨ lastPart ':' agent.id = "" := by
  rw [parse_did]
  split <;> simp [*]

theorem parse_did_eq_some (hid : agent.id ≠ "") :
    parseAgentIdentifier casing (self.buildDid agent) registryId providerUrl = some agent.id ↔
      NamesAuthority self agent (didAuthority providerUrl) ∧ ':' ∉ agent.id.toList := by
  rw [parse_did]
  split
  · rw [orNone_eq_some, ← String.toList_inj, toList_lastPart, afterLast_eq_self]
    simp [*]
  · simp [*]

end Dids

/-! ## AIR URNs -/

section AirUrns

variable {casing : Casing} {domain slug registryId providerUrl : String}

theorem air_isAscii : isAscii "urn:air:" := by
  have hall : "urn:air:".toList.all (fun c => decide (c.toNat < 128)) = true := rfl
  exact fun c hc => of_decide_eq_true (List.all_eq_true.mp hall c hc)

theorem air_toLower : "urn:air:".toLower = "urn:air:" := by
  apply String.toList_injective
  rw [toList_toLower]
  decide

theorem colon_notMem_publisherFqdn : ':' ∉ (publisherFqdn casing providerUrl).toList := by
  intro h
  have hcolon := casing.colon_of_lower _ h
  rw [toList_head] at hcolon
  exact notMem_beforeFirst _ hcolon

/-- A card of a gateway under the provider's name is read back to the last part of its slug. -/
theorem parse_airUrn (hdomain : casing.lower domain = publisherFqdn casing providerUrl) :
    parseAgentIdentifier casing (cardIdentifier casing domain slug) registryId providerUrl =
      orNone (lastPart ':' slug) := by
  have hvalue : cardIdentifier casing domain slug =
      "urn:air:" ++ (publisherFqdn casing providerUrl ++ ":" ++ ("agent" ++ ":" ++ slug)) := by
    rw [cardIdentifier, hdomain]
    simp only [String.append_assoc]
    rfl
  have hat : startsWith (cardIdentifier casing domain slug) "@" = false := by
    rw [hvalue, startsWith, String.toList_append]
    rfl
  have hdid : startsWith (cardIdentifier casing domain slug) "did:" = false := by
    rw [hvalue, startsWith, String.toList_append]
    rfl
  have hlowered : startsWith (casing.lower (cardIdentifier casing domain slug)) "urn:air:" =
      true := by
    rw [hvalue, startsWith_iff]
    exact casing.lower_append "urn:air:" _ air_isAscii air_toLower
  have hempty : cardIdentifier casing domain slug ≠ "" := by simp [hvalue]
  have hhead : head ':' (publisherFqdn casing providerUrl ++ ":" ++ ("agent" ++ ":" ++ slug)) =
      publisherFqdn casing providerUrl := by
    apply String.toList_injective
    simp only [toList_head, String.toList_append, List.append_assoc]
    exact beforeFirst_cons colon_notMem_publisherFqdn _
  have htail : tail ':' (publisherFqdn casing providerUrl ++ ":" ++ ("agent" ++ ":" ++ slug)) =
      "agent" ++ ":" ++ slug := by
    apply String.toList_injective
    rw [toList_tail, String.toList_append, String.toList_append, List.append_assoc]
    exact afterFirst_cons colon_notMem_publisherFqdn _
  have hlower : casing.lower (publisherFqdn casing providerUrl) =
      publisherFqdn casing providerUrl := casing.lower_lower _
  have hcolon : ':' ∈ ("agent" ++ ":" ++ slug).toList := by simp [String.toList_append]
  rw [parseAgentIdentifier, if_neg hempty, hat, if_neg Bool.false_ne_true, hdid,
    if_neg Bool.false_ne_true]
  simp only [hlowered, if_true]
  rw [hvalue, dropStart_append, hhead, htail, hlower, if_neg (not_not.mpr rfl),
    if_neg (not_not.mpr hcolon), lastPart_append]

end AirUrns

end Identifiers
