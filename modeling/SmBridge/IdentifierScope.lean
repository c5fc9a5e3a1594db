import SmBridge.Identifiers

/-!
# Whose identifiers a registry answers

What a registry publishes about its own agents, read by itself and by other registries.
-/
namespace IdentifierScope

open Python
open JsonValue
open Text
open Segments
open Store
open Gateway
open Converter
open Identifiers

/-! ## A registry's own identifiers -/

/-- The DID and the handle of the record, and the identifier on the agent's card. -/
def publishedIdentifiers (casing : Casing) (gatewayDomain : String) (facts : SmAgentFacts) :
    List String :=
  facts.id :: (facts.handle.toList ++
    [cardIdentifier casing gatewayDomain (defaultSlug facts)])

/-- No separator is out of place, and the DID names the authority that is looked for. -/
structure Readable (self : SimpleAgentConverter) (agent : SimpleAgent) : Prop where
  registryId : ':' ∉ self.registryId.toList ∧ '/' ∉ self.registryId.toList
  namespace_ : '/' ∉ agent.namespace_.toList
  id : ':' ∉ agent.id.toList ∧ '/' ∉ agent.id.toList
  authority : NamesAuthority self agent (didAuthority self.providerUrl)

section Own

variable {python : Interpreter} {casing : Casing}
  {smSkill : List (String × Json) → Except PyError Json} {self : SimpleAgentConverter}
  {agent : SimpleAgent} {facts : SmAgentFacts}

theorem defaultSlug_toSm (hfacts : toSm python casing smSkill self agent = .ok facts) :
    defaultSlug facts = lastPart '/' agent.id := by
  have hslash : '/' ∈ (createHandle self.registryId agent.namespace_ agent.id).toList := by
    simp [createHandle, String.toList_append]
  rw [defaultSlug, (toSm_eq_ok hfacts).2]
  dsimp only
  rw [if_pos hslash]
  apply String.toList_injective
  simp only [toList_lastPart, createHandle, String.toList_append]
  rw [List.append_assoc]
  exact afterLast_cons _ agent.id.toList

/-- All identifiers of an agent are read back to its id exactly when it is readable. -/
theorem resolves_iff (python : Interpreter) (casing : Casing)
    (smSkill : List (String × Json) → Except PyError Json) (self : SimpleAgentConverter)
    (agent : SimpleAgent) (facts : SmAgentFacts) (gatewayDomain : String)
    (hfacts : toSm python casing smSkill self agent = .ok facts) (hid : agent.id ≠ "")
    (hdomain : casing.lower gatewayDomain = publisherFqdn casing self.providerUrl) :
    (∀ value ∈ publishedIdentifiers casing gatewayDomain facts,
      parseAgentIdentifier casing value self.registryId self.providerUrl = some agent.id) ↔
    Readable self agent := by
  have hurn : parseAgentIdentifier casing (cardIdentifier casing gatewayDomain
      (defaultSlug facts)) self.registryId self.providerUrl = some agent.id ↔
        ':' ∉ agent.id.toList ∧ '/' ∉ agent.id.toList := by
    rw [parse_airUrn hdomain, defaultSlug_toSm hfacts, orNone_eq_some, and_iff_left hid,
      ← String.toList_inj, toList_lastPart, toList_lastPart, afterLast_afterLast_eq_self]
  obtain ⟨hdid, hhandle⟩ := toSm_eq_ok hfacts
  have hall : (∀ value ∈ publishedIdentifiers casing gatewayDomain facts,
      parseAgentIdentifier casing value self.registryId self.providerUrl = some agent.id) ↔
      (NamesAuthority self agent (didAuthority self.providerUrl) ∧ ':' ∉ agent.id.toList) ∧
        (registryRoot self.registryId = self.registryId ∧ '/' ∉ self.registryId.toList ∧
          '/' ∉ agent.namespace_.toList) ∧ ':' ∉ agent.id.toList ∧ '/' ∉ agent.id.toList := by
    rw [publishedIdentifiers, hdid, hhandle, Option.toList_some, List.singleton_append,
      List.forall_mem_cons, List.forall_mem_cons, List.forall_mem_singleton,
      parse_did_eq_some hid, parse_handle_eq_some hid, hurn]
  rw [hall, registryRoot_eq_self]
  constructor
  · rintro ⟨⟨hauthority, -⟩, ⟨hregistry, -, hnamespace⟩, hlocal⟩
    exact ⟨hregistry, hnamespace, hlocal, hauthority⟩
  · rintro ⟨hregistry, hnamespace, hlocal, hauthority⟩
    exact ⟨⟨hauthority, hlocal.1⟩, ⟨hregistry, hregistry.2, hnamespace⟩, hlocal⟩

end Own

/-! ## Provider URLs -/

/-- The URL is this text behind `https://`, `http://` or no scheme at all. -/
structure UrlOf (url rest : String) : Prop where
  scheme : url = "https://" ++ rest ∨ url = "http://" ++ rest ∨ url = rest
  plain : ¬ "://".toList <:+: rest.toList

section Urls

variable {self : SimpleAgentConverter} {agent : SimpleAgent} {url rest : String}

theorem toList_domain : self.domain.toList = replaceFrom "http://".toList "".toList 0
    (replaceFrom "https://".toList "".toList 0 self.providerUrl.toList) := by
  rw [SimpleAgentConverter.domain, toList_replace, toList_replace]

theorem domain_of_url (h : UrlOf self.providerUrl rest) : self.domain = rest := by
  have hhttps : ¬ "https://".toList <:+: rest.toList := fun hscheme =>
    h.plain (List.IsInfix.trans ⟨"https".toList, [], rfl⟩ hscheme)
  have hhttp : ¬ "http://".toList <:+: rest.toList := fun hscheme =>
    h.plain (List.IsInfix.trans ⟨"http".toList, [], rfl⟩ hscheme)
  -- the longer scheme is not in the shorter one
  have hkept : replaceFrom "https://".toList "".toList 0 ("http://".toList ++ rest.toList) =
      "http://".toList ++ replaceFrom "https://".toList "".toList 0 rest.toList := rfl
  apply String.toList_injective
  rw [toList_domain]
  rcases h.scheme with hurl | hurl | hurl
  · rw [hurl, String.toList_append, replaceFrom_append (by decide), replaceFrom_of_absent hhttps,
      String.toList_empty, List.nil_append, replaceFrom_of_absent hhttp]
  · rw [hurl, String.toList_append, hkept, replaceFrom_append (by decide),
      replaceFrom_of_absent hhttps, String.toList_empty, List.nil_append,
      replaceFrom_of_absent hhttp]
  · rw [hurl, replaceFrom_of_absent hhttps, replaceFrom_of_absent hhttp]

theorem didAuthority_of_url (h : UrlOf url rest) : didAuthority url = rstrip '/' rest := by
  have hafter : afterFirstText "://" url = rest := by
    apply String.toList_injective
    rw [afterFirstText, String.toList_ofList]
    rcases h.scheme with hurl | hurl | hurl
    · rw [hurl, String.toList_append]
      rfl
    · rw [hurl, String.toList_append]
      rfl
    · rw [hurl, afterText_of_absent h.plain, Option.getD_none]
  rw [didAuthority, hafter]

theorem namesAuthority_web {authority : String} (hmethod : self.didMethod = "web") :
    NamesAuthority self agent authority ↔
      authority.toList ++ [':'] <+: self.domain.toList ++
        ':' :: ("agents:" ++ agent.namespace_ ++ ":" ++ agent.id).toList := by
  rw [NamesAuthority, hmethod]
  simp [String.toList_append]

/-- A registry finds itself named in its DIDs unless its URL ends in a slash. -/
theorem namesAuthority_own (hurl : UrlOf self.providerUrl rest) (hmethod : self.didMethod = "web") :
    NamesAuthority self agent (didAuthority self.providerUrl) ↔
      rest.toList.getLast? ≠ some '/' := by
  rw [namesAuthority_web hmethod, didAuthority_of_url hurl, domain_of_url hurl]
  obtain ⟨n, hslashes⟩ := exists_rstrip '/' rest
  rw [hslashes, List.append_assoc, List.prefix_append_right_inj]
  cases n with
  | zero => simp [getLast_rstrip]
  | succ n =>
    have hlast : ((rstrip '/' rest).toList ++ List.replicate (n + 1) '/').getLast? = some '/' := by
      rw [List.replicate_succ', ← List.append_assoc, List.getLast?_concat]
    rw [hlast]
    simp [List.replicate_succ]

/-- Which agents can be read back, by the text of the provider's URL. -/
theorem readable_iff_of_url (hurl : UrlOf self.providerUrl rest)
    (hmethod : self.didMethod = "web") :
    Readable self agent ↔
      (':' ∉ self.registryId.toList ∧ '/' ∉ self.registryId.toList) ∧
        '/' ∉ agent.namespace_.toList ∧ (':' ∉ agent.id.toList ∧ '/' ∉ agent.id.toList) ∧
          rest.toList.getLast? ≠ some '/' := by
  have hown : NamesAuthority self agent (didAuthority self.providerUrl) ↔
      rest.toList.getLast? ≠ some '/' := namesAuthority_own hurl hmethod
  rw [← hown]
  constructor
  · rintro ⟨hregistry, hnamespace, hid, hauthority⟩
    exact ⟨hregistry, hnamespace, hid, hauthority⟩
  · rintro ⟨hregistry, hnamespace, hid, hauthority⟩
    exact ⟨hregistry, hnamespace, hid, hauthority⟩

end Urls

/-! ## A provider URL that ends in a slash -/

def teller : SimpleAgent where
  id := "teller"
  name := "Teller"
  description := "Answers at the counter"

def bank : SimpleAgentConverter := .new "bank" "Bank" "https://bank.example" none

def slashedBank : SimpleAgentConverter := .new "bank" "Bank" "https://bank.example/" none

theorem bank_fqdn : asciiCasing.lower "bank.example" =
    publisherFqdn asciiCasing "https://bank.example" := by
  apply congrArg asciiCasing.lower
  apply String.toList_injective
  simp only [toList_head, afterFirstText, String.toList_ofList, String.reduceToList]
  decide

theorem slashedBank_fqdn : asciiCasing.lower "bank.example" =
    publisherFqdn asciiCasing "https://bank.example/" := by
  apply congrArg asciiCasing.lower
  apply String.toList_injective
  simp only [toList_head, afterFirstText, String.toList_ofList, String.reduceToList]
  decide

theorem resolves_iff_teller : ∃ facts,
    toSm plainPython asciiCasing describedSkill bank teller = .ok facts ∧
    ((∀ value ∈ publishedIdentifiers asciiCasing "bank.example" facts,
      parseAgentIdentifier asciiCasing value "bank" "https://bank.example" = some "teller") ↔
    Readable bank teller) :=
  ⟨_, rfl, resolves_iff plainPython asciiCasing describedSkill bank teller _ "bank.example" rfl
    (by decide) bank_fqdn⟩

/-- The DID keeps the slash, which the authority that is looked for does not have. -/
theorem slashed_did_unresolved :
    ¬ ∀ facts, toSm plainPython asciiCasing describedSkill slashedBank teller = .ok facts →
      asciiCasing.lower "bank.example" = publisherFqdn asciiCasing "https://bank.example/" →
      ∀ value ∈ publishedIdentifiers asciiCasing "bank.example" facts,
        parseAgentIdentifier asciiCasing value "bank" "https://bank.example/" =
          some "teller" := by
  intro h
  have hdid := h _ rfl slashedBank_fqdn _ List.mem_cons_self
  have hid : teller.id ≠ "" := by decide
  have hnames : NamesAuthority slashedBank teller (didAuthority "https://bank.example/") :=
    ((parse_did_eq_some hid).mp hdid).1
  have hurl : UrlOf slashedBank.providerUrl "bank.example/" := by
    refine ⟨Or.inl rfl, ?_⟩
    simp only [String.reduceToList]
    decide
  exact (namesAuthority_own hurl rfl).mp hnames (by decide)

/-! ## Other registries -/

/-- Another registry reads neither name of an agent as its own exactly when it is not what the
handle's registry starts with, nor the authority that the DID starts with, up to a separator. -/
theorem foreign_rejected_iff (casing : Casing) (self : SimpleAgentConverter)
    (agent : SimpleAgent) (registryId providerUrl : String) :
    (parseAgentIdentifier casing (createHandle self.registryId agent.namespace_ agent.id)
        registryId providerUrl = none ∧
      parseAgentIdentifier casing (self.buildDid agent) registryId providerUrl = none) ↔
    (registryRoot self.registryId ≠ registryId ∨
      '/' ∉ self.registryId.toList ∧ '/' ∉ agent.namespace_.toList ∧ agent.id = "") ∧
      (¬ NamesAuthority self agent (didAuthority providerUrl) ∨
        lastPart ':' agent.id = "") :=
  and_congr parse_handle_eq_none parse_did_eq_none

/-- Without separators in the first registry's id and authority, other ids and authorities are
told apart from them. -/
theorem foreign_rejected {casing : Casing} {self : SimpleAgentConverter} {agent : SimpleAgent}
    {registryId providerUrl : String} (hmethod : self.didMethod = "web")
    (hregistry : ':' ∉ self.registryId.toList ∧ '/' ∉ self.registryId.toList)
    (hdomain : ':' ∉ self.domain.toList) (hauthority : ':' ∉ (didAuthority providerUrl).toList)
    (hregistries : self.registryId ≠ registryId)
    (hauthorities : self.domain ≠ didAuthority providerUrl) :
    parseAgentIdentifier casing (createHandle self.registryId agent.namespace_ agent.id)
        registryId providerUrl = none ∧
      parseAgentIdentifier casing (self.buildDid agent) registryId providerUrl = none := by
  rw [parse_handle_eq_none, parse_did_eq_none, registryRoot_eq_self.mpr hregistry]
  refine ⟨Or.inl hregistries, Or.inl ?_⟩
  rw [namesAuthority_web hmethod]
  intro hnames
  exact hauthorities
    (String.toList_injective ((append_cons_prefix_iff hauthority hdomain).mp hnames).1.symm)

/-! ## Hosts and ports -/

/-- A host, and a port if there is one, as they stand in a URL. -/
structure Authority where
  host : String
  port : Option String
  host_plain : ':' ∉ host.toList ∧ '/' ∉ host.toList
  port_plain : ∀ p ∈ port, ':' ∉ p.toList ∧ '/' ∉ p.toList ∧ p ≠ "agents"

def Authority.text (authority : Authority) : String :=
  match authority.port with
  | none => authority.host
  | some port => authority.host ++ ":" ++ port

theorem Authority.slash_notMem (authority : Authority) : '/' ∉ authority.text.toList := by
  obtain ⟨host, port, hhost, hport⟩ := authority
  cases port with
  | none => exact hhost.2
  | some p => simp [Authority.text, String.toList_append, hhost.2, (hport p rfl).2.1]

/-- One authority is named in front of a DID's agents: the same one, or the host without its
port. -/
theorem Authority.prefix_iff {a b : Authority} {rest : List Char} :
    b.text.toList ++ [':'] <+: a.text.toList ++ ':' :: ("agents".toList ++ ':' :: rest) ↔
      b.host = a.host ∧ (b.port = none ∨ b.port = a.port) := by
  obtain ⟨host, port, ⟨hhost, -⟩, hport⟩ := a
  obtain ⟨host', port', ⟨hhost', -⟩, hport'⟩ := b
  have hagents : ':' ∉ "agents".toList := by decide
  cases port with
  | none =>
    cases port' with
    | none =>
      simp only [Authority.text, append_cons_prefix_iff hhost' hhost, String.toList_inj]
      simp
    | some q =>
      have hq := hport' q rfl
      simp only [Authority.text, String.toList_append, List.append_assoc]
      change host'.toList ++ ':' :: (q.toList ++ [':']) <+: _ ↔ _
      rw [append_cons_prefix_iff hhost' hhost, append_cons_prefix_iff hq.1 hagents]
      refine iff_of_false ?_ (by simp)
      rintro ⟨-, hport, -⟩
      exact hq.2.2 (String.toList_injective hport)
  | some p =>
    have hp := hport p rfl
    cases port' with
    | none =>
      simp only [Authority.text, String.toList_append, List.append_assoc]
      change _ <+: host.toList ++ ':' :: (p.toList ++ _) ↔ _
      rw [append_cons_prefix_iff hhost' hhost]
      simp [String.toList_inj]
    | some q =>
      have hq := hport' q rfl
      simp only [Authority.text, String.toList_append, List.append_assoc]
      change host'.toList ++ ':' :: (q.toList ++ [':']) <+:
        host.toList ++ ':' :: (p.toList ++ _) ↔ _
      rw [append_cons_prefix_iff hhost' hhost, append_cons_prefix_iff hq.1 hp.1]
      simp [String.toList_inj]

theorem Authority.plain (authority : Authority) : ¬ "://".toList <:+: authority.text.toList := by
  intro h
  exact authority.slash_notMem (h.subset (by decide))

/-- A registry reads a DID from another provider URL as its own where the hosts are the same and
its own URL has no port, or the same one. -/
theorem namesAuthority_iff_hosts {self : SimpleAgentConverter} {agent : SimpleAgent}
    {providerUrl : String} {a b : Authority} (hmethod : self.didMethod = "web")
    (hself : UrlOf self.providerUrl a.text) (hother : UrlOf providerUrl b.text) :
    NamesAuthority self agent (didAuthority providerUrl) ↔
      b.host = a.host ∧ (b.port = none ∨ b.port = a.port) := by
  have hstrip : rstrip '/' b.text = b.text := by
    apply String.toList_injective
    rw [toList_rstrip, List.rdropWhile_eq_self_iff]
    intro hne hlast
    exact b.slash_notMem (beq_iff_eq.mp hlast ▸ List.getLast_mem hne)
  rw [namesAuthority_web hmethod, didAuthority_of_url hother, hstrip, domain_of_url hself]
  simp only [String.toList_append, List.append_assoc]
  exact Authority.prefix_iff

/-- Which agents another registry rejects, by the hosts and the ports of the two. -/
theorem foreign_rejected_iff_hosts {casing : Casing} {self : SimpleAgentConverter}
    {agent : SimpleAgent} {registryId providerUrl : String} {a b : Authority}
    (hmethod : self.didMethod = "web") (hself : UrlOf self.providerUrl a.text)
    (hother : UrlOf providerUrl b.text) (hid : lastPart ':' agent.id ≠ "") :
    (parseAgentIdentifier casing (createHandle self.registryId agent.namespace_ agent.id)
        registryId providerUrl = none ∧
      parseAgentIdentifier casing (self.buildDid agent) registryId providerUrl = none) ↔
    registryRoot self.registryId ≠ registryId ∧
      (b.host = a.host → b.port ≠ none ∧ b.port ≠ a.port) := by
  have hne : agent.id ≠ "" := by
    intro hempty
    rw [hempty] at hid
    exact hid rfl
  rw [parse_handle_eq_none, parse_did_eq_none, namesAuthority_iff_hosts hmethod hself hother,
    or_iff_left hid, or_iff_left fun h => hne h.2.2, not_and, not_or]

/-- The host and the port of a URL. -/
def hostPort (url : String) : String := head '/' (afterFirstText "://" url)

def portedBank : SimpleAgentConverter := .new "bank" "Bank" "https://bank.example:8080" none

theorem bank_host_plain : ':' ∉ "bank.example".toList ∧ '/' ∉ "bank.example".toList := by decide

theorem bank_port_plain : ∀ p ∈ some "8080", ':' ∉ p.toList ∧ '/' ∉ p.toList ∧ p ≠ "agents" := by
  decide

theorem no_port_plain : ∀ p ∈ (none : Option String),
    ':' ∉ p.toList ∧ '/' ∉ p.toList ∧ p ≠ "agents" := by
  intro p hp
  cases hp

def bareAuthority : Authority := ⟨"bank.example", none, bank_host_plain, no_port_plain⟩

def portedAuthority : Authority :=
  ⟨"bank.example", some "8080", bank_host_plain, bank_port_plain⟩

/-- The registry at the standard port answers for an agent of the one at port 8080. -/
theorem ported_agent_answered :
    "bank" ≠ "shop" ∧ hostPort "https://bank.example:8080" ≠ hostPort "https://bank.example" ∧
      parseAgentIdentifier asciiCasing (portedBank.buildDid teller) "shop"
        "https://bank.example" = some "teller" := by
  refine ⟨by decide, ?_, ?_⟩
  · rw [Ne, ← String.toList_inj]
    simp only [hostPort, toList_head, afterFirstText, String.toList_ofList,
      String.reduceToList]
    decide
  · have hself : UrlOf portedBank.providerUrl portedAuthority.text :=
      ⟨Or.inl rfl, portedAuthority.plain⟩
    have hother : UrlOf "https://bank.example" bareAuthority.text :=
      ⟨Or.inl rfl, bareAuthority.plain⟩
    have hid : teller.id ≠ "" := by decide
    exact (parse_did_eq_some hid).mpr
      ⟨(namesAuthority_iff_hosts rfl hself hother).mpr ⟨rfl, Or.inl rfl⟩, by decide⟩

end IdentifierScope
