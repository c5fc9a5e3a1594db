import SmBridge.Hashing
import SmBridge.Json
import SmBridge.Lib.Attempts
import SmBridge.Lib.Dict
import SmBridge.Lib.Regex
import SmBridge.ProofResult
import SmBridge.Text
import Mathlib.Data.List.Sort
import Mathlib.Data.List.Dedup
import Mathlib.Data.Finset.Card
import Mathlib.Data.Finset.Dedup

/-!
# The DNS records of an agent

A host's `_ans` and `_ans-badge` records are read at every vantage. The check fails if the url
is not the expected one or if the endpoint sets of two vantages differ, and it is not run if
a record is missing at some vantage.
-/
namespace AnsTxt

open Python
open JsonValue
open Dictionary
open Hashing
open Text
open Trust
open Regex
open Attempts

/-! ## Names and agent ids -/

def isHexDigit (c : Char) : Bool :=
  c.isDigit || ('a'.toNat ≤ c.toNat && c.toNat ≤ 'f'.toNat) ||
    ('A'.toNat ≤ c.toNat && c.toNat ≤ 'F'.toNat)

def hyphen : Pattern Char := .char (· == '-')

def hexDigits (n : ℕ) : Pattern Char := .repeated (.char isHexDigit) n (some n)

/-- `_UUID_RE`, which ignores the case. -/
def uuidRe : Pattern Char :=
  .seq (hexDigits 8) (.seq hyphen (.seq (hexDigits 4) (.seq hyphen (.seq (hexDigits 4)
    (.seq hyphen (.seq (hexDigits 4) (.seq hyphen (hexDigits 12))))))))

def labelChar (c : Char) : Bool := c.isAlphanum || c == '-'

def newline (c : Char) : Bool := c == '\n'

def rootDot : Pattern Char := .repeated (.char (· == '.')) 0 (some 1)

/-- `(?!-)[A-Za-z0-9-]{1,63}(?<!-)` -/
def label : Pattern Char :=
  .seq (.notAhead hyphen) (.seq (.repeated (.char labelChar) 1 (some 63)) (.notBehind (· == '-')))

/-- `_FQDN_RE` -/
def fqdnRe : Pattern Char :=
  .seq .start (.seq
    (.ahead (.seq (.repeated (.char (!newline ·)) 1 (some 253)) (.seq rootDot (.finish newline))))
    (.seq label (.seq (.repeated (.seq (.char (· == '.')) label) 1 none)
      (.seq rootDot (.finish newline)))))

/-- `_is_valid_fqdn`, which gives the host if it is one. -/
def validFqdn? : Json → Option String
  | .str host => if fqdnRe.matches_ host.toList then some host else none
  | _ => none

example : fqdnRe.matches_ "agent.example.com".toList = true := by decide +kernel

example : ["", "not a host", "no-dot", "http://x.example/y", "..", "-lead.example"].all
    (fun host => !fqdnRe.matches_ host.toList) = true := by
  decide +kernel

/-! ## Records -/

/-- `txt.split(c)` -/
def split (c : Char) (txt : String) : List String := (txt.toList.splitOn c).map String.ofList

def strip (s : String) : String :=
  String.ofList ((s.toList.dropWhile isSpace).reverse.dropWhile isSpace).reverse

def parseKv (txt : String) : Dict String String :=
  (split ';' txt).foldl (fun out part =>
    if '=' ∈ part.toList then out.set (strip (head '=' part)) (strip (tail '=' part)) else out)
    Dict.empty

/-- The record carries the version tag. -/
def tagged (expectedV : String) (kv : Dict String String) : Bool := kv.get "v" == some expectedV

def findKv (txts : List String) (expectedV : String) : Option (Dict String String) :=
  (txts.map parseKv).find? (tagged expectedV)

example : ((findKv ["v=other", "v=ans1; p=mcp; url= https://a.example ; mode"] "ans1").map
    Dict.entries) = some [("v", "ans1"), ("p", "mcp"), ("url", "https://a.example")] := by
  decide +kernel

/-- One vantage's view of a host's records. -/
structure View where
  /-- The vantage as it was given, or `default`. -/
  vantage : Json
  url : String
  endpoints : List String
  badgeUrl : String
  agentId : String

/-- The callable, with or without a parameter for the vantage. A failure is the text of its
exception. -/
inductive Resolver where
  | plain (resolve : String → String → Except String (List String))
  | perVantage (resolve : String → String → Json → Except String (List String))

structure AnsTxtProfile where
  resolver : Resolver

/-- `tuple(sorted({url, *svcb}))` -/
def endpointsOf (url : String) (svcb : List String) : List String :=
  (url :: svcb).dedup.insertionSort (· ≤ ·)

/-- `agent_id`, the first UUID of the badge's url. -/
def agentIdOf (badgeUrl : String) : Option String :=
  (uuidRe.search badgeUrl.toList).map String.ofList

def profileId : String := "ans-txt"

def method : String := "ans-txt-control"

def notVerified (reason : String) : ProofResult := .notVerified profileId method reason

namespace AnsTxtProfile

variable (self : AnsTxtProfile)

def query (qname rdtype : String) (vantage : Json) : Except String (List String) :=
  match self.resolver with
  | .plain resolve => resolve qname rdtype
  | .perVantage resolve => resolve qname rdtype vantage

/-- The SVCB and HTTPS answers; a failed query has none. -/
def svcb (host : String) (vantage : Json) : List String :=
  ["SVCB", "HTTPS"].flatMap fun rr => (self.query host rr vantage).toOption.getD []

end AnsTxtProfile

section Definitions

variable (python : Interpreter) (H : HashFunction) (self : AnsTxtProfile)

/-- `vantage if vantage else "default"` -/
def vantageLabel (vantage : Json) : Json := if vantage.truthy then vantage else .str "default"

/-- The url of the first record with the version tag. An error is the result that `verify`
returns at once. -/
def readUrl (qname expectedV absent : String) (vantage : Json) : Except ProofResult String :=
  let at_ := " @ " ++ python.str (vantageLabel vantage)
  match self.query qname "TXT" vantage with
  | .error exc => .error (notVerified ("DNS unreachable/absent: " ++ qname ++ at_ ++ ": " ++ exc))
  | .ok txts =>
    match findKv txts expectedV with
    | none => .error (notVerified (absent ++ at_))
    | some kv =>
      if (kv.get "url").getD "" = "" then
        .error (notVerified (qname ++ " record has no url= field" ++ at_))
      else .ok ((kv.get "url").getD "")

def ansName (host : String) : String := "_ans." ++ host

def badgeName (host : String) : String := "_ans-badge." ++ host

/-- One turn of the loop over the vantages. -/
def viewOf (host : String) (vantage : Json) : Except ProofResult View := do
  let url ← readUrl python self (ansName host) "ans1"
    ("DNS records absent: no " ++ ansName host ++ " TXT with v=ans1") vantage
  let badgeUrl ← readUrl python self (badgeName host) "ans-badge1"
    ("missing or malformed " ++ badgeName host ++ " TXT (need v=ans-badge1)") vantage
  match agentIdOf badgeUrl with
  | none =>
    .error (notVerified (badgeName host ++
      " url does not embed a transparency-log agentId UUID @ " ++
      python.str (vantageLabel vantage) ++ ": " ++ badgeUrl))
  | some agentId =>
    .ok ⟨vantageLabel vantage, url, endpointsOf url (self.svcb host vantage), badgeUrl, agentId⟩

/-! ## The verdict -/

/-- The text of the label at place `i`. -/
def labelText (i : ℕ) : Json → Except PyError String
  | .str s => .ok s
  | label => .error (.typeError ("sequence item " ++ toString i ++ ": expected str instance, " ++
      label.typeName ++ " found"))

/-- `",".join(labels)` -/
def joinLabels (labels : List Json) : Except PyError String := do
  let texts ← labels.zipIdx.mapM fun (label, i) => labelText i label
  .ok (String.intercalate "," texts)

/-- What is hashed for the evidence reference: the urls of all views, the other records of the
first one. -/
def recordBlob (host : String) (primary : View) (views : List View) : Except PyError String := do
  let labels ← joinLabels (views.map View.vantage)
  .ok (String.intercalate "|"
    ["host=" ++ host,
      "ans_urls=" ++ String.intercalate ","
        ((views.map View.url).dedup.insertionSort (· ≤ ·)),
      "endpoints=" ++ String.intercalate "," primary.endpoints,
      "badge=" ++ primary.badgeUrl,
      "agentId=" ++ primary.agentId,
      "vantages=" ++ labels])

def evidenceRef (host : String) (primary : View) (views : List View) : Except PyError String := do
  let blob ← recordBlob host primary views
  .ok ("dns:" ++ host ++ ":" ++ sliceStr (hex (H.digest (encodeUtf8 blob))) 12)

/-- The url is the one that the caller expects, if there is one. -/
def expected (expectedUrl : Json) (url : String) : Bool :=
  expectedUrl.isNull || (Json.str url).eq expectedUrl

def accept (host : String) : List View → Except PyError ProofResult
  | [] => .error (.other "IndexError" "list index out of range")
  | primary :: rest => do
    let ref ← evidenceRef H host primary (primary :: rest)
    ProofResult.verified profileId method ref

/-- What is left to do once every vantage has given its view. -/
def judge (host : String) (expectedUrl : Json) (views : List View) :
    Except PyError ProofResult :=
  let mismatched := views.filter fun v => !expected expectedUrl v.url
  if mismatched ≠ [] then
    .ok (.failed profileId method ("advertised _ans url does not match expected " ++
      python.repr expectedUrl ++ ": " ++ String.intercalate ", "
        (mismatched.map fun v => python.str v.vantage ++ "->" ++ v.url)))
  else if 1 < views.length ∧ 1 < (views.map View.endpoints).toFinset.card then
    .ok (.failed profileId method ("split-horizon DNS: vantage endpoints diverge: " ++
      String.intercalate "; " (views.map fun v =>
        python.str v.vantage ++ "=" ++ python.repr (.arr (v.endpoints.map .str)))))
  else accept H host views

def hostOf (evidence : Json) : Option String := validFqdn? ((evidence.get? "host").getD .null)

/-- The vantages to ask: none given means the default one. -/
def vantagesOf (evidence : Json) : Option (List Json) :=
  match (evidence.get? "vantages").getD .null with
  | .null => some [.null]
  | .arr [] => none
  | .arr vantages => some vantages
  | _ => none

def expectedUrlOf (evidence : Json) : Json := (evidence.get? "expected_url").getD .null

/-- `verify`, which does not look at its subject. -/
def verify (evidence : Json) : Except PyError ProofResult :=
  match hostOf evidence with
  | none =>
    .ok (notVerified ("malformed host in evidence (need an FQDN): " ++
      python.repr ((evidence.get? "host").getD .null)))
  | some host =>
    match vantagesOf evidence with
    | none =>
      .ok (notVerified
        "evidence 'vantages' must be a non-empty list of nameserver ip[:port]")
    | some vantages =>
      match vantages.mapM (viewOf python self host) with
      | .error result => .ok result
      | .ok views => judge python H host (expectedUrlOf evidence) views

end Definitions

/-! ## What the verdict depends on -/

/-- The urls are the expected one, and all endpoint sets are the same. -/
structure Passes (expectedUrl : Json) (views : List View) : Prop where
  url : ∀ v ∈ views, expected expectedUrl v.url = true
  endpoints : ∀ v ∈ views, ∀ w ∈ views, v.endpoints = w.endpoints

/-- The outcome of the check, if it passes: only a label can make it raise. -/
def passed (labels : List Json) : Except PyError ProofStatus :=
  (joinLabels labels).map fun _ => .verified

variable {python : Interpreter} {H : HashFunction} {self : AnsTxtProfile} {host url : String}
  {expectedUrl vantage : Json} {view : View} {views : List View}

theorem filter_not_expected_eq_nil :
    views.filter (fun v => !expected expectedUrl v.url) = [] ↔
      ∀ v ∈ views, expected expectedUrl v.url = true := by
  simp [List.filter_eq_nil_iff]

theorem card_endpoints_le_one :
    (views.map View.endpoints).toFinset.card ≤ 1 ↔
      ∀ v ∈ views, ∀ w ∈ views, v.endpoints = w.endpoints := by
  simp [Finset.card_le_one]

/-- The comparison is skipped for one view, where it could not fail. -/
theorem endpoints_differ :
    1 < views.length ∧ 1 < (views.map View.endpoints).toFinset.card ↔
      ¬ ∀ v ∈ views, ∀ w ∈ views, v.endpoints = w.endpoints := by
  rw [← card_endpoints_le_one, not_le, and_iff_right_iff_imp]
  intro hcard
  have hle := (views.map View.endpoints).toFinset_card_le
  rw [List.length_map] at hle
  omega

theorem judge_of_not_passes (python : Interpreter) (H : HashFunction) (host : String)
    (h : ¬ Passes expectedUrl views) :
    ∃ reason, judge python H host expectedUrl views =
      .ok (.failed profileId method reason) := by
  rw [judge]
  by_cases hurl : views.filter (fun v => !expected expectedUrl v.url) ≠ []
  · exact ⟨_, if_pos hurl⟩
  · have hexpected := filter_not_expected_eq_nil.mp (not_not.mp hurl)
    have hdiffer : 1 < views.length ∧ 1 < (views.map View.endpoints).toFinset.card :=
      endpoints_differ.mpr fun hsame => h ⟨hexpected, hsame⟩
    rw [if_neg hurl, if_pos hdiffer]
    exact ⟨_, rfl⟩

theorem judge_of_passes (h : Passes expectedUrl views) :
    judge python H host expectedUrl views = accept H host views := by
  rw [judge, if_neg (not_not.mpr (filter_not_expected_eq_nil.mpr h.url)),
    if_neg fun hdiffer => endpoints_differ.mp hdiffer h.endpoints]

theorem isBlank_dns (s : String) : isBlank ("dns:" ++ s) = false := by
  rw [isBlank, String.toList_append]
  rfl

theorem accept_status (H : HashFunction) (host : String) (hviews : views ≠ []) :
    (accept H host views).map ProofResult.status = passed (views.map View.vantage) := by
  obtain ⟨primary, rest, rfl⟩ := List.exists_cons_of_ne_nil hviews
  rw [accept, evidenceRef, recordBlob, passed]
  cases joinLabels ((primary :: rest).map View.vantage) with
  | error e => rfl
  | ok labels =>
    simp only [bind, Except.bind]
    rw [String.append_assoc, String.append_assoc]
    rw [ProofResult.verified, dif_pos (show Honest .verified (some ("dns:" ++ _)) none by
      simp [Honest, isBlank_dns])]
    rfl

theorem accept_eq_ok {result : ProofResult} (h : accept H host (view :: views) = .ok result) :
    ∃ ref, evidenceRef H host view (view :: views) = .ok ref ∧ result.evidenceRef = some ref := by
  obtain ⟨ref, href, hresult⟩ := bind_eq_ok.mp h
  exact ⟨ref, href, (ProofResult.verified_eq_ok.mp hresult).2.2.2.2.1⟩

/-- A label that can be joined: a string, or nothing where the default stands in. -/
def isText : Json → Bool
  | .str _ => true
  | _ => false

theorem exists_labelText {i : ℕ} {label : Json} :
    (∃ text, labelText i label = .ok text) ↔ isText label = true := by
  cases label <;> simp [labelText, isText]

theorem exists_joinLabels {labels : List Json} :
    (∃ text, joinLabels labels = .ok text) ↔ ∀ label ∈ labels, isText label = true := by
  have hjoin : (∃ text, joinLabels labels = .ok text) ↔
      ∃ texts, labels.zipIdx.mapM (fun label => labelText label.2 label.1) = .ok texts := by
    simp only [joinLabels, bind_eq_ok]
    exact ⟨fun ⟨_, texts, htexts, _⟩ => ⟨texts, htexts⟩,
      fun ⟨texts, htexts⟩ => ⟨_, texts, htexts, rfl⟩⟩
  rw [hjoin, exists_mapM_eq_ok]
  simp only [exists_labelText]
  constructor
  · intro h label hlabel
    obtain ⟨i, hi, rfl⟩ := List.mem_iff_getElem.mp hlabel
    exact h (labels[i], i) (List.mem_zipIdx_iff_getElem?.mpr (List.getElem?_eq_getElem hi))
  · intro h label hlabel
    exact h label.1 (List.mem_of_getElem? (List.mem_zipIdx_iff_getElem?.mp hlabel))

/-- What a check reads: its host and, of every vantage, the view. -/
structure Reads (python : Interpreter) (profile : AnsTxtProfile) (evidence : Json) (host : String)
    (vantages : List Json) (views : List View) : Prop where
  host_eq : hostOf evidence = some host
  vantages_eq : vantagesOf evidence = some vantages
  views_eq : vantages.mapM (viewOf python profile host) = .ok views

variable {evidence : Json} {vantages : List Json}

/-- The view that two urls and an agent id give. -/
theorem viewOf_of_urls {badgeUrl agentId : String}
    (hans : readUrl python self (ansName host) "ans1"
      ("DNS records absent: no " ++ ansName host ++ " TXT with v=ans1") vantage = .ok url)
    (hbadge : readUrl python self (badgeName host) "ans-badge1"
      ("missing or malformed " ++ badgeName host ++ " TXT (need v=ans-badge1)") vantage =
        .ok badgeUrl)
    (hid : agentIdOf badgeUrl = some agentId) :
    viewOf python self host vantage = .ok
      ⟨vantageLabel vantage, url, endpointsOf url (self.svcb host vantage), badgeUrl, agentId⟩ := by
  refine bind_eq_ok.mpr ⟨_, hans, bind_eq_ok.mpr ⟨_, hbadge, ?_⟩⟩
  simp only [hid]

/-- A view carries its vantage, and its agent id is read from its badge. -/
theorem viewOf_eq_ok (h : viewOf python self host vantage = .ok view) :
    view.vantage = vantageLabel vantage ∧ agentIdOf view.badgeUrl = some view.agentId := by
  obtain ⟨url, -, h⟩ := bind_eq_ok.mp h
  obtain ⟨badgeUrl, -, h⟩ := bind_eq_ok.mp h
  cases hid : agentIdOf badgeUrl with
  | none => simp [hid] at h
  | some agentId =>
    simp only [hid, Except.ok.injEq] at h
    rw [← h]
    exact ⟨rfl, hid⟩

theorem vantagesOf_ne_nil (h : vantagesOf evidence = some vantages) : vantages ≠ [] := by
  rw [vantagesOf] at h
  split at h
  · rw [← Option.some.inj h]
    exact List.cons_ne_nil _ _
  · cases h
  · rename_i hne _
    rw [← Option.some.inj h]
    rintro rfl
    exact hne rfl
  · cases h

theorem Reads.ne_nil (h : Reads python self evidence host vantages views) : views ≠ [] := by
  rintro rfl
  exact vantagesOf_ne_nil h.vantages_eq
    (List.forall₂_nil_right_iff.mp (mapM_eq_ok.mp h.views_eq))

theorem Reads.labels (h : Reads python self evidence host vantages views) :
    views.map View.vantage = vantages.map vantageLabel := by
  have hviews := mapM_eq_ok.mp h.views_eq
  clear h
  induction hviews with
  | nil => rfl
  | cons hview _ ih => rw [List.map_cons, List.map_cons, (viewOf_eq_ok hview).1, ih]

theorem Reads.verify_eq (h : Reads python self evidence host vantages views) :
    verify python H self evidence = judge python H host (expectedUrlOf evidence) views := by
  simp only [verify, h.host_eq, h.vantages_eq, h.views_eq]

theorem readUrl_error {qname expectedV absent : String} {result : ProofResult}
    (h : readUrl python self qname expectedV absent vantage = .error result) :
    result.status = .notVerified := by
  rw [readUrl] at h
  split at h
  · rw [← Except.error.inj h]
    rfl
  · split at h
    · rw [← Except.error.inj h]
      rfl
    · split at h
      · rw [← Except.error.inj h]
        rfl
      · cases h

theorem viewOf_error {result : ProofResult} (h : viewOf python self host vantage = .error result) :
    result.status = .notVerified := by
  rcases bind_eq_error.mp h with hurl | ⟨url, -, h⟩
  · exact readUrl_error hurl
  · rcases bind_eq_error.mp h with hbadge | ⟨badgeUrl, -, h⟩
    · exact readUrl_error hbadge
    · split at h
      · rw [← Except.error.inj h]
        rfl
      · cases h

/-- A check that cannot read all views is not run. -/
theorem verify_cases (python : Interpreter) (H : HashFunction) (self : AnsTxtProfile)
    (evidence : Json) :
    (∃ host vantages views, Reads python self evidence host vantages views) ∨
      ∃ result, verify python H self evidence = .ok result ∧ result.status = .notVerified := by
  rw [verify]
  cases hhost : hostOf evidence with
  | none => exact Or.inr ⟨_, rfl, rfl⟩
  | some host =>
    cases hvantages : vantagesOf evidence with
    | none => exact Or.inr ⟨_, rfl, rfl⟩
    | some vantages =>
      cases hviews : vantages.mapM (viewOf python self host) with
      | error result =>
        obtain ⟨vantage, -, herror⟩ := of_mapM_eq_error hviews
        exact Or.inr ⟨result, by simp only [hviews], viewOf_error herror⟩
      | ok views => exact Or.inl ⟨host, vantages, views, hhost, hvantages, hviews⟩

end AnsTxt
