import SmBridge.AnsTxt
import SmBridge.Converter

/-!
# What a verified check of several vantages tells

The vantages are compared by their endpoint sets, which hold the url beside the service
records. Badges are not compared, and the evidence reference pins those of the first vantage.
-/
namespace AnsVantages

open Python
open JsonValue
open Hashing
open Trust
open Attempts
open AnsTxt
open Converter (plainPython)

/-- The two vantages advertise the same records. -/
structure Agree (v w : View) : Prop where
  url : v.url = w.url
  endpoints : v.endpoints = w.endpoints
  badgeUrl : v.badgeUrl = w.badgeUrl
  agentId : v.agentId = w.agentId

/-- A VERIFIED result is about vantages that agree, and its evidence reference is the one that
the records of any of them give. -/
def PinsAll (python : Interpreter) (H : HashFunction) (profile : AnsTxtProfile)
    (evidence : Json) : Prop :=
  ∀ result, verify python H profile evidence = .ok result → result.status = .verified →
    ∃ host vantages views, Reads python profile evidence host vantages views ∧
      (∀ v ∈ views, ∀ w ∈ views, Agree v w) ∧
      ∀ v ∈ views, ∃ ref, evidenceRef H host v views = .ok ref ∧ result.evidenceRef = some ref

/-- Vantages whose records pass the comparisons have one url and one badge. -/
def OneBadge (python : Interpreter) (profile : AnsTxtProfile) (evidence : Json) : Prop :=
  ∀ host vantages views, Reads python profile evidence host vantages views →
    (∀ vantage ∈ vantages, isText (vantageLabel vantage) = true) →
    Passes (expectedUrlOf evidence) views →
    ∀ v ∈ views, ∀ w ∈ views, v.url = w.url ∧ v.badgeUrl = w.badgeUrl

variable {python : Interpreter} {H : HashFunction} {profile : AnsTxtProfile} {evidence : Json}
  {host : String} {vantage : Json} {vantages : List Json} {view v w : View} {views : List View}

theorem Reads.unique {host' : String} {vantages' : List Json} {views' : List View}
    (h : Reads python profile evidence host vantages views)
    (h' : Reads python profile evidence host' vantages' views') :
    host = host' ∧ vantages = vantages' ∧ views = views' := by
  obtain rfl := Option.some.inj (h.host_eq.symm.trans h'.host_eq)
  obtain rfl := Option.some.inj (h.vantages_eq.symm.trans h'.vantages_eq)
  exact ⟨rfl, rfl, Except.ok.inj (h.views_eq.symm.trans h'.views_eq)⟩

/-- The agent id is read from the badge. -/
theorem agree_of_badge (h : Reads python profile evidence host vantages views) (hv : v ∈ views)
    (hw : w ∈ views) (hendpoints : v.endpoints = w.endpoints)
    (heq : v.url = w.url ∧ v.badgeUrl = w.badgeUrl) : Agree v w := by
  obtain ⟨vantage, -, hview⟩ := (mem_of_mapM_eq_ok h.views_eq).mp hv
  obtain ⟨vantage', -, hview'⟩ := (mem_of_mapM_eq_ok h.views_eq).mp hw
  have hid := (viewOf_eq_ok hview).2
  rw [heq.2, (viewOf_eq_ok hview').2] at hid
  exact ⟨heq.1, hendpoints, heq.2, (Option.some.inj hid).symm⟩

/-- Views that agree give one text to hash. -/
theorem evidenceRef_congr (h : Agree v w) :
    evidenceRef H host v views = evidenceRef H host w views := by
  rw [evidenceRef, evidenceRef, recordBlob, recordBlob, h.endpoints, h.badgeUrl, h.agentId]

/-- What a VERIFIED result has passed. -/
theorem of_verified {result : ProofResult} (h : verify python H profile evidence = .ok result)
    (hstatus : result.status = .verified) :
    ∃ host vantages views, Reads python profile evidence host vantages views ∧
      (∀ vantage ∈ vantages, isText (vantageLabel vantage) = true) ∧
      Passes (expectedUrlOf evidence) views ∧ accept H host views = .ok result := by
  rcases verify_cases python H profile evidence with
    ⟨host, vantages, views, hreads⟩ | ⟨result', hresult, hnot⟩
  · rw [hreads.verify_eq] at h
    have hpasses : Passes (expectedUrlOf evidence) views := by
      by_contra hnot
      obtain ⟨reason, hfailed⟩ := judge_of_not_passes python H host hnot
      rw [← Except.ok.inj (hfailed.symm.trans h)] at hstatus
      cases hstatus
    rw [judge_of_passes hpasses] at h
    refine ⟨host, vantages, views, hreads, ?_, hpasses, h⟩
    have hpassed := accept_status H host hreads.ne_nil
    rw [h, hreads.labels, passed] at hpassed
    obtain ⟨text, htext⟩ : ∃ text, joinLabels (vantages.map vantageLabel) = .ok text := by
      cases hjoin : joinLabels (vantages.map vantageLabel) with
      | ok text => exact ⟨text, rfl⟩
      | error e =>
        rw [hjoin] at hpassed
        cases hpassed
    exact fun vantage hvantage =>
      exists_joinLabels.mp ⟨text, htext⟩ _ (List.mem_map_of_mem hvantage)
  · rw [Except.ok.inj (hresult.symm.trans h), hstatus] at hnot
    cases hnot

/-- What passes the comparisons is VERIFIED. -/
theorem exists_verified (H : HashFunction) (h : Reads python profile evidence host vantages views)
    (hlabels : ∀ vantage ∈ vantages, isText (vantageLabel vantage) = true)
    (hpasses : Passes (expectedUrlOf evidence) views) :
    ∃ result, verify python H profile evidence = .ok result ∧ result.status = .verified := by
  have hstatus := accept_status H host h.ne_nil
  rw [h.labels, passed] at hstatus
  obtain ⟨text, htext⟩ := exists_joinLabels.mpr fun label hlabel => by
    obtain ⟨vantage, hvantage, rfl⟩ := List.mem_map.mp hlabel
    exact hlabels vantage hvantage
  rw [htext] at hstatus
  rw [h.verify_eq, judge_of_passes hpasses]
  cases haccept : accept H host views with
  | ok result =>
    rw [haccept] at hstatus
    exact ⟨result, rfl, Except.ok.inj hstatus⟩
  | error e =>
    rw [haccept] at hstatus
    cases hstatus

/-- Whatever the resolver serves, a VERIFIED result pins the records of all vantages exactly if
vantages that pass the comparisons have one url and one badge. -/
theorem pins_all_iff (python : Interpreter) (H : HashFunction) (profile : AnsTxtProfile)
    (evidence : Json) :
    PinsAll python H profile evidence ↔ OneBadge python profile evidence := by
  constructor
  · intro hpins host vantages views hreads hlabels hpasses v hv w hw
    obtain ⟨result, hverify, hverified⟩ := exists_verified H hreads hlabels hpasses
    obtain ⟨host', vantages', views', hreads', hagree, -⟩ := hpins result hverify hverified
    obtain ⟨-, -, rfl⟩ := Reads.unique hreads hreads'
    exact ⟨(hagree v hv w hw).url, (hagree v hv w hw).badgeUrl⟩
  · intro hbadge result hverify hverified
    obtain ⟨host, vantages, views, hreads, hlabels, hpasses, haccept⟩ :=
      of_verified hverify hverified
    have hagree : ∀ v ∈ views, ∀ w ∈ views, Agree v w := fun v hv w hw =>
      agree_of_badge hreads hv hw (hpasses.endpoints v hv w hw)
        (hbadge host vantages views hreads hlabels hpasses v hv w hw)
    refine ⟨host, vantages, views, hreads, hagree, fun v hv => ?_⟩
    obtain ⟨primary, rest, rfl⟩ := List.exists_cons_of_ne_nil hreads.ne_nil
    obtain ⟨ref, href, hresult⟩ := accept_eq_ok haccept
    exact ⟨ref, (evidenceRef_congr (hagree v hv primary List.mem_cons_self)).trans href, hresult⟩

/-! ## The records behind the views -/

/-- The url of the first record with the tag that a vantage is served. -/
def recordUrl (profile : AnsTxtProfile) (qname expectedV : String) (vantage : Json) :
    Option String := do
  let txts ← (profile.query qname "TXT" vantage).toOption
  let kv ← findKv txts expectedV
  kv.get "url"

/-- The two vantages are served records with one url and one badge. -/
def SameRecords (profile : AnsTxtProfile) (host : String) (vantage vantage' : Json) : Prop :=
  recordUrl profile (ansName host) "ans1" vantage =
      recordUrl profile (ansName host) "ans1" vantage' ∧
    recordUrl profile (badgeName host) "ans-badge1" vantage =
      recordUrl profile (badgeName host) "ans-badge1" vantage'

theorem recordUrl_of_readUrl {qname expectedV absent url : String}
    (h : readUrl python profile qname expectedV absent vantage = .ok url) :
    recordUrl profile qname expectedV vantage = some url := by
  rw [readUrl] at h
  rw [recordUrl]
  cases hquery : profile.query qname "TXT" vantage with
  | error exc =>
    rw [hquery] at h
    cases h
  | ok txts =>
    cases hkv : findKv txts expectedV with
    | none =>
      simp only [hquery, hkv] at h
      cases h
    | some kv =>
      simp only [hquery, hkv] at h
      split at h
      · cases h
      · rename_i hurl
        simp only [Except.toOption, Option.bind_eq_bind, Option.bind_some, hkv]
        cases hget : kv.get "url" with
        | none =>
          rw [hget] at hurl
          exact absurd rfl hurl
        | some value =>
          rw [hget] at h
          exact congrArg some (Except.ok.inj h)

theorem view_records (h : viewOf python profile host vantage = .ok view) :
    recordUrl profile (ansName host) "ans1" vantage = some view.url ∧
      recordUrl profile (badgeName host) "ans-badge1" vantage = some view.badgeUrl := by
  obtain ⟨url, hurl, h⟩ := bind_eq_ok.mp h
  obtain ⟨badgeUrl, hbadge, h⟩ := bind_eq_ok.mp h
  cases hid : agentIdOf badgeUrl with
  | none => simp [hid] at h
  | some agentId =>
    simp only [hid, Except.ok.injEq] at h
    rw [← h]
    exact ⟨recordUrl_of_readUrl hurl, recordUrl_of_readUrl hbadge⟩

/-- Whether vantages that pass have one url and one badge is a matter of the records that they
are served. -/
theorem oneBadge_iff_records : OneBadge python profile evidence ↔
    ∀ host vantages views, Reads python profile evidence host vantages views →
      (∀ vantage ∈ vantages, isText (vantageLabel vantage) = true) →
      Passes (expectedUrlOf evidence) views →
      ∀ vantage ∈ vantages, ∀ vantage' ∈ vantages, SameRecords profile host vantage vantage' := by
  refine forall_congr' fun host => forall_congr' fun vantages => forall_congr' fun views =>
    forall_congr' fun hreads => forall_congr' fun _ => forall_congr' fun _ => ?_
  constructor
  · intro hone vantage hvantage vantage' hvantage'
    obtain ⟨v, hview⟩ := exists_mapM_eq_ok.mp ⟨views, hreads.views_eq⟩ vantage hvantage
    obtain ⟨w, hview'⟩ := exists_mapM_eq_ok.mp ⟨views, hreads.views_eq⟩ vantage' hvantage'
    have heq := hone v ((mem_of_mapM_eq_ok hreads.views_eq).mpr ⟨vantage, hvantage, hview⟩)
      w ((mem_of_mapM_eq_ok hreads.views_eq).mpr ⟨vantage', hvantage', hview'⟩)
    rw [SameRecords, (view_records hview).1, (view_records hview).2, (view_records hview').1,
      (view_records hview').2, heq.1, heq.2]
    exact ⟨rfl, rfl⟩
  · intro hsame v hv w hw
    obtain ⟨vantage, hvantage, hview⟩ := (mem_of_mapM_eq_ok hreads.views_eq).mp hv
    obtain ⟨vantage', hvantage', hview'⟩ := (mem_of_mapM_eq_ok hreads.views_eq).mp hw
    have heq := hsame vantage hvantage vantage' hvantage'
    rw [SameRecords, (view_records hview).1, (view_records hview).2, (view_records hview').1,
      (view_records hview').2] at heq
    exact ⟨Option.some.inj heq.1, Option.some.inj heq.2⟩

/-- A resolver that does not look at the vantage serves one badge. -/
theorem oneBadge_plain {resolve : String → String → Except String (List String)}
    (hresolver : profile.resolver = .plain resolve) : OneBadge python profile evidence := by
  have hquery : ∀ qname rdtype vantage, profile.query qname rdtype vantage =
      resolve qname rdtype := by
    intro qname rdtype vantage
    rw [AnsTxtProfile.query, hresolver]
  refine oneBadge_iff_records.mpr fun host _ _ _ _ _ vantage _ vantage' _ => ?_
  simp only [SameRecords, recordUrl, hquery, and_self]

/-! ## Two vantages with two badges -/

def badge : Json → String
  | .str "10.0.0.1" => "https://tl.example/v1/agents/11111111-1111-4111-8111-111111111111"
  | _ => "https://tl.example/v1/agents/22222222-2222-4222-8222-222222222222"

/-- Both vantages serve one url, and each a badge of its own. -/
def twoBadges : AnsTxtProfile where
  resolver := .perVantage fun qname _ vantage => .ok
    (if qname = "_ans.agent.example" then ["v=ans1; url=https://agent.example/mcp"]
    else if qname = "_ans-badge.agent.example" then ["v=ans-badge1; url=" ++ badge vantage]
    else [])

def twoVantages : Json :=
  .obj [("host", .str "agent.example"), ("vantages", .arr [.str "10.0.0.1", .str "10.0.0.2"])]

def viewAt (vantage : Json) (agentId : String) : View where
  vantage := vantage
  url := "https://agent.example/mcp"
  endpoints := endpointsOf "https://agent.example/mcp" []
  badgeUrl := badge vantage
  agentId := agentId

theorem twoBadges_reads : Reads plainPython twoBadges twoVantages "agent.example"
    [.str "10.0.0.1", .str "10.0.0.2"]
    [viewAt (.str "10.0.0.1") "11111111-1111-4111-8111-111111111111",
      viewAt (.str "10.0.0.2") "22222222-2222-4222-8222-222222222222"] where
  host_eq := by decide +kernel
  vantages_eq := rfl
  views_eq := by
    refine mapM_eq_ok.mpr (.cons ?_ (.cons ?_ .nil))
    · refine viewOf_of_urls ?_ ?_ ?_ <;> decide +kernel
    · refine viewOf_of_urls ?_ ?_ ?_ <;> decide +kernel

/-- A check can be VERIFIED although its vantages advertise two agents. -/
theorem two_badges_verified :
    ¬ ∀ python H profile evidence, PinsAll python H profile evidence := by
  intro h
  have hlabels : ∀ vantage ∈ [Json.str "10.0.0.1", Json.str "10.0.0.2"],
      isText (vantageLabel vantage) = true := by simp [vantageLabel, Json.truthy, isText]
  obtain ⟨result, hverify, hverified⟩ := exists_verified sha256 twoBadges_reads hlabels
    ⟨fun _ _ => rfl, by simp [viewAt]⟩
  obtain ⟨host, vantages, views, hreads, hagree, -⟩ :=
    h plainPython sha256 twoBadges twoVantages result hverify hverified
  obtain ⟨-, -, rfl⟩ := Reads.unique twoBadges_reads hreads
  have hbadge :=
    (hagree _ List.mem_cons_self _ (List.mem_cons_of_mem _ List.mem_cons_self)).badgeUrl
  revert hbadge
  decide

end AnsVantages
