import SmBridge.AnsTxt
import SmBridge.Converter
import SmBridge.Lib.Choices

/-!
# The order of DNS answers

The records of a name come in any order, and the check reads the first one that carries the
version tag. Which record that is decides the verdict, unless all choices come to the same.
-/
namespace AnswerOrder

open Python
open JsonValue
open Dictionary
open Hashing
open Trust
open Attempts
open Choices
open AnsTxt
open Converter (plainPython)

/-- The same answers, or a failure. -/
inductive Reordered : Except String (List String) → Except String (List String) → Prop
  | answers {txts txts' : List String} (h : txts.Perm txts') : Reordered (.ok txts) (.ok txts')
  | failure (exc exc' : String) : Reordered (.error exc) (.error exc')

/-- The two resolvers answer every query with the same strings, in any order. -/
def SameAnswers (profile profile' : AnsTxtProfile) : Prop :=
  ∀ qname rdtype vantage,
    Reordered (profile.query qname rdtype vantage) (profile'.query qname rdtype vantage)

def statusOf (python : Interpreter) (H : HashFunction) (profile : AnsTxtProfile)
    (evidence : Json) : Except PyError ProofStatus :=
  (verify python H profile evidence).map ProofResult.status

/-! ## What may be read at a vantage -/

section Definitions

variable (profile : AnsTxtProfile)

/-- The records of a name that carry the tag. -/
def taggedRecords (qname expectedV : String) (vantage : Json) : List (Dict String String) :=
  (((profile.query qname "TXT" vantage).toOption.getD []).map parseKv).filter (tagged expectedV)

/-- A pair of records that the check may read. -/
def Candidate (host : String) (vantage : Json) (ans badge : Dict String String) : Prop :=
  ans ∈ taggedRecords profile (ansName host) "ans1" vantage ∧
    badge ∈ taggedRecords profile (badgeName host) "ans-badge1" vantage

def urlOf (kv : Dict String String) : Option String :=
  if (kv.get "url").getD "" = "" then none else some ((kv.get "url").getD "")

/-- The view that two records give, if they have what is needed. -/
def viewWith (host : String) (vantage : Json) (ans badge : Dict String String) : Option View :=
  (urlOf ans).bind fun url => (urlOf badge).bind fun badgeUrl =>
    (agentIdOf badgeUrl).map fun agentId =>
      ⟨vantageLabel vantage, url, endpointsOf url (profile.svcb host vantage), badgeUrl, agentId⟩

/-- A view, or none, that the check reads for some order of the answers. -/
def Readable (host : String) (vantage : Json) (view : Option View) : Prop :=
  (∃ ans badge, Candidate profile host vantage ans badge ∧
    viewWith profile host vantage ans badge = view) ∨
  (∀ ans badge, ¬ Candidate profile host vantage ans badge) ∧ view = none

end Definitions

variable {python : Interpreter} {H : HashFunction} {profile profile' : AnsTxtProfile}
  {evidence : Json} {host qname expectedV absent : String} {vantage : Json}
  {vantages : List Json} {ans badge : Dict String String} {view : View} {views : List View}

theorem exists_readable (profile : AnsTxtProfile) (host : String) (vantage : Json) :
    ∃ view, Readable profile host vantage view := by
  by_cases h : ∃ ans badge, Candidate profile host vantage ans badge
  · obtain ⟨ans, badge, hcandidate⟩ := h
    exact ⟨_, Or.inl ⟨ans, badge, hcandidate, rfl⟩⟩
  · exact ⟨none, Or.inr ⟨fun ans badge hcandidate => h ⟨ans, badge, hcandidate⟩, rfl⟩⟩

/-- The views among which a check chooses, and what it asks of them. -/
def survey (profile : AnsTxtProfile) (evidence : Json) (host : String) (vantages : List Json)
    (hvantages : vantages ≠ []) : Survey Json View (List String) where
  sites := vantages
  sites_ne_nil := hvantages
  possible := Readable profile host
  inhabited := exists_readable profile host
  good view := expected (expectedUrlOf evidence) view.url = true
  key := View.endpoints

/-- The check is not run, or all choices of records come to the same. -/
def OrderFree (profile : AnsTxtProfile) (evidence : Json) : Prop :=
  ∀ host vantages, hostOf evidence = some host → vantagesOf evidence = some vantages →
    ∀ hvantages : vantages ≠ [], (survey profile evidence host vantages hvantages).Settled

/-! ## The first records -/

theorem readUrl_toOption :
    (readUrl python profile qname expectedV absent vantage).toOption =
      (taggedRecords profile qname expectedV vantage).head?.bind urlOf := by
  rw [readUrl, taggedRecords, List.head?_filter]
  cases profile.query qname "TXT" vantage with
  | error exc => rfl
  | ok txts =>
    dsimp only
    change _ = (findKv txts expectedV).bind urlOf
    cases findKv txts expectedV with
    | none => rfl
    | some kv =>
      simp only [Option.bind_some, urlOf]
      split <;> rfl

/-- The check reads the first records that carry the tags. -/
theorem viewOf_toOption :
    (viewOf python profile host vantage).toOption =
      (taggedRecords profile (ansName host) "ans1" vantage).head?.bind fun ans =>
        (taggedRecords profile (badgeName host) "ans-badge1" vantage).head?.bind
          (viewWith profile host vantage ans) := by
  rw [viewOf, toOption_bind, readUrl_toOption]
  simp only [toOption_bind, readUrl_toOption]
  cases (taggedRecords profile (ansName host) "ans1" vantage).head? with
  | none => rfl
  | some ans =>
    cases (taggedRecords profile (badgeName host) "ans-badge1" vantage).head? with
    | none =>
      cases hurl : urlOf ans <;> simp [hurl]
    | some badge =>
      simp only [Option.bind_some, viewWith]
      cases urlOf ans with
      | none => rfl
      | some url =>
        cases urlOf badge with
        | none => rfl
        | some badgeUrl =>
          simp only [Option.bind_some]
          cases agentIdOf badgeUrl <;> rfl

/-- What a check reads is among the views that are possible. -/
theorem readable_viewOf (python : Interpreter) (profile : AnsTxtProfile) (host : String)
    (vantage : Json) :
    Readable profile host vantage (viewOf python profile host vantage).toOption := by
  rw [viewOf_toOption]
  cases hans : (taggedRecords profile (ansName host) "ans1" vantage).head? with
  | none =>
    refine Or.inr ⟨fun ans badge hcandidate => ?_, rfl⟩
    rw [Candidate, List.head?_eq_none_iff.mp hans] at hcandidate
    exact absurd hcandidate.1 List.not_mem_nil
  | some ans =>
    cases hbadge : (taggedRecords profile (badgeName host) "ans-badge1" vantage).head? with
    | none =>
      refine Or.inr ⟨fun ans badge hcandidate => ?_, rfl⟩
      rw [Candidate, List.head?_eq_none_iff.mp hbadge] at hcandidate
      exact absurd hcandidate.2 List.not_mem_nil
    | some badge =>
      exact Or.inl ⟨ans, badge, ⟨List.mem_of_mem_head? hans, List.mem_of_mem_head? hbadge⟩, rfl⟩

/-! ## Other orders -/

theorem Reordered.perm {a b : Except String (List String)} (h : Reordered a b) :
    (a.toOption.getD []).Perm (b.toOption.getD []) := by
  cases h with
  | answers h => exact h
  | failure => exact .refl []

theorem endpointsOf_perm {url : String} {svcb svcb' : List String} (h : svcb.Perm svcb') :
    endpointsOf url svcb = endpointsOf url svcb' := by
  have hsorted : ∀ urls : List String,
      (urls.insertionSort fun a b => a ≤ b).Pairwise fun a b => a ≤ b :=
    List.pairwise_insertionSort _
  refine List.Perm.eq_of_pairwise (fun _ _ _ _ => String.le_antisymm) (hsorted _) (hsorted _) ?_
  exact (List.perm_insertionSort _ _).trans
    ((h.cons url).dedup.trans (List.perm_insertionSort _ _).symm)

theorem svcb_perm (h : SameAnswers profile profile') (host : String) (vantage : Json) :
    (profile.svcb host vantage).Perm (profile'.svcb host vantage) := by
  simp only [AnsTxtProfile.svcb, List.flatMap_cons, List.flatMap_nil]
  exact (h host "SVCB" vantage).perm.append ((h host "HTTPS" vantage).perm.append_right [])

theorem viewWith_same (h : SameAnswers profile profile') (host : String) (vantage : Json) :
    viewWith profile' host vantage = viewWith profile host vantage := by
  funext ans badge
  simp only [viewWith, endpointsOf_perm (svcb_perm h host vantage)]

theorem taggedRecords_perm (h : SameAnswers profile profile') (qname expectedV : String)
    (vantage : Json) : (taggedRecords profile qname expectedV vantage).Perm
      (taggedRecords profile' qname expectedV vantage) :=
  ((h qname "TXT" vantage).perm.map parseKv).filter _

theorem candidate_same (h : SameAnswers profile profile') :
    Candidate profile' host vantage ans badge ↔ Candidate profile host vantage ans badge := by
  rw [Candidate, Candidate, (taggedRecords_perm h _ _ _).mem_iff,
    (taggedRecords_perm h _ _ _).mem_iff]

/-- The possible views do not depend on the order. -/
theorem readable_same (h : SameAnswers profile profile') {view : Option View} :
    Readable profile' host vantage view ↔ Readable profile host vantage view := by
  simp only [Readable, candidate_same h, viewWith_same h]

/-! ## An order for each choice -/

/-- The answers that satisfy `p` come first. -/
def promote (p : String → Bool) (txts : List String) : List String :=
  txts.filter p ++ txts.filter (!p ·)

def parsesTo (kv : Dict String String) (txt : String) : Bool := (parseKv txt).entries == kv.entries

/-- The resolver that serves the chosen records first. -/
def reorder (profile : AnsTxtProfile) (host : String)
    (choice : Json → Dict String String × Dict String String) : AnsTxtProfile where
  resolver := .perVantage fun qname rdtype vantage =>
    (profile.query qname rdtype vantage).map fun txts =>
      if rdtype = "TXT" ∧ qname = ansName host then promote (parsesTo (choice vantage).1) txts
      else if rdtype = "TXT" ∧ qname = badgeName host then
        promote (parsesTo (choice vantage).2) txts
      else txts

theorem promote_perm (p : String → Bool) (txts : List String) : (promote p txts).Perm txts :=
  List.filter_append_perm p txts

theorem parsesTo_iff {kv : Dict String String} {txt : String} :
    parsesTo kv txt = true ↔ parseKv txt = kv := by
  rw [parsesTo, beq_iff_eq, Dict.ext_iff]

theorem head?_promote {kv : Dict String String} {txts : List String}
    (h : kv ∈ (txts.map parseKv).filter (tagged expectedV)) :
    (((promote (parsesTo kv) txts).map parseKv).filter (tagged expectedV)).head? = some kv := by
  obtain ⟨hmem, htag⟩ := List.mem_filter.mp h
  obtain ⟨txt, htxt, hparse⟩ := List.mem_map.mp hmem
  have hfirst : txt ∈ txts.filter (parsesTo kv) :=
    List.mem_filter.mpr ⟨htxt, parsesTo_iff.mpr hparse⟩
  obtain ⟨first, rest, hrest⟩ := List.exists_cons_of_ne_nil (List.ne_nil_of_mem hfirst)
  have hkv : parseKv first = kv := by
    have hfilter : first ∈ txts.filter (parsesTo kv) := hrest ▸ List.mem_cons_self
    exact parsesTo_iff.mp (List.mem_filter.mp hfilter).2
  rw [promote, hrest, List.cons_append, List.map_cons, hkv, List.filter_cons_of_pos htag,
    List.head?_cons]

theorem reorder_same (profile : AnsTxtProfile) (host : String)
    (choice : Json → Dict String String × Dict String String) :
    SameAnswers profile (reorder profile host choice) := by
  intro qname rdtype vantage
  change Reordered _ ((profile.query qname rdtype vantage).map _)
  cases profile.query qname rdtype vantage with
  | error exc => exact .failure exc exc
  | ok txts =>
    refine .answers ?_
    split
    · exact (promote_perm _ txts).symm
    · split
      · exact (promote_perm _ txts).symm
      · exact .refl txts

theorem badgeName_ne_ansName (host : String) : badgeName host ≠ ansName host := by
  intro h
  have hlist := congrArg String.toList h
  rw [badgeName, ansName, String.toList_append, String.toList_append] at hlist
  have hfifth := congrArg (fun cs : List Char => cs[4]?) hlist
  simp at hfifth

variable {choice : Json → Dict String String × Dict String String}

theorem mem_taggedRecords {kv : Dict String String} :
    kv ∈ taggedRecords profile qname expectedV vantage ↔
      ∃ txts, profile.query qname "TXT" vantage = .ok txts ∧
        kv ∈ (txts.map parseKv).filter (tagged expectedV) := by
  rw [taggedRecords]
  cases profile.query qname "TXT" vantage with
  | error exc => simp [Except.toOption]
  | ok txts => simp [Except.toOption]

theorem reorder_ans (h : (choice vantage).1 ∈ taggedRecords profile (ansName host) "ans1" vantage) :
    (taggedRecords (reorder profile host choice) (ansName host) "ans1" vantage).head? =
      some (choice vantage).1 := by
  obtain ⟨txts, hquery, hmem⟩ := mem_taggedRecords.mp h
  have hfirst : (reorder profile host choice).query (ansName host) "TXT" vantage =
      .ok (promote (parsesTo (choice vantage).1) txts) := by
    change (profile.query (ansName host) "TXT" vantage).map _ = _
    rw [hquery, Except.map, if_pos ⟨rfl, rfl⟩]
  rw [taggedRecords, hfirst]
  exact head?_promote hmem

theorem reorder_badge
    (h : (choice vantage).2 ∈ taggedRecords profile (badgeName host) "ans-badge1" vantage) :
    (taggedRecords (reorder profile host choice) (badgeName host) "ans-badge1" vantage).head? =
      some (choice vantage).2 := by
  obtain ⟨txts, hquery, hmem⟩ := mem_taggedRecords.mp h
  have hfirst : (reorder profile host choice).query (badgeName host) "TXT" vantage =
      .ok (promote (parsesTo (choice vantage).2) txts) := by
    change (profile.query (badgeName host) "TXT" vantage).map _ = _
    rw [hquery, Except.map, if_neg fun hname => badgeName_ne_ansName host hname.2,
      if_pos ⟨rfl, rfl⟩]
  rw [taggedRecords, hfirst]
  exact head?_promote hmem

/-- Every choice among the possible views is what the check reads in some order. -/
theorem exists_reorder (python : Interpreter) {g : Json → Option View}
    (hg : ∀ vantage, Readable profile host vantage (g vantage)) :
    ∃ profile', SameAnswers profile profile' ∧
      ∀ vantage, (viewOf python profile' host vantage).toOption = g vantage := by
  have hchoice : ∀ vantage, ∃ records : Dict String String × Dict String String,
      Candidate profile host vantage records.1 records.2 ∧
        viewWith profile host vantage records.1 records.2 = g vantage ∨
      (∀ ans badge, ¬ Candidate profile host vantage ans badge) ∧ g vantage = none := by
    intro vantage
    rcases hg vantage with ⟨ans, badge, hview⟩ | hnone
    · exact ⟨(ans, badge), Or.inl hview⟩
    · exact ⟨(Dict.empty, Dict.empty), Or.inr hnone⟩
  choose choice hchoice using hchoice
  have hsame := reorder_same profile host choice
  refine ⟨reorder profile host choice, hsame, fun vantage => ?_⟩
  rcases hchoice vantage with ⟨hcandidate, hview⟩ | ⟨hnone, hview⟩
  · rw [viewOf_toOption, reorder_ans hcandidate.1, reorder_badge hcandidate.2, Option.bind_some,
      Option.bind_some, viewWith_same hsame, hview]
  · rcases (readable_same hsame).mp (readable_viewOf python _ host vantage) with
      ⟨ans, badge, hcandidate, -⟩ | ⟨-, hread⟩
    · exact absurd hcandidate (hnone ans badge)
    · rw [hread, hview]

/-! ## The status of a choice -/

/-- The views that a check reads, one for each vantage. -/
def readBy (python : Interpreter) (profile : AnsTxtProfile) (host : String) (vantage : Json) :
    Option View :=
  (viewOf python profile host vantage).toOption

theorem readBy_eq_some :
    readBy python profile host vantage = some view ↔
      viewOf python profile host vantage = .ok view :=
  toOption_eq_some

variable {hvantages : vantages ≠ []}

theorem complete_iff_reads (hhost : hostOf evidence = some host)
    (hgiven : vantagesOf evidence = some vantages) :
    (survey profile evidence host vantages hvantages).Complete (readBy python profile' host) ↔
      ∃ views, Reads python profile' evidence host vantages views := by
  have hreads : (∃ views, Reads python profile' evidence host vantages views) ↔
      ∃ views, vantages.mapM (viewOf python profile' host) = .ok views :=
    exists_congr fun views => ⟨Reads.views_eq, fun h => ⟨hhost, hgiven, h⟩⟩
  rw [hreads, exists_mapM_eq_ok]
  refine forall₂_congr fun vantage _ => ?_
  rw [Option.ne_none_iff_exists']
  exact exists_congr fun view => readBy_eq_some

theorem accepted_iff (h : Reads python profile' evidence host vantages views) :
    (survey profile evidence host vantages hvantages).Accepted (readBy python profile' host) ↔
      Passes (expectedUrlOf evidence) views := by
  have hviews := fun view => mem_of_mapM_eq_ok (b := view) h.views_eq
  constructor
  · intro haccepted
    refine ⟨fun v hv => ?_, fun v hv w hw => ?_⟩
    · obtain ⟨vantage, hvantage, hview⟩ := (hviews v).mp hv
      obtain ⟨view, hread, hgood⟩ := haccepted.good vantage hvantage
      rw [readBy_eq_some.mpr hview] at hread
      rw [Option.some.inj hread]
      exact hgood
    · obtain ⟨vantage, hvantage, hview⟩ := (hviews v).mp hv
      obtain ⟨vantage', hvantage', hview'⟩ := (hviews w).mp hw
      exact haccepted.key vantage hvantage vantage' hvantage' v w (readBy_eq_some.mpr hview)
        (readBy_eq_some.mpr hview')
  · intro hpasses
    refine ⟨fun vantage hvantage => ?_, fun vantage hvantage vantage' hvantage' v w hv hw => ?_⟩
    · obtain ⟨view, hview⟩ := exists_mapM_eq_ok.mp ⟨views, h.views_eq⟩ vantage hvantage
      exact ⟨view, readBy_eq_some.mpr hview,
        hpasses.url view ((hviews view).mpr ⟨vantage, hvantage, hview⟩)⟩
    · exact hpasses.endpoints v ((hviews v).mpr ⟨vantage, hvantage, readBy_eq_some.mp hv⟩) w
        ((hviews w).mpr ⟨vantage', hvantage', readBy_eq_some.mp hw⟩)

theorem statusOf_of_not_complete (hhost : hostOf evidence = some host)
    (hgiven : vantagesOf evidence = some vantages)
    (h : ¬ (survey profile evidence host vantages hvantages).Complete
      (readBy python profile' host)) :
    statusOf python H profile' evidence = .ok .notVerified := by
  rcases verify_cases python H profile' evidence with
    ⟨host', vantages', views, hreads⟩ | ⟨result, hresult, hstatus⟩
  · obtain rfl := Option.some.inj (hhost.symm.trans hreads.host_eq)
    obtain rfl := Option.some.inj (hgiven.symm.trans hreads.vantages_eq)
    exact absurd ((complete_iff_reads hhost hgiven).mpr ⟨views, hreads⟩) h
  · rw [statusOf, hresult]
    exact congrArg Except.ok hstatus

theorem statusOf_of_accepted (hhost : hostOf evidence = some host)
    (hgiven : vantagesOf evidence = some vantages)
    (h : (survey profile evidence host vantages hvantages).Accepted
      (readBy python profile' host)) :
    statusOf python H profile' evidence = passed (vantages.map vantageLabel) := by
  obtain ⟨views, hreads⟩ := (complete_iff_reads hhost hgiven).mp h.complete
  rw [statusOf, hreads.verify_eq, judge_of_passes ((accepted_iff hreads).mp h),
    accept_status H host hreads.ne_nil, hreads.labels]

theorem statusOf_of_rejected (hhost : hostOf evidence = some host)
    (hgiven : vantagesOf evidence = some vantages)
    (hcomplete : (survey profile evidence host vantages hvantages).Complete
      (readBy python profile' host))
    (h : ¬ (survey profile evidence host vantages hvantages).Accepted
      (readBy python profile' host)) :
    statusOf python H profile' evidence = .ok .failed := by
  obtain ⟨views, hreads⟩ := (complete_iff_reads hhost hgiven).mp hcomplete
  obtain ⟨reason, hfailed⟩ := judge_of_not_passes python H host (mt (accepted_iff hreads).mpr h)
  rw [statusOf, hreads.verify_eq, hfailed]
  rfl

theorem passed_ne {labels : List Json} {status : ProofStatus} (h : status ≠ .verified) :
    passed labels ≠ .ok status := by
  rw [passed]
  cases joinLabels labels with
  | ok text => exact fun heq => h (Except.ok.inj heq).symm
  | error e => exact fun heq => by cases heq

theorem statusOf_eq_notVerified (hhost : hostOf evidence = some host)
    (hgiven : vantagesOf evidence = some vantages) :
    statusOf python H profile' evidence = .ok .notVerified ↔
      ¬ (survey profile evidence host vantages hvantages).Complete
        (readBy python profile' host) := by
  refine ⟨fun h hcomplete => ?_, statusOf_of_not_complete hhost hgiven⟩
  by_cases haccepted : (survey profile evidence host vantages hvantages).Accepted
      (readBy python profile' host)
  · rw [statusOf_of_accepted hhost hgiven haccepted] at h
    exact passed_ne (by decide) h
  · rw [statusOf_of_rejected hhost hgiven hcomplete haccepted] at h
    cases h

theorem statusOf_eq_failed (hhost : hostOf evidence = some host)
    (hgiven : vantagesOf evidence = some vantages) :
    statusOf python H profile' evidence = .ok .failed ↔
      (survey profile evidence host vantages hvantages).Complete (readBy python profile' host) ∧
        ¬ (survey profile evidence host vantages hvantages).Accepted
          (readBy python profile' host) := by
  refine ⟨fun h => ?_, fun h => statusOf_of_rejected hhost hgiven h.1 h.2⟩
  constructor
  · by_contra hcomplete
    rw [statusOf_of_not_complete hhost hgiven hcomplete] at h
    cases h
  · intro haccepted
    rw [statusOf_of_accepted hhost hgiven haccepted] at h
    exact passed_ne (by decide) h

/-- Two checks of the same evidence have one status exactly if they are judged alike. -/
theorem statusOf_eq_iff {profile₁ profile₂ : AnsTxtProfile} (hhost : hostOf evidence = some host)
    (hgiven : vantagesOf evidence = some vantages) :
    statusOf python H profile₁ evidence = statusOf python H profile₂ evidence ↔
      ((survey profile evidence host vantages hvantages).Complete (readBy python profile₁ host) ↔
        (survey profile evidence host vantages hvantages).Complete
          (readBy python profile₂ host)) ∧
      ((survey profile evidence host vantages hvantages).Accepted (readBy python profile₁ host) ↔
        (survey profile evidence host vantages hvantages).Accepted
          (readBy python profile₂ host)) := by
  set s := survey profile evidence host vantages hvantages
  constructor
  · intro h
    have hcomplete : s.Complete (readBy python profile₁ host) ↔
        s.Complete (readBy python profile₂ host) := by
      rw [← not_iff_not, ← statusOf_eq_notVerified (H := H) hhost hgiven, h,
        statusOf_eq_notVerified hhost hgiven]
    have hrejected : s.Complete (readBy python profile₁ host) ∧
          ¬ s.Accepted (readBy python profile₁ host) ↔
        s.Complete (readBy python profile₂ host) ∧
          ¬ s.Accepted (readBy python profile₂ host) := by
      rw [← statusOf_eq_failed (H := H) hhost hgiven, h, statusOf_eq_failed hhost hgiven]
    refine ⟨hcomplete, fun haccepted => ?_, fun haccepted => ?_⟩
    · by_contra hnot
      exact (hrejected.mpr ⟨hcomplete.mp haccepted.complete, hnot⟩).2 haccepted
    · by_contra hnot
      exact (hrejected.mp ⟨hcomplete.mpr haccepted.complete, hnot⟩).2 haccepted
  · intro ⟨hcomplete, haccepted⟩
    by_cases h : s.Complete (readBy python profile₁ host)
    · by_cases h' : s.Accepted (readBy python profile₁ host)
      · rw [statusOf_of_accepted hhost hgiven h',
          statusOf_of_accepted hhost hgiven (haccepted.mp h')]
      · rw [statusOf_of_rejected hhost hgiven h h',
          statusOf_of_rejected hhost hgiven (hcomplete.mp h) (mt haccepted.mpr h')]
    · rw [statusOf_of_not_complete hhost hgiven h,
        statusOf_of_not_complete hhost hgiven (mt hcomplete.mpr h)]

/-- The order of the answers never changes the status of a check exactly if the evidence is
order-free for the resolver. -/
theorem order_free_iff (python : Interpreter) (H : HashFunction) (profile : AnsTxtProfile)
    (evidence : Json) :
    (∀ profile', SameAnswers profile profile' →
        statusOf python H profile' evidence = statusOf python H profile evidence) ↔
      OrderFree profile evidence := by
  constructor
  · intro h host vantages hhost hgiven hvantages
    refine Survey.settled_iff.mp fun g g' hg hg' => ?_
    obtain ⟨profile₁, hsame₁, hread₁⟩ := exists_reorder python hg
    obtain ⟨profile₂, hsame₂, hread₂⟩ := exists_reorder python hg'
    have hstatus := (h profile₁ hsame₁).trans (h profile₂ hsame₂).symm
    rw [← funext hread₁, ← funext hread₂]
    exact (statusOf_eq_iff hhost hgiven).mp hstatus
  · intro hfree profile' hsame
    cases hhost : hostOf evidence with
    | none => simp only [statusOf, verify, hhost]
    | some host =>
      cases hgiven : vantagesOf evidence with
      | none => simp only [statusOf, verify, hhost, hgiven]
      | some vantages =>
        have hsettled := hfree host vantages hhost hgiven (vantagesOf_ne_nil hgiven)
        refine (statusOf_eq_iff hhost hgiven).mpr (Survey.settled_iff.mpr hsettled _ _ ?_ ?_)
        · exact fun vantage =>
            (readable_same hsame).mp (readable_viewOf python profile' host vantage)
        · exact readable_viewOf python profile host

/-! ## Two vantages with the same records -/

/-- The records of the `_ans` name, in one order at both vantages or in two. -/
def answers (swapped : Bool) : Json → List String
  | .str "10.0.0.2" =>
    if swapped then ["v=ans1; url=https://b.example", "v=ans1; url=https://a.example"]
    else ["v=ans1; url=https://a.example", "v=ans1; url=https://b.example"]
  | _ => ["v=ans1; url=https://a.example", "v=ans1; url=https://b.example"]

def twoRecords (swapped : Bool) : AnsTxtProfile where
  resolver := .perVantage fun qname rdtype vantage => .ok
    (if qname = "_ans.agent.example" then answers swapped vantage
    else if rdtype = "TXT" then
      ["v=ans-badge1; url=https://tl.example/11111111-1111-4111-8111-111111111111"]
    else [])

def twoVantages : Json :=
  .obj [("host", .str "agent.example"), ("vantages", .arr [.str "10.0.0.1", .str "10.0.0.2"])]

def viewAt (vantage : Json) (url : String) : View where
  vantage := vantage
  url := url
  endpoints := endpointsOf url []
  badgeUrl := "https://tl.example/11111111-1111-4111-8111-111111111111"
  agentId := "11111111-1111-4111-8111-111111111111"

theorem twoRecords_reads (swapped : Bool) : Reads plainPython (twoRecords swapped) twoVantages
    "agent.example" [.str "10.0.0.1", .str "10.0.0.2"]
    [viewAt (.str "10.0.0.1") "https://a.example",
      viewAt (.str "10.0.0.2") (if swapped then "https://b.example" else "https://a.example")] where
  host_eq := by decide +kernel
  vantages_eq := rfl
  views_eq := by
    refine mapM_eq_ok.mpr (.cons ?_ (.cons ?_ .nil))
    · cases swapped <;> (refine viewOf_of_urls ?_ ?_ ?_ <;> decide +kernel)
    · cases swapped <;> (refine viewOf_of_urls ?_ ?_ ?_ <;> decide +kernel)

theorem twoRecords_same : SameAnswers (twoRecords false) (twoRecords true) := by
  intro qname rdtype vantage
  refine .answers ?_
  split
  · rw [answers.eq_def, answers.eq_def]
    split
    · exact List.Perm.swap _ _ _
    · exact .refl _
  · exact .refl _

/-- Two vantages that serve the same two records are found to disagree if one serves them in the
other order. -/
theorem swapped_records_fail : ¬ ∀ python H profile profile' evidence,
    SameAnswers profile profile' →
      statusOf python H profile' evidence = statusOf python H profile evidence := by
  intro h
  have hstatus := h plainPython sha256 _ _ twoVantages twoRecords_same
  have hsame : Passes (expectedUrlOf twoVantages)
      [viewAt (.str "10.0.0.1") "https://a.example",
        viewAt (.str "10.0.0.2") "https://a.example"] := ⟨fun _ _ => rfl, by simp [viewAt]⟩
  have hdiffer : ¬ Passes (expectedUrlOf twoVantages)
      [viewAt (.str "10.0.0.1") "https://a.example",
        viewAt (.str "10.0.0.2") "https://b.example"] := by
    intro hpasses
    have hendpoints := hpasses.endpoints _ List.mem_cons_self _
      (List.mem_cons_of_mem _ List.mem_cons_self)
    revert hendpoints
    decide +kernel
  obtain ⟨reason, hfailed⟩ := judge_of_not_passes plainPython sha256 "agent.example" hdiffer
  rw [statusOf, statusOf, (twoRecords_reads true).verify_eq, (twoRecords_reads false).verify_eq,
    if_pos rfl, if_neg Bool.false_ne_true, hfailed, judge_of_passes hsame,
    accept_status _ _ (List.cons_ne_nil _ _)] at hstatus
  cases hstatus

end AnswerOrder
