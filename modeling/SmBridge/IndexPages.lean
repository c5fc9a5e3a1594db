import SmBridge.Converter
import SmBridge.Lib.Attempts
import SmBridge.Lib.Pages

/-!
# The pages of the index

A page is a slice of the registered agents, of which the public ones are converted. The total
is counted by a scan of its own, which stops after ten thousand agents.
-/
namespace IndexPages

open Python
open JsonValue
open Dictionary
open Text
open Store
open Converter
open Attempts
open Pages

/-- `limit: int = Query(100, ge=1, le=500)` -/
structure Limit where
  value : ℕ
  one_le : 1 ≤ value
  le_max : value ≤ 500

structure SmAgentFactsIndexResponse where
  registryId : String
  agents : List SmAgentFacts
  totalCount : ℕ

section Definitions

variable (python : Interpreter) (casing : Casing)
  (smSkill : List (String × Json) → Except PyError Json) (self : SimpleAgentConverter)

def publicAgents : List SimpleAgent := self.agents.values.filter SimpleAgent.isPublic

/-- The bound of the scan that counts. -/
def scanLimit : ℕ := 10000

/-- `sm_index`. A conversion that raises ends the request. -/
def smIndex (registryId : String) (limit : Limit) (offset : ℕ) :
    Except PyError SmAgentFactsIndexResponse := do
  let agents ← ((self.listAgents limit.value offset).filter SimpleAgent.isPublic).mapM
    (toSm python casing smSkill self)
  let total := ((self.listAgents scanLimit 0).filter SimpleAgent.isPublic).length
  .ok ⟨registryId, agents, total⟩

/-- The answers at the offsets 0, `limit`, and so on. -/
def pages (registryId : String) (limit : Limit) (count : ℕ) :
    Except PyError (List SmAgentFactsIndexResponse) :=
  (List.range count).mapM fun k =>
    smIndex python casing smSkill self registryId limit (k * limit.value)

/-- However many pages are asked for, once they cover the population they hold each public agent
once, in order, and no other, and each page counts all public agents. -/
def Complete (registryId : String) (limit : Limit) : Prop :=
  ∀ count, self.agents.values.length ≤ count * limit.value →
    ∃ answers, pages python casing smSkill self registryId limit count = .ok answers ∧
      (publicAgents self).mapM (toSm python casing smSkill self) =
        .ok (answers.flatMap SmAgentFactsIndexResponse.agents) ∧
      ∀ answer ∈ answers, answer.totalCount = (publicAgents self).length

/-- Every public agent converts, and none stands behind the bound of the scan. -/
structure Countable (converter : SimpleAgentConverter) : Prop where
  converts : ∀ agent ∈ publicAgents converter,
    ∃ facts, toSm python casing smSkill converter agent = .ok facts
  scanned : ∀ agent ∈ converter.agents.values.drop scanLimit, agent.isPublic = false

end Definitions

variable {python : Interpreter} {casing : Casing}
  {smSkill : List (String × Json) → Except PyError Json} {self : SimpleAgentConverter}
  {registryId : String} {limit : Limit} {count offset : ℕ} {answer : SmAgentFactsIndexResponse}
  {answers : List SmAgentFactsIndexResponse}

theorem smIndex_eq_ok :
    smIndex python casing smSkill self registryId limit offset = .ok answer ↔
      ((slice self.agents.values limit.value offset).filter SimpleAgent.isPublic).mapM
          (toSm python casing smSkill self) = .ok answer.agents ∧
        answer.registryId = registryId ∧
        answer.totalCount =
          ((self.agents.values.take scanLimit).filter SimpleAgent.isPublic).length := by
  rw [smIndex, bind_eq_ok]
  constructor
  · intro ⟨agents, hagents, h⟩
    rw [← Except.ok.inj h]
    exact ⟨hagents, rfl, rfl⟩
  · intro ⟨hagents, hid, htotal⟩
    refine ⟨answer.agents, hagents, ?_⟩
    obtain ⟨id, agents, total⟩ := answer
    simp only at hid htotal
    rw [hid, htotal]
    rfl

/-- The public agents of the pages are those of the population. -/
theorem publicAgents_eq (h : self.agents.values.length ≤ count * limit.value) :
    publicAgents self = (List.range count).flatMap fun k =>
      (slice self.agents.values limit.value (k * limit.value)).filter SimpleAgent.isPublic := by
  rw [publicAgents, ← List.filter_flatMap, flatMap_slice_of_le h]

theorem pages_agents (h : pages python casing smSkill self registryId limit count = .ok answers) :
    ((List.range count).flatMap fun k =>
        (slice self.agents.values limit.value (k * limit.value)).filter
          SimpleAgent.isPublic).mapM (toSm python casing smSkill self) =
      .ok (answers.flatMap SmAgentFactsIndexResponse.agents) :=
  mapM_flatMap_eq_ok ((mapM_eq_ok.mp h).imp fun _ _ hanswer => (smIndex_eq_ok.mp hanswer).1)

theorem pages_totals (h : pages python casing smSkill self registryId limit count = .ok answers)
    (hanswer : answer ∈ answers) :
    answer.totalCount =
      ((self.agents.values.take scanLimit).filter SimpleAgent.isPublic).length := by
  obtain ⟨k, -, hindex⟩ := (mem_of_mapM_eq_ok h).mp hanswer
  exact (smIndex_eq_ok.mp hindex).2.2

theorem exists_pages
    (h : ∀ agent ∈ publicAgents self, ∃ facts, toSm python casing smSkill self agent = .ok facts)
    (registryId : String) (limit : Limit) (count : ℕ) :
    ∃ answers, pages python casing smSkill self registryId limit count = .ok answers := by
  refine exists_mapM_eq_ok.mpr fun k _ => ?_
  obtain ⟨agents, hagents⟩ := exists_mapM_eq_ok.mpr fun agent
      (hagent : agent ∈ (slice self.agents.values limit.value (k * limit.value)).filter
        SimpleAgent.isPublic) => by
    obtain ⟨hslice, hpublic⟩ := List.mem_filter.mp hagent
    have hmem : agent ∈ self.agents.values := List.mem_of_mem_drop (List.mem_of_mem_take hslice)
    exact h agent (List.mem_filter.mpr ⟨hmem, hpublic⟩)
  exact ⟨⟨registryId, agents, _⟩, smIndex_eq_ok.mpr ⟨hagents, rfl, rfl⟩⟩

/-- A page that counts all public agents leaves none behind the bound of the scan. -/
theorem scanned_of_complete (h : Complete python casing smSkill self registryId limit) :
    ∀ agent ∈ self.agents.values.drop scanLimit, agent.isPublic = false := by
  have hcover : self.agents.values.length ≤ (self.agents.values.length + 1) * limit.value :=
    (Nat.le_succ _).trans (Nat.le_mul_of_pos_right _ limit.one_le)
  obtain ⟨answers, hpages, -, htotals⟩ := h _ hcover
  have hlength := (mapM_eq_ok.mp hpages).length_eq
  rw [List.length_range] at hlength
  obtain ⟨answer, hanswer⟩ := List.exists_mem_of_length_pos (l := answers) (by omega)
  exact length_filter_take.mp ((pages_totals hpages hanswer).symm.trans (htotals answer hanswer))

/-- The index is complete for one page size, and so for each, exactly if all public agents convert
and stand within the bound of the scan that counts. -/
theorem complete_iff (python : Interpreter) (casing : Casing)
    (smSkill : List (String × Json) → Except PyError Json) (self : SimpleAgentConverter)
    (registryId : String) (limit : Limit) :
    Complete python casing smSkill self registryId limit ↔
      Countable python casing smSkill self := by
  constructor
  · intro h
    have hcover : self.agents.values.length ≤ self.agents.values.length * limit.value :=
      Nat.le_mul_of_pos_right _ limit.one_le
    obtain ⟨answers, -, hagents, -⟩ := h _ hcover
    exact ⟨exists_mapM_eq_ok.mp ⟨_, hagents⟩, scanned_of_complete h⟩
  · intro h count hcover
    obtain ⟨answers, hpages⟩ := exists_pages h.converts registryId limit count
    refine ⟨answers, hpages, ?_, fun answer hanswer => ?_⟩
    · rw [publicAgents_eq hcover]
      exact pages_agents hpages
    · rw [pages_totals hpages hanswer, length_filter_take.mpr h.scanned]
      rfl

/-! ## One agent more than the scan counts -/

def numbered (n : ℕ) : SimpleAgent where
  id := String.ofList (List.replicate n 'a')
  name := "Agent"
  description := ""

theorem numbered_nodup (n : ℕ) :
    (((List.range n).map fun i => ((numbered i).id, numbered i)).map Prod.fst).Nodup := by
  rw [List.map_map]
  refine List.nodup_range.map fun i j h => ?_
  have hchars : List.replicate i 'a' = List.replicate j 'a' := String.ofList_injective h
  simpa using congrArg List.length hchars

/-- A converter with this many agents, all public. -/
def crowded (n : ℕ) : SimpleAgentConverter where
  registryId := "acme"
  providerName := "Acme"
  providerUrl := "https://acme.example"
  baseUrl := "https://acme.example"
  didMethod := "web"
  agents := ⟨(List.range n).map fun i => ((numbered i).id, numbered i), numbered_nodup n⟩

/-- One agent beyond the bound makes every total wrong. -/
theorem crowded_not_complete :
    ¬ Complete plainPython asciiCasing describedSkill (crowded (scanLimit + 1)) "acme"
      ⟨100, by decide, by decide⟩ := by
  intro h
  have hvalues : (crowded (scanLimit + 1)).agents.values =
      (List.range (scanLimit + 1)).map numbered := by
    rw [Dict.values, crowded, List.map_map]
    rfl
  have hlast : numbered scanLimit ∈ (crowded (scanLimit + 1)).agents.values.drop scanLimit := by
    rw [hvalues, List.range_succ, List.map_append, List.drop_append_of_le_length (by simp)]
    simp
  have hprivate := scanned_of_complete h _ hlast
  cases hprivate

end IndexPages
