import SmBridge.FederationNetwork

/-!
# Polling while the log grows

`sm_deltas` reads the rows of the store and then its counter, and each read takes the lock on
its own, so that rows may be recorded between the two. A client polls either with the last row
it was sent, as `pull_deltas` does, or with `next_seq`, as the docstring of `sm_deltas` says.
-/
namespace PolledDeltas

open Store
open Gateway
open StoreRuns

/-- What a client sends as `since` after an answer. -/
inductive CursorRule where
  | lastRow
  | nextSeq
  deriving DecidableEq, Repr

/-- The two parts of the answer that a client reads. -/
structure DeltasResponse where
  deltas : List SmAgentFactsDelta
  nextSeq : ℤ

def CursorRule.next (rule : CursorRule) (since : ℤ) (response : DeltasResponse) : ℤ :=
  match rule with
  | .lastRow => OrderedLog.advance SmAgentFactsDelta.seq since response.deltas
  | .nextSeq => response.nextSeq

/-- Rows that were read, and the number of the last row in the store at that moment, which
nothing reads. -/
structure Reading where
  deltas : List SmAgentFactsDelta
  last : ℤ

structure System where
  store : DeltaStore
  since : ℤ
  received : List SmAgentFactsDelta
  /-- The call of `sm_deltas` between its two reads. -/
  reading : Option Reading
  /-- For each answer, the last row at the first read and the cursor behind it; no operation
  reads them. -/
  answers : List (ℤ × ℤ)

def initial : System := ⟨DeltaStore.empty, 0, [], none, []⟩

def System.add (s : System) (action : Action) (agent : SmAgentFacts) : System :=
  { s with store := s.store.add action agent }

def System.readRows (s : System) : System :=
  { s with reading := some ⟨s.store.since s.since, s.store.seq⟩ }

/-- The counter is read, and the answer reaches the client. -/
def System.answer (rule : CursorRule) (s : System) (reading : Reading) : System :=
  let response : DeltasResponse := ⟨reading.deltas, s.store.nextSeq⟩
  { s with
    since := rule.next s.since response
    received := s.received ++ response.deltas
    reading := none
    answers := s.answers ++ [(reading.last, rule.next s.since response)] }

inductive Reachable (rule : CursorRule) : System → Prop
  | init : Reachable rule initial
  | add {s : System} (action : Action) (agent : SmAgentFacts) :
      Reachable rule s → Reachable rule (s.add action agent)
  | readRows {s : System} (hidle : s.reading = none) :
      Reachable rule s → Reachable rule s.readRows
  | answer {s : System} {reading : Reading} (h : s.reading = some reading) :
      Reachable rule s → Reachable rule (s.answer rule reading)
  | lost {s : System} : Reachable rule s → Reachable rule { s with reading := none }

/-- The row lies behind the rows of some answer and not beyond its cursor. -/
def Skipped (answers : List (ℤ × ℤ)) (k : ℤ) : Prop := ∃ a ∈ answers, a.1 < k ∧ k ≤ a.2

instance (answers : List (ℤ × ℤ)) (k : ℤ) : Decidable (Skipped answers k) :=
  inferInstanceAs (Decidable (∃ a ∈ answers, a.1 < k ∧ k ≤ a.2))

/-- The rows a client with this cursor and these answers has been sent. -/
def sent (answers : List (ℤ × ℤ)) (since : ℤ) (log : List SmAgentFactsDelta) :
    List SmAgentFactsDelta :=
  log.filter fun d => d.seq ≤ since ∧ ¬ Skipped answers d.seq

structure Invariant (rule : CursorRule) (s : System) : Prop where
  logged : ∃ adds, s.store = storeOf adds
  cursor : 0 ≤ s.since
  answers : ∀ a ∈ s.answers, a.1 ≤ a.2 ∧ a.2 ≤ s.since
  ahead : ∀ k, s.store.seq < k → k ≤ s.since → Skipped s.answers k
  received : s.received = sent s.answers s.since s.store.deltas
  reading : ∀ reading, s.reading = some reading → reading.last ≤ s.store.seq ∧
    (∀ k, reading.last < k → k ≤ s.since → Skipped s.answers k) ∧
    reading.deltas = s.store.deltas.filter fun d => s.since < d.seq ∧ d.seq ≤ reading.last
  lastRow : rule = .lastRow → s.since ≤ s.store.seq ∧ (∀ a ∈ s.answers, a.1 = a.2) ∧
    ∀ reading, s.reading = some reading →
      OrderedLog.advance SmAgentFactsDelta.seq s.since reading.deltas = reading.last
  nextSeq : rule = .nextSeq → s.since ≤ s.store.nextSeq ∧ ∀ a ∈ s.answers, a.1 < a.2

theorem seq_le_of_mem (adds : List (Action × SmAgentFacts)) {d : SmAgentFactsDelta}
    (hd : d ∈ (storeOf adds).deltas) : d.seq ≤ (storeOf adds).seq :=
  ((storeOf_invariant adds).bounded d hd).2

/-- A selection of rows does not see a new row that it does not want. -/
theorem filter_add {p : SmAgentFactsDelta → Prop} [DecidablePred p] (store : DeltaStore)
    (action : Action) (agent : SmAgentFacts) (h : ¬ p ⟨store.seq + 1, action, agent⟩) :
    (store.add action agent).deltas.filter p = store.deltas.filter p := by
  rw [DeltaStore.add_deltas, List.filter_append, List.filter_singleton, decide_eq_false h,
    cond_false, List.append_nil]

/-! ## What each step keeps -/

theorem initial_invariant (rule : CursorRule) : Invariant rule initial where
  logged := ⟨[], rfl⟩
  cursor := le_rfl
  answers a ha := by cases ha
  ahead k hlt hle := absurd hle (not_le.mpr hlt)
  received := rfl
  reading reading h := by cases h
  lastRow _ := ⟨le_rfl, fun a ha => (by cases ha), fun reading h => (by cases h)⟩
  nextSeq _ := ⟨by decide, fun a ha => (by cases ha)⟩

theorem add_preserves_invariant {rule : CursorRule} {s : System} (h : Invariant rule s)
    (action : Action) (agent : SmAgentFacts) : Invariant rule (s.add action agent) where
  logged := by
    obtain ⟨adds, hadds⟩ := h.logged
    exact ⟨adds ++ [(action, agent)], by rw [storeOf_concat, System.add, hadds]⟩
  cursor := h.cursor
  answers := h.answers
  ahead k hlt hle := h.ahead k (lt_trans (by simp [System.add]) hlt) hle
  received := by
    -- the new row has the next number, and is skipped where the cursor is already past it
    have hskipped : ¬ (s.store.seq + 1 ≤ s.since ∧ ¬ Skipped s.answers (s.store.seq + 1)) :=
      fun hsent => hsent.2 (h.ahead _ (lt_add_one _) hsent.1)
    rw [sent, System.add, filter_add s.store action agent hskipped]
    exact h.received
  reading reading hreading := by
    obtain ⟨hlast, hahead, hrows⟩ := h.reading reading hreading
    refine ⟨?_, hahead, ?_⟩
    · simp only [System.add, DeltaStore.add_seq]
      omega
    · have hlater : ¬ (s.since < s.store.seq + 1 ∧ s.store.seq + 1 ≤ reading.last) := by omega
      rw [System.add, filter_add s.store action agent hlater]
      exact hrows
  lastRow hrule := by
    obtain ⟨hle, hrest⟩ := h.lastRow hrule
    exact ⟨hle.trans (by simp [System.add]), hrest⟩
  nextSeq hrule := by
    obtain ⟨hle, hrest⟩ := h.nextSeq hrule
    exact ⟨hle.trans (by simp [System.add, DeltaStore.nextSeq]), hrest⟩

theorem readRows_preserves_invariant {rule : CursorRule} {s : System} (h : Invariant rule s) :
    Invariant rule s.readRows where
  logged := h.logged
  cursor := h.cursor
  answers := h.answers
  ahead := h.ahead
  received := h.received
  reading reading hreading := by
    obtain ⟨adds, hadds⟩ := h.logged
    rw [System.readRows, Option.some.injEq] at hreading
    subst hreading
    refine ⟨le_rfl, h.ahead, ?_⟩
    rw [System.readRows, DeltaStore.since, hadds]
    refine List.filter_congr fun d hd => ?_
    have hle := seq_le_of_mem adds hd
    rw [decide_eq_decide]
    tauto
  lastRow hrule := by
    obtain ⟨adds, hadds⟩ := h.logged
    obtain ⟨hle, hexact, -⟩ := h.lastRow hrule
    refine ⟨hle, hexact, fun reading hreading => ?_⟩
    rw [System.readRows, Option.some.injEq] at hreading
    subst hreading
    simp only [System.readRows]
    rw [hadds] at hle ⊢
    rw [(FederationNetwork.advance_since h.cursor hle List.prefix_rfl).1, since_eq_drop,
      List.length_drop, storeOf_length]
    rw [storeOf_seq] at hle ⊢
    have := h.cursor
    omega
  nextSeq := h.nextSeq

/-- The rows of an answer follow what was sent before, and nothing else lies between the old
cursor and the new one but what is skipped. -/
theorem sent_answer {s : System} {reading : Reading} {rule : CursorRule} (h : Invariant rule s)
    (hreading : s.reading = some reading) {next : ℤ} (hnext : s.since ≤ next)
    (hlast : reading.last ≤ next) :
    sent (s.answers ++ [(reading.last, next)]) next s.store.deltas =
      sent s.answers s.since s.store.deltas ++ reading.deltas := by
  obtain ⟨adds, hadds⟩ := h.logged
  obtain ⟨-, hahead, hrows⟩ := h.reading reading hreading
  have hcut : OrderedLog.upTo SmAgentFactsDelta.seq s.since s.store.deltas ++
      OrderedLog.beyond SmAgentFactsDelta.seq s.since s.store.deltas = s.store.deltas :=
    OrderedLog.upTo_append_beyond (hadds ▸ (storeOf_invariant adds).increasing)
  have hskip : ∀ k, Skipped (s.answers ++ [(reading.last, next)]) k ↔
      Skipped s.answers k ∨ (reading.last < k ∧ k ≤ next) := by
    intro k
    simp [Skipped, or_and_right, exists_or]
  have hpassed : ∀ k, Skipped s.answers k → k ≤ s.since := by
    rintro k ⟨a, ha, -, hle⟩
    exact hle.trans (h.answers a ha).2
  rw [hrows, sent, ← hcut, List.filter_append, hcut]
  congr 1
  · rw [OrderedLog.upTo, List.filter_filter, sent]
    refine List.filter_congr fun d _ => ?_
    rw [← Bool.decide_and, decide_eq_decide, hskip]
    constructor
    · rintro ⟨⟨-, hno⟩, hle⟩
      exact ⟨hle, fun hs => hno (Or.inl hs)⟩
    · rintro ⟨hle, hno⟩
      refine ⟨⟨hle.trans hnext, ?_⟩, hle⟩
      rintro (hs | ⟨hlt, -⟩)
      · exact hno hs
      · exact hno (hahead _ hlt hle)
  · rw [OrderedLog.beyond, List.filter_filter]
    refine List.filter_congr fun d _ => ?_
    rw [← Bool.decide_and, decide_eq_decide, hskip]
    constructor
    · rintro ⟨⟨hle, hno⟩, hlt⟩
      refine ⟨hlt, ?_⟩
      by_contra hbeyond
      exact hno (Or.inr ⟨not_le.mp hbeyond, hle⟩)
    · rintro ⟨hlt, hle⟩
      refine ⟨⟨hle.trans hlast, ?_⟩, hlt⟩
      rintro (hs | ⟨hgt, -⟩)
      · exact absurd (hpassed _ hs) (not_le.mpr hlt)
      · exact absurd hle (not_le.mpr hgt)

theorem next_bounds {s : System} {reading : Reading} {rule : CursorRule} (h : Invariant rule s)
    (hreading : s.reading = some reading) :
    s.since ≤ rule.next s.since ⟨reading.deltas, s.store.nextSeq⟩ ∧
      reading.last ≤ rule.next s.since ⟨reading.deltas, s.store.nextSeq⟩ := by
  obtain ⟨hlast, -, hrows⟩ := h.reading reading hreading
  cases rule with
  | lastRow =>
    obtain ⟨adds, hadds⟩ := h.logged
    obtain ⟨-, -, hadvance⟩ := h.lastRow rfl
    have hinc : OrderedLog.Increasing SmAgentFactsDelta.seq reading.deltas := by
      rw [hrows, hadds]
      exact (storeOf_invariant adds).increasing.filter _
    refine ⟨(OrderedLog.le_advance hinc fun d hd => ?_).1, (hadvance reading hreading).ge⟩
    rw [hrows] at hd
    exact (of_decide_eq_true (List.mem_filter.mp hd).2).1
  | nextSeq =>
    refine ⟨(h.nextSeq rfl).1, ?_⟩
    simp only [CursorRule.next, DeltaStore.nextSeq]
    omega

theorem answer_preserves_invariant {rule : CursorRule} {s : System} {reading : Reading}
    (h : Invariant rule s) (hreading : s.reading = some reading) :
    Invariant rule (s.answer rule reading) := by
  obtain ⟨hnext, hlast⟩ := next_bounds h hreading
  refine ⟨h.logged, h.cursor.trans hnext, ?_, ?_, ?_, ?_, ?_, ?_⟩
  · intro a ha
    rcases List.mem_append.mp ha with ha | ha
    · exact ⟨(h.answers a ha).1, (h.answers a ha).2.trans hnext⟩
    · rw [List.mem_singleton.mp ha]
      exact ⟨hlast, le_rfl⟩
  · intro k hlt hle
    exact ⟨_, List.mem_append_right _ (List.mem_singleton_self _),
      lt_of_le_of_lt (h.reading reading hreading).1 hlt, hle⟩
  · rw [System.answer, h.received, ← sent_answer h hreading hnext hlast]
  · intro reading' hreading'
    cases hreading'
  · intro hrule
    obtain ⟨hle, hexact, hadvance⟩ := h.lastRow hrule
    subst hrule
    refine ⟨(hadvance reading hreading).trans_le (h.reading reading hreading).1, ?_, ?_⟩
    · intro a ha
      rcases List.mem_append.mp ha with ha | ha
      · exact hexact a ha
      · rw [List.mem_singleton.mp ha]
        exact (hadvance reading hreading).symm
    · intro reading' hreading'
      cases hreading'
  · intro hrule
    obtain ⟨hle, hgap⟩ := h.nextSeq hrule
    subst hrule
    refine ⟨le_rfl, ?_⟩
    intro a ha
    rcases List.mem_append.mp ha with ha | ha
    · exact hgap a ha
    · rw [List.mem_singleton.mp ha]
      exact lt_of_le_of_lt (h.reading reading hreading).1 (lt_add_one _)

theorem lost_preserves_invariant {rule : CursorRule} {s : System} (h : Invariant rule s) :
    Invariant rule { s with reading := none } where
  logged := h.logged
  cursor := h.cursor
  answers := h.answers
  ahead := h.ahead
  received := h.received
  reading reading hreading := by cases hreading
  lastRow hrule :=
    ⟨(h.lastRow hrule).1, (h.lastRow hrule).2.1, fun reading hreading => by cases hreading⟩
  nextSeq := h.nextSeq

theorem reachable_invariant {rule : CursorRule} {s : System} (h : Reachable rule s) :
    Invariant rule s := by
  induction h with
  | init => exact initial_invariant rule
  | add action agent _ ih => exact add_preserves_invariant ih action agent
  | readRows _ _ ih => exact readRows_preserves_invariant ih
  | answer hreading _ ih => exact answer_preserves_invariant ih hreading
  | lost _ ih => exact lost_preserves_invariant ih

/-! ## The two rules -/

/-- However writes fall between the two reads of an answer, a client has been sent the rows up
to its cursor but for those behind the rows of some answer and not beyond that answer's
cursor. With the last row as cursor there are none of these: everything arrives once and in
order. With `next_seq` every answer, also an empty one, skips the row that comes next. -/
theorem polled_exact (rule : CursorRule) (s : System) (h : Reachable rule s) :
    s.received = sent s.answers s.since s.store.deltas ∧
    (rule = .lastRow → s.since ≤ s.store.seq ∧
      s.received = s.store.deltas.filter fun d => d.seq ≤ s.since) ∧
    (rule = .nextSeq → ∀ a ∈ s.answers, ∀ d ∈ s.received, d.seq ≠ a.1 + 1) := by
  have hinv := reachable_invariant h
  refine ⟨hinv.received, fun hrule => ?_, fun hrule a ha d hd heq => ?_⟩
  · obtain ⟨hle, hexact, -⟩ := hinv.lastRow hrule
    refine ⟨hle, ?_⟩
    rw [hinv.received, sent]
    refine List.filter_congr fun d _ => ?_
    rw [decide_eq_decide]
    refine and_iff_left ?_
    rintro ⟨a, ha, hlt, hgt⟩
    have := hexact a ha
    omega
  · have hgap := (hinv.nextSeq hrule).2 a ha
    rw [hinv.received, sent, List.mem_filter, decide_eq_true_eq] at hd
    exact hd.2.2 ⟨a, ha, by omega, by omega⟩

/-- A client that polls with `next_seq` has been sent the first row and skips the second. -/
def polledOnce : System :=
  (((initial.add .upsert FederationNetwork.named).readRows).answer .nextSeq
    ⟨[⟨1, .upsert, FederationNetwork.named⟩], 1⟩).add .delete FederationNetwork.named

theorem polledOnce_reachable : Reachable .nextSeq polledOnce :=
  .add _ _ (.answer rfl (.readRows rfl (.add _ _ .init)))

theorem polled_exact_once :
    polledOnce.since = 2 ∧ ∀ a ∈ polledOnce.answers, ∀ d ∈ polledOnce.received, d.seq ≠ a.1 + 1 :=
  ⟨rfl, (polled_exact .nextSeq polledOnce polledOnce_reachable).2.2 rfl⟩

end PolledDeltas
