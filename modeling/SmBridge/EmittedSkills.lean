import SmBridge.Converter
import SmBridge.Lib.Attempts
import Mathlib.Data.List.ReduceOption

/-!
# Emitted skills

Dictionaries and texts of the source come out as detailed skills, in their order. What pydantic
makes of the arguments of one skill is a law here: it checks the types, reads a text as an
integer where one is declared, and takes all else over as it is.
-/
namespace EmittedSkills

open Python
open Attempts
open JsonValue
open Json
open Text
open Store
open Converter

/-! ## The law of `SmSkill` -/

def textFields : List String := ["id", "description"]
def listFields : List String := ["inputModes", "outputModes", "supportedLanguages"]
def countFields : List String := ["latencyBudgetMs", "maxTokens"]

def isText : Json → Bool
  | .str _ => true
  | _ => false

def isTexts : Json → Bool
  | .arr xs => xs.all isText
  | _ => false

section Law

variable (intOfText : String → Option ℤ)

/-- An integer field: a text is read, and a number is taken over. -/
def countOf : Json → Json
  | .str s => (intOfText s).elim .null .int
  | value => value.number?.elim .null fun q => .int q.num

/-- The fields of `SmSkill(**arguments)`, with the defaults of those that are not given. -/
def emittedFields (arguments : List (String × Json)) : List (String × Json) :=
  let argument (field : String) (default : Json) := (arguments.lookup field).getD default
  [("id", argument "id" .null), ("description", argument "description" .null),
    ("inputModes", argument "inputModes" (strings ["text"])),
    ("outputModes", argument "outputModes" (strings ["text"])),
    ("version", argument "version" .null), ("parameters", argument "parameters" .null),
    ("supportedLanguages", argument "supportedLanguages" .null),
    ("latencyBudgetMs", countOf intOfText (argument "latencyBudgetMs" .null)),
    ("maxTokens", countOf intOfText (argument "maxTokens" .null))]

/-- The types that pydantic asks for. -/
structure WellTyped (arguments : List (String × Json)) : Prop where
  texts : ∀ field ∈ textFields, (arguments.lookup field).any isText = true
  lists : ∀ field ∈ listFields, (arguments.lookup field).all (fun x => x.isNull || isTexts x) = true
  counts : ∀ field ∈ countFields,
    (arguments.lookup field).all (fun x => x.number?.all fun q => q.den == 1) = true

instance (arguments : List (String × Json)) : Decidable (WellTyped arguments) :=
  decidable_of_iff (_ ∧ _ ∧ _)
    ⟨fun h => ⟨h.1, h.2.1, h.2.2⟩, fun h => ⟨h.texts, h.lists, h.counts⟩⟩

/-- What the converter relies on pydantic for. -/
structure BuildsSkill (smSkill : List (String × Json) → Except PyError Json) : Prop where
  wellTyped : ∀ arguments skill, smSkill arguments = .ok skill → WellTyped arguments
  emits : ∀ arguments skill, smSkill arguments = .ok skill →
    skill = .obj (emittedFields intOfText arguments)

/-- A model that keeps to the law and accepts all that is well-typed. -/
def checkedSkill (arguments : List (String × Json)) : Except PyError Json :=
  if WellTyped arguments then .ok (.obj (emittedFields intOfText arguments))
  else .error (.valueError "validation error for SmSkill")

theorem checkedSkill_builds : BuildsSkill intOfText (checkedSkill intOfText) where
  wellTyped arguments skill h := by
    rw [checkedSkill] at h
    split at h
    · assumption
    · cases h
  emits arguments skill h := by
    rw [checkedSkill] at h
    split at h
    · exact (Except.ok.inj h).symm
    · cases h

end Law

theorem eq_self_of_isText {x : Json} (h : isText x = true) : x.eq x = true := by
  cases x with
  | str s => exact eq_str.mpr rfl
  | _ => cases h

theorem eq_self_of_isTexts {x : Json} (h : isTexts x = true) : x.eq x = true := by
  cases x with
  | arr xs =>
    have hall : ∀ xs : List Json, xs.all isText = true → eqElements xs xs = true := by
      intro xs
      induction xs with
      | nil => exact fun _ => rfl
      | cons x xs ih =>
        intro h
        obtain ⟨hx, hxs⟩ := Bool.and_eq_true_iff.mp h
        rw [eqElements, eq_self_of_isText hx, ih hxs]
        rfl
    rw [eq]
    exact hall xs h
  | _ => cases h

theorem WellTyped.eq_self {arguments : List (String × Json)} (h : WellTyped arguments)
    {field : String} (hfield : field ∈ textFields ++ listFields) {x : Json}
    (hx : arguments.lookup field = some x) : x.eq x = true := by
  rcases List.mem_append.mp hfield with htext | hlist
  · have hany := h.texts field htext
    rw [hx, Option.any_some] at hany
    exact eq_self_of_isText hany
  · have hall := h.lists field hlist
    rw [hx, Option.all_some, Bool.or_eq_true_iff] at hall
    rcases hall with hnull | htexts
    · cases x with
      | null => rfl
      | _ => cases hnull
    · exact eq_self_of_isTexts htexts

theorem emittedFields_nodup {intOfText : String → Option ℤ} {arguments : List (String × Json)} :
    ((emittedFields intOfText arguments).map Prod.fst).Nodup := by
  simp [emittedFields]

/-- An integral number is the same number as an integer field. -/
theorem countOf_eq {intOfText : String → Option ℤ} {x : Json} {q : Rat}
    (hnumber : x.number? = some q) (hq : q.den = 1) : (countOf intOfText x).eq x = true := by
  have hint : ((q.num : ℤ) : Rat) = q := Rat.coe_int_num_of_den_eq_one hq
  have hcount : countOf intOfText x = .int q.num := by
    cases x <;> simp_all [countOf, number?]
  rw [hcount]
  cases x <;> simp_all [eq, eqNumber, number?]

/-! ## The skills of a record -/

/-- What becomes of an entry: the arguments of its skill, for a dictionary or a text. -/
def skillArguments (python : Interpreter) : Json → Option (List (String × Json))
  | .obj fields => some
      [("id", .str (skillId python fields)),
        ("description", (fields.lookup "description").getD (.str "")),
        ("inputModes", (fields.lookup "inputModes").getD (strings ["text"])),
        ("outputModes", (fields.lookup "outputModes").getD (strings ["text"])),
        ("supportedLanguages", (fields.lookup "supportedLanguages").getD .null),
        ("latencyBudgetMs", (fields.lookup "latencyBudgetMs").getD .null),
        ("maxTokens", (fields.lookup "maxTokens").getD .null)]
  | .str s => some [("id", .str s), ("description", .str s)]
  | _ => none

def carried : Json → Bool
  | .obj _ => true
  | .str _ => true
  | _ => false

def emittedSkills (facts : SmAgentFacts) : List Json :=
  match facts.record.lookup "skills" with
  | some (.arr skills) => skills
  | _ => []

/-- The emitted skill of an entry of the source, which stands behind those of the entries before
it. -/
def emittedFor (agent : SimpleAgent) (facts : SmAgentFacts) (idx : ℕ) : Option Json :=
  if (agent.skills[idx]?).any carried then
    (emittedSkills facts)[(agent.skills.take idx).countP carried]?
  else none

variable {python : Interpreter} {casing : Casing}
  {smSkill : List (String × Json) → Except PyError Json} {self : SimpleAgentConverter}
  {agent : SimpleAgent} {facts : SmAgentFacts} {entry : Json} {idx : ℕ}

theorem skillOf_eq (smSkill : List (String × Json) → Except PyError Json) (entry : Json) :
    skillOf python smSkill entry =
      ((skillArguments python entry).elim (.ok none) fun arguments =>
        (smSkill arguments).map some) := by
  cases entry with
  | obj fields =>
    simp only [skillOf, skillArguments, Option.elim_some]
    cases smSkill _ <;> rfl
  | str s =>
    simp only [skillOf, skillArguments, Option.elim_some]
    cases smSkill _ <;> rfl
  | _ => rfl

theorem carried_eq (python : Interpreter) (entry : Json) :
    carried entry = (skillArguments python entry).isSome := by
  cases entry <;> rfl

theorem skillOf_eq_none (h : skillOf python smSkill entry = .ok none) : carried entry = false := by
  rw [skillOf_eq] at h
  rw [carried_eq python]
  cases harguments : skillArguments python entry with
  | none => rfl
  | some arguments =>
    rw [harguments, Option.elim_some] at h
    cases hbuilt : smSkill arguments <;> simp [hbuilt, Except.map] at h

theorem skillOf_eq_some {skill : Json} (h : skillOf python smSkill entry = .ok (some skill)) :
    carried entry = true ∧
      ∃ arguments, skillArguments python entry = some arguments ∧ smSkill arguments = .ok skill := by
  rw [skillOf_eq] at h
  rw [carried_eq python]
  cases harguments : skillArguments python entry with
  | none =>
    rw [harguments] at h
    cases h
  | some arguments =>
    rw [harguments, Option.elim_some] at h
    cases hbuilt : smSkill arguments with
    | error e => simp [hbuilt, Except.map] at h
    | ok built =>
      simp only [hbuilt, Except.map, Except.ok.injEq, Option.some.injEq] at h
      exact ⟨rfl, arguments, rfl, h ▸ hbuilt⟩

/-- The skills stand in the order of the entries that have one. -/
theorem position_of_skills {entries : List Json} {found : List (Option Json)}
    (h : List.Forall₂ (fun entry skill => skillOf python smSkill entry = .ok skill) entries found) :
    found.reduceOption.length = entries.countP carried ∧
      ∀ idx entry, entries[idx]? = some entry → carried entry = true →
        ∃ arguments skill, skillArguments python entry = some arguments ∧
          smSkill arguments = .ok skill ∧
          found.reduceOption[(entries.take idx).countP carried]? = some skill := by
  induction h with
  | nil => exact ⟨rfl, fun idx entry hentry => by simp at hentry⟩
  | @cons first skill entries found hfirst _ ih =>
    obtain ⟨hlength, hposition⟩ := ih
    cases skill with
    | none =>
      have hnot := skillOf_eq_none hfirst
      rw [List.reduceOption_cons_of_none, List.countP_cons_of_neg (by simp [hnot])]
      refine ⟨hlength, fun idx entry hentry hcarried => ?_⟩
      cases idx with
      | zero =>
        obtain rfl := Option.some.inj hentry
        rw [hnot] at hcarried
        cases hcarried
      | succ idx =>
        rw [List.take_succ_cons, List.countP_cons_of_neg (by simp [hnot])]
        exact hposition idx entry hentry hcarried
    | some skill =>
      obtain ⟨hyes, arguments, harguments, hbuilt⟩ := skillOf_eq_some hfirst
      rw [List.reduceOption_cons_of_some, List.countP_cons_of_pos hyes, List.length_cons, hlength]
      refine ⟨rfl, fun idx entry hentry hcarried => ?_⟩
      cases idx with
      | zero =>
        obtain rfl := Option.some.inj hentry
        exact ⟨arguments, skill, harguments, hbuilt, rfl⟩
      | succ idx =>
        rw [List.take_succ_cons, List.countP_cons_of_pos hyes, List.getElem?_cons_succ]
        exact hposition idx entry hentry hcarried

theorem declared_length {declared : List Json}
    (h : declaredSkills python smSkill agent = .ok declared) :
    declared.length = agent.skills.countP carried := by
  obtain ⟨found, hfound, hok⟩ := bind_eq_ok.mp h
  rw [← Except.ok.inj hok]
  exact (position_of_skills (mapM_eq_ok.mp hfound)).1

theorem declared_eq_nil {declared : List Json}
    (h : declaredSkills python smSkill agent = .ok declared) :
    declared = [] ↔ ∀ entry ∈ agent.skills, carried entry = false := by
  rw [← List.length_eq_zero_iff, declared_length h, List.countP_eq_zero]
  exact forall₂_congr fun entry _ => (Bool.not_eq_true _).symm ▸ Iff.rfl

theorem skillsOf_cons (first : Json) (rest : List Json) :
    skillsOf smSkill self (first :: rest) = .ok (first :: rest) := rfl

theorem emittedSkills_eq {declared skills : List Json}
    (h : facts.record = recordOf python casing self agent declared skills) :
    emittedSkills facts = skills := by
  simp [emittedSkills, h, recordOf, List.lookup_cons]

section Conversion

variable (h : toSm python casing smSkill self agent = .ok facts)
include h

theorem toSm_record : ∃ declared skills, declaredSkills python smSkill agent = .ok declared ∧
    skillsOf smSkill self declared = .ok skills ∧
    facts.record = recordOf python casing self agent declared skills := by
  obtain ⟨declared, hdeclared, h⟩ := bind_eq_ok.mp h
  obtain ⟨skills, hskills, h⟩ := bind_eq_ok.mp h
  exact ⟨declared, skills, hdeclared, hskills, by rw [← Except.ok.inj h]⟩

/-- An entry has a skill in the record exactly if it is a dictionary or a text. -/
theorem emittedFor_of_carried (hentry : agent.skills[idx]? = some entry)
    (hcarried : carried entry = true) :
    ∃ arguments skill, skillArguments python entry = some arguments ∧
      smSkill arguments = .ok skill ∧ emittedFor agent facts idx = some skill := by
  obtain ⟨declared, skills, hdeclared, hskills, hrecord⟩ := toSm_record h
  obtain ⟨found, hfound, hok⟩ := bind_eq_ok.mp hdeclared
  obtain rfl := Except.ok.inj hok
  obtain ⟨arguments, skill, harguments, hbuilt, hget⟩ :=
    (position_of_skills (mapM_eq_ok.mp hfound)).2 idx entry hentry hcarried
  have hskills' : skills = found.reduceOption := by
    cases hdeclared' : found.reduceOption with
    | nil => simp [hdeclared'] at hget
    | cons first rest =>
      rw [hdeclared', skillsOf_cons] at hskills
      exact (Except.ok.inj hskills).symm
  refine ⟨arguments, skill, harguments, hbuilt, ?_⟩
  rw [emittedFor, hentry, Option.any_some, if_pos hcarried, emittedSkills_eq hrecord, hskills',
    hget]

omit h in
theorem emittedFor_of_not_carried (hentry : agent.skills[idx]? = some entry)
    (hnot : carried entry = false) : emittedFor agent facts idx = none := by
  rw [emittedFor, hentry, Option.any_some, if_neg (by simp [hnot])]

/-- There is a skill of nobody's exactly if no entry has one. -/
theorem countP_lt_emitted : agent.skills.countP carried < (emittedSkills facts).length ↔
    ∀ entry ∈ agent.skills, carried entry = false := by
  obtain ⟨declared, skills, hdeclared, hskills, hrecord⟩ := toSm_record h
  rw [← declared_eq_nil hdeclared, ← declared_length hdeclared, emittedSkills_eq hrecord]
  cases declared with
  | nil =>
    obtain ⟨skill, -, hskill⟩ := bind_eq_ok.mp hskills
    rw [← Except.ok.inj hskill]
    simp
  | cons first rest =>
    rw [skillsOf_cons] at hskills
    rw [← Except.ok.inj hskills]
    simp

end Conversion

end EmittedSkills
