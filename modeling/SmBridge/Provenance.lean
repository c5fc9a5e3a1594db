import SmBridge.EmittedSkills
import SmBridge.Lib.Segments

/-!
# What a conversion tells about itself

The converter keeps an account of the values that it invents or defaults and of the parts of
the source that it drops. The account is complete only for agents that leave it nothing to do
where it keeps no books: it is compared here with the record that the converter emits.
-/
namespace Provenance

open Python
open JsonValue
open Json
open Dictionary
open Text
open Store
open Converter
open Attempts
open Segments
open EmittedSkills

/-- The path of an entry of the list of skills. -/
def entryPath (idx : ℕ) : String := "skills[" ++ toString idx ++ "]"

def modeFields : List String := ["inputModes", "outputModes"]

/-- The fields of a detailed skill that always have a value. -/
def skillFields : List String := ["id", "description"] ++ modeFields

/-- What an entry of the source says about a field of its detailed skill. -/
def sourced : Json → String → Option Json
  | .obj fields, field =>
    if field = "id" then (fields.lookup "id").or (fields.lookup "name") else fields.lookup field
  | .str s, field => if field = "id" ∨ field = "description" then some (.str s) else none
  | _, _ => none

section Definitions

variable (python : Interpreter) (registryId : String)

/-- The emitted value is the one of the source, or its text. -/
def SameAs (emitted value : Json) : Prop :=
  emitted.eq value = true ∨ emitted = .str (python.str value)

/-- The value stands in a field of the emitted skill. -/
def Shows (skill value : Json) : Prop :=
  ∃ field emitted, skill.get? field = some emitted ∧ SameAs python emitted value

/-- The account in the registry's block of the metadata. -/
def provenance (facts : SmAgentFacts) : Option Json :=
  ((facts.record.lookup "metadata").bind (get? ("x_" ++ replace "-" "_" registryId))).bind
    (get? "provenance")

def emittedPolicies (facts : SmAgentFacts) : Option Json :=
  ((facts.record.lookup "endpoints").bind (get? "adaptive_resolver")).bind (get? "policies")

def emittedIssuer (facts : SmAgentFacts) : Option Json :=
  (facts.record.lookup "certification").bind (get? "issuer")

/-- The account has the path in this list. -/
def Lists (facts : SmAgentFacts) (list path : String) : Prop :=
  ∃ paths, (provenance registryId facts).bind (get? list) = some (strings paths) ∧ path ∈ paths

/-- One of the paths, of a field or of what holds it, is invented or defaulted. -/
def Supplied (facts : SmAgentFacts) (paths : List String) : Prop :=
  ∃ path ∈ paths, Lists registryId facts "invented" path ∨ Lists registryId facts "defaulted" path

/-- The account names each part of the source that the record does not show, and each value that
the record holds, among the skill fields that are booked, and the source does not give. -/
structure Accounted (booked : List String) (agent : SimpleAgent) (facts : SmAgentFacts) :
    Prop where
  entries : ∀ idx entry, agent.skills[idx]? = some entry →
    ¬ (∃ skill, emittedFor agent facts idx = some skill ∧
      (entry.isObj = true ∨ Shows python skill entry)) →
    Lists registryId facts "dropped" (entryPath idx)
  keys : ∀ idx fields, agent.skills[idx]? = some (.obj fields) →
    ∀ key value, fields.lookup key = some value →
      ¬ (∃ skill, emittedFor agent facts idx = some skill ∧ Shows python skill value) →
      Lists registryId facts "dropped" (skillPath idx key)
  fields : ∀ idx entry skill, agent.skills[idx]? = some entry →
    emittedFor agent facts idx = some skill → ∀ field ∈ booked, ∀ emitted,
      skill.get? field = some emitted →
      ¬ (∃ value, sourced entry field = some value ∧ SameAs python emitted value) →
      Supplied registryId facts ["skills", entryPath idx, skillPath idx field]
  placeholder : agent.skills.countP carried < (emittedSkills facts).length →
    Supplied registryId facts ["skills"]
  policies : ∀ policies, emittedPolicies facts = some policies →
    policies ≠ strings agent.adaptiveResolverPolicies →
    Supplied registryId facts
      ["endpoints", "endpoints.adaptive_resolver", "endpoints.adaptive_resolver.policies"]
  issuer : ∀ issuer, emittedIssuer facts = some issuer →
    agent.certificationIssuer.map .str ≠ some issuer →
    Supplied registryId facts ["certification", "certification.issuer"]

/-- What a dictionary leaves to stand in its skill. -/
def slots (intOfText : String → Option ℤ) (fields : List (String × Json)) : List Json :=
  [.str (skillId python fields), (fields.lookup "description").getD (.str ""),
    (fields.lookup "inputModes").getD (strings ["text"]),
    (fields.lookup "outputModes").getD (strings ["text"]), .null,
    (fields.lookup "supportedLanguages").getD .null,
    countOf intOfText ((fields.lookup "latencyBudgetMs").getD .null),
    countOf intOfText ((fields.lookup "maxTokens").getD .null)]

/-- The source leaves nothing to the parts of the conversion that keep no account. -/
structure Plain (intOfText : String → Option ℤ) (providerName : String) (booked : List String)
    (agent : SimpleAgent) : Prop where
  entries : ∀ entry ∈ agent.skills, carried entry = true
  keys : ∀ fields, .obj fields ∈ agent.skills → ∀ key ∈ ["name", "latencyBudgetMs", "maxTokens"],
    ∀ value, fields.lookup key = some value →
      ∃ slot ∈ slots python intOfText fields, SameAs python slot value
  modes : ∀ entry ∈ agent.skills, ∀ field ∈ booked, field ∈ modeFields → sourced entry field ≠ none
  policies : given agent.adaptiveResolverUrl = true → agent.adaptiveResolverPolicies ≠ []
  issuer : agent.certificationLevel ≠ none → given agent.certificationIssuer = true ∨
    agent.certificationIssuer = some providerName

end Definitions

variable {python : Interpreter} {casing : Casing}
  {smSkill : List (String × Json) → Except PyError Json} {intOfText : String → Option ℤ}
  {self : SimpleAgentConverter} {registryId path key : String} {agent : SimpleAgent}
  {facts : SmAgentFacts} {entry : Json} {fields : List (String × Json)} {idx idx' : ℕ}
  {booked : List String}

/-! ## The emitted fields -/

theorem emittedFields_values {arguments : List (String × Json)}
    (harguments : skillArguments python (.obj fields) = some arguments) (x : Json) :
    x ∈ (emittedFields intOfText arguments).map Prod.snd ↔ x ∈ slots python intOfText fields := by
  obtain rfl := Option.some.inj harguments
  simp [emittedFields, slots, List.lookup_cons, or_left_comm]

/-- The skill of a dictionary holds the slots and nothing else. -/
theorem shows_iff_slots {arguments : List (String × Json)} {value : Json}
    (harguments : skillArguments python (.obj fields) = some arguments) :
    Shows python (.obj (emittedFields intOfText arguments)) value ↔
      ∃ slot ∈ slots python intOfText fields, SameAs python slot value := by
  let emitted : Dict String Json := ⟨emittedFields intOfText arguments, emittedFields_nodup⟩
  have hvalues : ∀ x, (∃ field, (emittedFields intOfText arguments).lookup field = some x) ↔
      x ∈ slots python intOfText fields := fun x =>
    (Dict.mem_values (d := emitted)).symm.trans (emittedFields_values harguments x)
  constructor
  · intro ⟨field, x, hfield, hsame⟩
    exact ⟨x, (hvalues x).mp ⟨field, hfield⟩, hsame⟩
  · intro ⟨x, hslot, hsame⟩
    obtain ⟨field, hfield⟩ := (hvalues x).mpr hslot
    exact ⟨field, x, hfield, hsame⟩

/-- An integral number for an integer field is always held, so of these fields only a text can
come out as another value. -/
theorem slot_of_number {value : Json} {q : Rat} (hkey : key ∈ countFields)
    (hvalue : fields.lookup key = some value) (hnumber : value.number? = some q) (hq : q.den = 1) :
    ∃ slot ∈ slots python intOfText fields, SameAs python slot value := by
  refine ⟨countOf intOfText value, ?_, Or.inl (countOf_eq hnumber hq)⟩
  simp only [countFields, List.mem_cons, List.not_mem_nil, or_false] at hkey
  rcases hkey with rfl | rfl <;> simp [slots, hvalue]

theorem skillId_of_sourced {value : Json}
    (h : (fields.lookup "id").or (fields.lookup "name") = some value) :
    skillId python fields = python.str value := by
  rw [skillId]
  cases hid : fields.lookup "id" with
  | none =>
    rw [hid, Option.none_or] at h
    rw [h, Option.getD_none, Option.getD_some]
  | some id =>
    rw [hid, Option.some_or] at h
    rw [Option.getD_some, Option.some.inj h]

/-- What the source says about a field that is not a number, or its text, is emitted. -/
theorem emitted_of_sourced {arguments : List (String × Json)} {field : String} {value : Json}
    (harguments : skillArguments python entry = some arguments) (htyped : WellTyped arguments)
    (hfield : field ∈ textFields ++ listFields) (h : sourced entry field = some value) :
    ∃ emitted, (emittedFields intOfText arguments).lookup field = some emitted ∧
      SameAs python emitted value := by
  have hkept : arguments.lookup field = some value →
      (emittedFields intOfText arguments).lookup field = some value := by
    intro hargument
    simp only [textFields, listFields, List.cons_append, List.nil_append, List.mem_cons,
      List.not_mem_nil, or_false] at hfield
    rcases hfield with rfl | rfl | rfl | rfl | rfl <;>
    simp [emittedFields, List.lookup_cons, hargument]
  cases entry with
  | obj fields =>
    obtain rfl := Option.some.inj harguments
    by_cases hid : field = "id"
    · subst field
      exact ⟨.str (skillId python fields), rfl,
        Or.inr (congrArg _ (skillId_of_sourced (by simpa [sourced] using h)))⟩
    · rw [sourced, if_neg hid] at h
      have hargument : List.lookup field
          [("id", .str (skillId python fields)),
            ("description", (fields.lookup "description").getD (.str "")),
            ("inputModes", (fields.lookup "inputModes").getD (strings ["text"])),
            ("outputModes", (fields.lookup "outputModes").getD (strings ["text"])),
            ("supportedLanguages", (fields.lookup "supportedLanguages").getD .null),
            ("latencyBudgetMs", (fields.lookup "latencyBudgetMs").getD .null),
            ("maxTokens", (fields.lookup "maxTokens").getD .null)] = some value := by
        simp only [textFields, listFields, List.cons_append, List.nil_append, List.mem_cons,
          List.not_mem_nil, or_false, hid, false_or] at hfield
        rcases hfield with rfl | rfl | rfl | rfl <;> simp [List.lookup_cons, h]
      exact ⟨value, hkept hargument, Or.inl (htyped.eq_self hfield hargument)⟩
  | str s =>
    obtain rfl := Option.some.inj harguments
    rw [sourced] at h
    split at h
    · rename_i htext
      obtain rfl := Option.some.inj h
      have hargument : List.lookup field [("id", Json.str s), ("description", Json.str s)] =
          some (.str s) := by
        rcases htext with rfl | rfl <;> rfl
      exact ⟨.str s, hkept hargument, Or.inl (eq_str.mpr rfl)⟩
    · cases h
  | _ => cases harguments

/-- The skill shows what it takes from the dictionary under the key itself. -/
theorem slot_of_known {arguments : List (String × Json)} {value : Json}
    (harguments : skillArguments python (.obj fields) = some arguments)
    (htyped : WellTyped arguments) (hkey : key ∈ skillKeys)
    (hkept : key ∉ ["name", "latencyBudgetMs", "maxTokens"])
    (hvalue : fields.lookup key = some value) :
    ∃ slot ∈ slots python intOfText fields, SameAs python slot value := by
  have hfield : key ∈ textFields ++ listFields := by
    have hsplit : ∀ key ∈ skillKeys, key ∉ ["name", "latencyBudgetMs", "maxTokens"] →
        key ∈ textFields ++ listFields := by decide
    exact hsplit key hkey hkept
  have hsourced : sourced (.obj fields) key = some value := by
    by_cases hid : key = "id"
    · subst key
      simp [sourced, hvalue]
    · rw [sourced, if_neg hid, hvalue]
  obtain ⟨emitted, hemitted, hsame⟩ := emitted_of_sourced harguments htyped hfield hsourced
  exact (shows_iff_slots harguments).mp ⟨key, emitted, hemitted, hsame⟩

/-! ## The emitted record -/

theorem emittedPolicies_eq {declared skills : List Json}
    (h : facts.record = recordOf python casing self agent declared skills) :
    emittedPolicies facts = if given agent.adaptiveResolverUrl then
      some (strings (if agent.adaptiveResolverPolicies = [] then
        ["capability_negotiation", "load_balancing"] else agent.adaptiveResolverPolicies))
      else none := by
  have hendpoints : facts.record.lookup "endpoints" = some (endpoints self agent) := by
    simp [h, recordOf, List.lookup_cons]
  rw [emittedPolicies, hendpoints, Option.bind_some, endpoints]
  cases given agent.adaptiveResolverUrl <;> rfl

theorem emittedIssuer_eq {declared skills : List Json}
    (h : facts.record = recordOf python casing self agent declared skills) :
    emittedIssuer facts = agent.certificationLevel.map fun _ =>
      .str (if given agent.certificationIssuer then agent.certificationIssuer.getD ""
        else self.providerName) := by
  have hcertification : facts.record.lookup "certification" = some (certification self agent) := by
    simp [h, recordOf, List.lookup_cons]
  rw [emittedIssuer, hcertification, Option.bind_some, certification]
  cases agent.certificationLevel <;> rfl

/-! ## The paths -/

theorem toString_inj (h : toString idx = toString idx') : idx = idx' := by
  have hdigits : Nat.toDigits 10 idx = Nat.toDigits 10 idx' := by
    rw [← Nat.toList_repr, ← Nat.toList_repr]
    exact congrArg String.toList h
  exact toDigits_inj hdigits

theorem bracket_notMem (idx : ℕ) : ']' ∉ (toString idx).toList := by
  intro h
  have hdigit : (']' : Char) ∈ Nat.toDigits 10 idx := by
    rw [← Nat.toList_repr]
    exact h
  have habs := isDigit_of_mem_toDigits hdigit
  cases habs

theorem toList_skillPath (idx : ℕ) (key : String) :
    (skillPath idx key).toList =
      "skills[".toList ++ ((toString idx).toList ++ ']' :: '.' :: key.toList) := by
  simp [skillPath, String.toList_append]

theorem toList_entryPath (idx : ℕ) :
    (entryPath idx).toList = "skills[".toList ++ ((toString idx).toList ++ [']']) := by
  simp [entryPath, String.toList_append]

/-- A path says the place and the key: the first closing bracket stands behind the place. -/
theorem skillPath_inj {key' : String} (h : skillPath idx key = skillPath idx' key') :
    idx = idx' ∧ key = key' := by
  have hrest : (toString idx).toList ++ ']' :: '.' :: key.toList =
      (toString idx').toList ++ ']' :: '.' :: key'.toList := by
    have hlist := congrArg String.toList h
    rw [toList_skillPath, toList_skillPath] at hlist
    exact List.append_cancel_left hlist
  constructor
  · have hfront := congrArg (beforeFirst ']') hrest
    rw [beforeFirst_cons (bracket_notMem idx), beforeFirst_cons (bracket_notMem idx')] at hfront
    exact toString_inj (String.toList_injective hfront)
  · have hback := congrArg (afterFirst ']') hrest
    rw [afterFirst_cons (bracket_notMem idx), afterFirst_cons (bracket_notMem idx')] at hback
    exact String.toList_injective (List.cons.inj hback).2

theorem entryPath_ne_skillPath : entryPath idx ≠ skillPath idx' key := by
  intro h
  have hlist := congrArg String.toList h
  rw [toList_entryPath, toList_skillPath] at hlist
  have hback := congrArg (afterFirst ']') (List.append_cancel_left hlist)
  rw [afterFirst_cons (bracket_notMem idx), afterFirst_cons (bracket_notMem idx')] at hback
  cases hback

theorem take_skillPath (idx : ℕ) (key : String) :
    (skillPath idx key).toList.take 7 = "skills[".toList := by
  rw [toList_skillPath]
  rfl

theorem take_entryPath (idx : ℕ) : (entryPath idx).toList.take 7 = "skills[".toList := by
  rw [toList_entryPath]
  rfl

/-! ## The account of a conversion -/

/-- The lists of the account, which no metadata of the source hides. -/
theorem provenance_toSm {declared skills : List Json}
    (h : facts.record = recordOf python casing self agent declared skills) :
    provenance self.registryId facts = some (.obj
      [("invented", strings (invented self agent declared)),
        ("defaulted", strings ((agent.skills.mapIdx defaultedOf).flatten ++
          if agent.labels = [] then ["label"] else [])),
        ("dropped", strings (agent.skills.mapIdx droppedOf).flatten)]) := by
  have hmetadata : facts.record.lookup "metadata" =
      some (.obj [("x_" ++ replace "-" "_" self.registryId,
        .obj (extension casing self agent declared).entries)]) := by
    rw [h]
    simp [recordOf, List.lookup_cons]
  rw [provenance, hmetadata, Option.bind_some, get?, List.lookup_cons_self, Option.bind_some, get?]
  change (extension casing self agent declared).get "provenance" = _
  rw [extension, Dict.get_pop, if_neg (by decide), Dict.get_set_self]

theorem strings_inj {xs ys : List String} (h : strings xs = strings ys) : xs = ys :=
  List.map_injective_iff.mpr (fun _ _ heq => Json.str.inj heq) (Json.arr.inj h)

theorem lists_iff {list : String} {paths : List String}
    (h : (provenance registryId facts).bind (get? list) = some (strings paths)) :
    Lists registryId facts list path ↔ path ∈ paths := by
  constructor
  · intro ⟨paths', h', hpath⟩
    rwa [strings_inj (Option.some.inj (h.symm.trans h'))]
  · exact fun hpath => ⟨paths, h, hpath⟩

theorem mem_dropped :
    path ∈ (agent.skills.mapIdx droppedOf).flatten ↔
      ∃ idx fields key, agent.skills[idx]? = some (.obj fields) ∧ key ∈ fields.map Prod.fst ∧
        key ∉ skillKeys ∧ skillPath idx key = path := by
  rw [List.mem_flatten]
  constructor
  · intro ⟨paths, hpaths, hpath⟩
    obtain ⟨idx, hidx, rfl⟩ := List.mem_mapIdx.mp hpaths
    cases hentry : agent.skills[idx] with
    | obj fields =>
      rw [hentry, droppedOf, List.mem_map] at hpath
      obtain ⟨key, hkey, hpath⟩ := hpath
      rw [List.mem_insertionSort, List.mem_filter, decide_eq_true_eq] at hkey
      exact ⟨idx, fields, key, List.getElem?_eq_some_iff.mpr ⟨hidx, hentry⟩, hkey.1, hkey.2, hpath⟩
    | _ =>
      rw [hentry] at hpath
      exact absurd hpath List.not_mem_nil
  · intro ⟨idx, fields, key, hentry, hkey, hunknown, hpath⟩
    obtain ⟨hidx, hentry⟩ := List.getElem?_eq_some_iff.mp hentry
    refine ⟨droppedOf idx agent.skills[idx], List.mem_mapIdx.mpr ⟨idx, hidx, rfl⟩, ?_⟩
    rw [hentry, droppedOf, List.mem_map]
    refine ⟨key, ?_, hpath⟩
    rw [List.mem_insertionSort, List.mem_filter, decide_eq_true_eq]
    exact ⟨hkey, hunknown⟩

/-- The fields of an entry that the account calls defaulted. -/
theorem mem_defaultedOf :
    path ∈ defaultedOf idx entry ↔ ∃ fields, entry = .obj fields ∧
      (fields.lookup "description" = none ∧ path = skillPath idx "description" ∨
        (fields.lookup "id" = none ∧ fields.lookup "name" = none) ∧ path = skillPath idx "id") := by
  cases entry with
  | obj fields =>
    simp only [defaultedOf, List.mem_append, List.mem_ite_nil_right, List.mem_singleton,
      Option.isNone_iff_eq_none, Json.obj.injEq, exists_eq_left']
  | _ => simp [defaultedOf]

theorem mem_defaulted :
    path ∈ (agent.skills.mapIdx defaultedOf).flatten ↔
      ∃ idx entry, agent.skills[idx]? = some entry ∧ path ∈ defaultedOf idx entry := by
  rw [List.mem_flatten]
  constructor
  · intro ⟨paths, hpaths, hpath⟩
    obtain ⟨idx, hidx, rfl⟩ := List.mem_mapIdx.mp hpaths
    exact ⟨idx, _, List.getElem?_eq_some_iff.mpr ⟨hidx, rfl⟩, hpath⟩
  · intro ⟨idx, entry, hentry, hpath⟩
    obtain ⟨hidx, rfl⟩ := List.getElem?_eq_some_iff.mp hentry
    exact ⟨_, List.mem_mapIdx.mpr ⟨idx, hidx, rfl⟩, hpath⟩

section Account

variable (h : toSm python casing smSkill self agent = .ok facts)
include h

theorem dropped_iff : Lists self.registryId facts "dropped" path ↔
    ∃ idx fields key, agent.skills[idx]? = some (.obj fields) ∧ key ∈ fields.map Prod.fst ∧
      key ∉ skillKeys ∧ skillPath idx key = path := by
  obtain ⟨declared, skills, -, -, hrecord⟩ := toSm_record h
  have hlist : (provenance self.registryId facts).bind (get? "dropped") =
      some (strings (agent.skills.mapIdx droppedOf).flatten) := by
    rw [provenance_toSm hrecord]
    rfl
  rw [lists_iff hlist, mem_dropped]

theorem defaulted_iff : Lists self.registryId facts "defaulted" path ↔
    (∃ idx entry, agent.skills[idx]? = some entry ∧ path ∈ defaultedOf idx entry) ∨
      agent.labels = [] ∧ path = "label" := by
  obtain ⟨declared, skills, -, -, hrecord⟩ := toSm_record h
  have hlist : (provenance self.registryId facts).bind (get? "defaulted") =
      some (strings ((agent.skills.mapIdx defaultedOf).flatten ++
        if agent.labels = [] then ["label"] else [])) := by
    rw [provenance_toSm hrecord]
    rfl
  rw [lists_iff hlist, List.mem_append, mem_defaulted, List.mem_ite_nil_right,
    List.mem_singleton]

theorem invented_iff : Lists self.registryId facts "invented" path ↔
    path = "id" ∨ path = "provider.did" ∨
      (self.baseUrl ≠ "" ∧ agent.endpoints.values = []) ∧ path = "endpoints.static" ∨
      (∀ entry ∈ agent.skills, carried entry = false) ∧ path = "skills" := by
  obtain ⟨declared, skills, hdeclared, -, hrecord⟩ := toSm_record h
  have hlist : (provenance self.registryId facts).bind (get? "invented") =
      some (strings (invented self agent declared)) := by
    rw [provenance_toSm hrecord]
    rfl
  rw [lists_iff hlist, ← declared_eq_nil hdeclared, invented]
  simp only [List.mem_append, List.mem_ite_nil_right, List.mem_cons, List.not_mem_nil, or_false,
    or_assoc]

/-- What the account can call supplied. -/
theorem supplied_cases
    (hpath : Lists self.registryId facts "invented" path ∨
      Lists self.registryId facts "defaulted" path) :
    path ∈ ["id", "provider.did", "endpoints.static", "label"] ∨
      (∀ entry ∈ agent.skills, carried entry = false) ∧ path = "skills" ∨
      ∃ idx, ∃ key ∈ ["description", "id"], path = skillPath idx key := by
  rw [invented_iff h, defaulted_iff h] at hpath
  rcases hpath with (rfl | rfl | ⟨-, rfl⟩ | hskills) | ⟨idx, entry, -, hdefaulted⟩ | ⟨-, rfl⟩
  · simp
  · simp
  · simp
  · exact Or.inr (Or.inl hskills)
  · obtain ⟨fields, -, ⟨-, hpath⟩ | ⟨-, hpath⟩⟩ := mem_defaultedOf.mp hdefaulted
    · exact Or.inr (Or.inr ⟨idx, "description", by simp, hpath⟩)
    · exact Or.inr (Or.inr ⟨idx, "id", by simp, hpath⟩)
  · simp

/-- Neither an entry that is skipped nor a key that the skill knows is called dropped. -/
theorem entry_not_dropped : ¬ Lists self.registryId facts "dropped" (entryPath idx) := by
  rw [dropped_iff h]
  intro ⟨_, _, _, _, _, _, hpath⟩
  exact entryPath_ne_skillPath hpath.symm

theorem known_not_dropped (hkey : key ∈ skillKeys) :
    ¬ Lists self.registryId facts "dropped" (skillPath idx key) := by
  rw [dropped_iff h]
  intro ⟨_, _, _, _, _, hunknown, hpath⟩
  exact hunknown ((skillPath_inj hpath).2 ▸ hkey)

/-- The modes of a skill are never called supplied. -/
theorem mode_not_supplied {mode : String} (hentry : agent.skills[idx]? = some entry)
    (hcarried : carried entry = true) (hmode : mode ∉ ["description", "id"]) :
    ¬ Supplied self.registryId facts ["skills", entryPath idx, skillPath idx mode] := by
  intro ⟨path, hpath, hlisted⟩
  have hfixed : ∀ name ∈ ["id", "provider.did", "endpoints.static", "label", "skills"],
      name.toList.take 7 ≠ "skills[".toList := by decide
  rcases supplied_cases h hlisted with hname | ⟨hall, rfl⟩ | ⟨idx', key, hkey, hskill⟩
  · simp only [List.mem_cons, List.not_mem_nil, or_false] at hpath
    rcases hpath with rfl | rfl | rfl
    · revert hname
      decide
    · exact hfixed _ (List.mem_append_left ["skills"] hname) (take_entryPath idx)
    · exact hfixed _ (List.mem_append_left ["skills"] hname) (take_skillPath idx mode)
  · rw [hall entry (List.mem_of_getElem? hentry)] at hcarried
    cases hcarried
  · simp only [List.mem_cons, List.not_mem_nil, or_false] at hpath
    rcases hpath with rfl | rfl | rfl
    · exact hfixed "skills" (by simp) (hskill ▸ take_skillPath idx' key)
    · exact entryPath_ne_skillPath hskill
    · exact hmode ((skillPath_inj hskill).2 ▸ hkey)

/-- Nothing outside the id, the provider, the static endpoints, the label and the skills is
called supplied. -/
theorem other_not_supplied {paths : List String}
    (hpaths : ∀ path ∈ paths, path ∉ ["id", "provider.did", "endpoints.static", "label", "skills"])
    (hfront : ∀ path ∈ paths, path.toList.take 7 ≠ "skills[".toList) :
    ¬ Supplied self.registryId facts paths := by
  intro ⟨path, hpath, hlisted⟩
  rcases supplied_cases h hlisted with hname | ⟨-, hskills⟩ | ⟨idx, key, -, rfl⟩
  · exact hpaths path hpath (List.mem_append_left ["skills"] hname)
  · exact hpaths path hpath (hskills ▸ by simp)
  · exact hfront _ hpath (take_skillPath idx key)

theorem policies_not_supplied : ¬ Supplied self.registryId facts
    ["endpoints", "endpoints.adaptive_resolver", "endpoints.adaptive_resolver.policies"] :=
  other_not_supplied h (by decide) (by decide)

theorem issuer_not_supplied :
    ¬ Supplied self.registryId facts ["certification", "certification.issuer"] :=
  other_not_supplied h (by decide) (by decide)

end Account

/-! ## What the record shows of the source -/

/-- The skill of an entry is what the law of `SmSkill` says. -/
theorem emittedFor_fields (hskill : BuildsSkill intOfText smSkill)
    (h : toSm python casing smSkill self agent = .ok facts)
    (hentry : agent.skills[idx]? = some entry) (hcarried : carried entry = true) :
    ∃ arguments, skillArguments python entry = some arguments ∧ WellTyped arguments ∧
      emittedFor agent facts idx = some (.obj (emittedFields intOfText arguments)) := by
  obtain ⟨arguments, skill, harguments, hbuilt, hemitted⟩ := emittedFor_of_carried h hentry hcarried
  refine ⟨arguments, harguments, hskill.wellTyped _ _ hbuilt, ?_⟩
  rw [hemitted, hskill.emits _ _ hbuilt]

theorem entry_shown (hskill : BuildsSkill intOfText smSkill)
    (h : toSm python casing smSkill self agent = .ok facts)
    (hentry : agent.skills[idx]? = some entry) (hcarried : carried entry = true) :
    ∃ skill, emittedFor agent facts idx = some skill ∧
      (entry.isObj = true ∨ Shows python skill entry) := by
  obtain ⟨arguments, harguments, -, hemitted⟩ := emittedFor_fields hskill h hentry hcarried
  refine ⟨_, hemitted, ?_⟩
  cases entry with
  | obj fields => exact Or.inl rfl
  | str s =>
    obtain rfl := Option.some.inj harguments
    exact Or.inr ⟨"id", .str s, rfl, Or.inl (eq_str.mpr rfl)⟩
  | _ => cases hcarried

/-- A value of a dictionary is shown exactly in a slot. -/
theorem value_shown_iff (hskill : BuildsSkill intOfText smSkill)
    (h : toSm python casing smSkill self agent = .ok facts)
    (hentry : agent.skills[idx]? = some (.obj fields)) {value : Json} :
    (∃ skill, emittedFor agent facts idx = some skill ∧ Shows python skill value) ↔
      ∃ slot ∈ slots python intOfText fields, SameAs python slot value := by
  obtain ⟨arguments, harguments, -, hemitted⟩ := emittedFor_fields hskill h hentry rfl
  rw [← shows_iff_slots harguments]
  constructor
  · rintro ⟨skill, hemitted', hshows⟩
    obtain rfl := Option.some.inj (hemitted.symm.trans hemitted')
    exact hshows
  · exact fun hshows => ⟨_, hemitted, hshows⟩

theorem known_shown (hskill : BuildsSkill intOfText smSkill)
    (h : toSm python casing smSkill self agent = .ok facts)
    (hentry : agent.skills[idx]? = some (.obj fields)) {value : Json} (hkey : key ∈ skillKeys)
    (hkept : key ∉ ["name", "latencyBudgetMs", "maxTokens"])
    (hvalue : fields.lookup key = some value) :
    ∃ skill, emittedFor agent facts idx = some skill ∧ Shows python skill value := by
  obtain ⟨arguments, harguments, htyped, -⟩ := emittedFor_fields hskill h hentry rfl
  exact (value_shown_iff hskill h hentry).mpr (slot_of_known harguments htyped hkey hkept hvalue)

theorem policies_kept {declared skills : List Json} {policies : Json}
    (h : facts.record = recordOf python casing self agent declared skills)
    (hplain : given agent.adaptiveResolverUrl = true → agent.adaptiveResolverPolicies ≠ [])
    (hpolicies : emittedPolicies facts = some policies) :
    policies = strings agent.adaptiveResolverPolicies := by
  rw [emittedPolicies_eq h] at hpolicies
  split at hpolicies
  · rename_i hurl
    rw [if_neg (hplain hurl)] at hpolicies
    exact (Option.some.inj hpolicies).symm
  · cases hpolicies

theorem issuer_kept {declared skills : List Json} {issuer : Json}
    (h : facts.record = recordOf python casing self agent declared skills)
    (hplain : agent.certificationLevel ≠ none → given agent.certificationIssuer = true ∨
      agent.certificationIssuer = some self.providerName)
    (hissuer : emittedIssuer facts = some issuer) :
    agent.certificationIssuer.map .str = some issuer := by
  rw [emittedIssuer_eq h] at hissuer
  obtain ⟨level, hlevel, rfl⟩ := Option.map_eq_some_iff.mp hissuer
  have hsource := hplain (by simp [hlevel])
  cases hname : agent.certificationIssuer with
  | none =>
    rw [hname] at hsource
    rcases hsource with hgiven | hprovider
    · cases hgiven
    · cases hprovider
  | some issuer =>
    rw [hname] at hsource
    by_cases hgiven : given (some issuer) = true
    · rw [if_pos hgiven]
      rfl
    · rw [if_neg hgiven, ← Option.some.inj (hsource.resolve_left hgiven)]
      rfl

/-! ## When the account is complete -/

theorem carried_of_accounted (h : toSm python casing smSkill self agent = .ok facts)
    (haccounted : Accounted python self.registryId booked agent facts)
    (hentry : agent.skills[idx]? = some entry) : carried entry = true := by
  by_contra hnot
  have hnone : emittedFor agent facts idx = none :=
    emittedFor_of_not_carried hentry (Bool.not_eq_true _ ▸ hnot)
  refine entry_not_dropped h (haccounted.entries idx entry hentry ?_)
  rintro ⟨skill, hemitted, -⟩
  rw [hnone] at hemitted
  cases hemitted

theorem emits_mode (intOfText : String → Option ℤ) (arguments : List (String × Json))
    {mode : String} (hmode : mode ∈ modeFields) :
    ∃ emitted, (emittedFields intOfText arguments).lookup mode = some emitted := by
  simp only [modeFields, List.mem_cons, List.not_mem_nil, or_false] at hmode
  rcases hmode with rfl | rfl
  · exact ⟨_, rfl⟩
  · exact ⟨_, rfl⟩

/-- What a complete account says about the source. -/
theorem plain_of_accounted (hskill : BuildsSkill intOfText smSkill)
    (h : toSm python casing smSkill self agent = .ok facts)
    (haccounted : Accounted python self.registryId booked agent facts) :
    Plain python intOfText self.providerName booked agent where
  entries entry hentry := by
    obtain ⟨idx, hidx⟩ := List.mem_iff_getElem?.mp hentry
    exact carried_of_accounted h haccounted hidx
  keys fields hfields key hkey value hvalue := by
    obtain ⟨idx, hidx⟩ := List.mem_iff_getElem?.mp hfields
    by_contra hnot
    have hknown : key ∈ skillKeys := by
      have hsubset : ["name", "latencyBudgetMs", "maxTokens"] ⊆ skillKeys := by decide
      exact hsubset hkey
    refine known_not_dropped h hknown (haccounted.keys idx fields hidx key value hvalue ?_)
    rw [value_shown_iff hskill h hidx]
    exact hnot
  modes entry hentry field hfield hmode hnone := by
    obtain ⟨idx, hidx⟩ := List.mem_iff_getElem?.mp hentry
    have hcarried := carried_of_accounted h haccounted hidx
    obtain ⟨arguments, -, -, hemitted⟩ := emittedFor_fields hskill h hidx hcarried
    obtain ⟨emitted, hget⟩ := emits_mode intOfText arguments hmode
    have hother : ∀ mode ∈ modeFields, mode ∉ ["description", "id"] := by decide
    refine mode_not_supplied h hidx hcarried (hother field hmode)
      (haccounted.fields idx entry _ hidx hemitted field hfield emitted hget ?_)
    rintro ⟨value, hvalue, -⟩
    rw [hnone] at hvalue
    cases hvalue
  policies hurl hnil := by
    obtain ⟨declared, skills, -, -, hrecord⟩ := toSm_record h
    have hpolicies := emittedPolicies_eq hrecord
    rw [if_pos hurl, if_pos hnil] at hpolicies
    refine policies_not_supplied h (haccounted.policies _ hpolicies ?_)
    rw [hnil]
    exact fun heq => by cases heq
  issuer hlevel := by
    obtain ⟨declared, skills, -, -, hrecord⟩ := toSm_record h
    obtain ⟨level, hlevel⟩ := Option.ne_none_iff_exists'.mp hlevel
    have hissuer := emittedIssuer_eq hrecord
    by_contra hnot
    obtain ⟨hgiven, hprovider⟩ := not_or.mp hnot
    rw [hlevel, Option.map_some, if_neg hgiven] at hissuer
    refine issuer_not_supplied h (haccounted.issuer _ hissuer ?_)
    intro heq
    obtain ⟨issuer, hsource, hname⟩ := Option.map_eq_some_iff.mp heq
    exact hprovider (hsource.trans (congrArg some (Json.str.inj hname)))

/-- A field that the source does not give and that is no mode is called defaulted. -/
theorem supplied_of_not_sourced (h : toSm python casing smSkill self agent = .ok facts)
    {field : String} (hentry : agent.skills[idx]? = some entry) (hcarried : carried entry = true)
    (hfield : field ∈ skillFields) (hmode : field ∉ modeFields)
    (hnone : sourced entry field = none) :
    Supplied self.registryId facts ["skills", entryPath idx, skillPath idx field] := by
  have htext : field = "id" ∨ field = "description" := by
    rcases List.mem_append.mp hfield with htext | hin
    · simpa using htext
    · exact absurd hin hmode
  refine ⟨skillPath idx field, by simp,
    Or.inr ((defaulted_iff h).mpr (Or.inl ⟨idx, entry, hentry, ?_⟩))⟩
  cases entry with
  | obj fields =>
    refine mem_defaultedOf.mpr ⟨fields, rfl, ?_⟩
    rcases htext with rfl | rfl
    · exact Or.inr ⟨Option.or_eq_none_iff.mp hnone, rfl⟩
    · exact Or.inl ⟨hnone, rfl⟩
  | str s =>
    rw [sourced, if_pos htext] at hnone
    cases hnone
  | _ => cases hcarried

theorem accounted_of_plain (hskill : BuildsSkill intOfText smSkill) (hbooked : booked ⊆ skillFields)
    (h : toSm python casing smSkill self agent = .ok facts)
    (hplain : Plain python intOfText self.providerName booked agent) :
    Accounted python self.registryId booked agent facts where
  entries idx entry hentry hnot := by
    have hcarried := hplain.entries entry (List.mem_of_getElem? hentry)
    exact absurd (entry_shown hskill h hentry hcarried) hnot
  keys idx fields hentry key value hvalue hnot := by
    refine (dropped_iff h).mpr ⟨idx, fields, key, hentry, ?_, fun hkey => hnot ?_, rfl⟩
    · by_contra hmissing
      have hnone : fields.lookup key = none := List.lookup_eq_none_iff.mpr fun field hfield =>
        bne_iff_ne.mpr fun heq => hmissing (heq ▸ List.mem_map_of_mem hfield)
      rw [hnone] at hvalue
      cases hvalue
    · by_cases hkept : key ∈ ["name", "latencyBudgetMs", "maxTokens"]
      · rw [value_shown_iff hskill h hentry]
        exact hplain.keys fields (List.mem_of_getElem? hentry) key hkept value hvalue
      · exact known_shown hskill h hentry hkey hkept hvalue
  fields idx entry skill hentry hemitted field hfield emitted hget hnot := by
    have hcarried := hplain.entries entry (List.mem_of_getElem? hentry)
    obtain ⟨arguments, harguments, htyped, hemitted'⟩ :=
      emittedFor_fields hskill h hentry hcarried
    obtain rfl := Option.some.inj (hemitted'.symm.trans hemitted)
    cases hsourced : sourced entry field with
    | some value =>
      have hlisted : field ∈ textFields ++ listFields := by
        have hsubset : skillFields ⊆ textFields ++ listFields := by decide
        exact hsubset (hbooked hfield)
      obtain ⟨emitted', hget', hsame⟩ := emitted_of_sourced harguments htyped hlisted hsourced
      obtain rfl := Option.some.inj (hget.symm.trans hget')
      exact absurd ⟨value, hsourced, hsame⟩ hnot
    | none =>
      have hmode : field ∉ modeFields := fun hmode =>
        hplain.modes entry (List.mem_of_getElem? hentry) field hfield hmode hsourced
      exact supplied_of_not_sourced h hentry hcarried (hbooked hfield) hmode hsourced
  placeholder hmore := ⟨"skills", by simp,
    Or.inl ((invented_iff h).mpr (Or.inr (Or.inr (Or.inr
      ⟨(countP_lt_emitted h).mp hmore, rfl⟩))))⟩
  policies policies hpolicies hnot := by
    obtain ⟨declared, skills, -, -, hrecord⟩ := toSm_record h
    exact absurd (policies_kept hrecord hplain.policies hpolicies) hnot
  issuer issuer hissuer hnot := by
    obtain ⟨declared, skills, -, -, hrecord⟩ := toSm_record h
    exact absurd (issuer_kept hrecord hplain.issuer hissuer) hnot

/-- The account of a conversion is complete exactly for a source that leaves nothing to the parts
of the conversion that keep none. -/
theorem accounted_iff (python : Interpreter) (casing : Casing)
    (smSkill : List (String × Json) → Except PyError Json) (intOfText : String → Option ℤ)
    (hskill : BuildsSkill intOfText smSkill) (self : SimpleAgentConverter) (booked : List String)
    (hbooked : booked ⊆ skillFields) (agent : SimpleAgent) (facts : SmAgentFacts)
    (h : toSm python casing smSkill self agent = .ok facts) :
    Accounted python self.registryId booked agent facts ↔
      Plain python intOfText self.providerName booked agent :=
  ⟨plain_of_accounted hskill h, accounted_of_plain hskill hbooked h⟩

/-! ## An agent with one skill -/

def acme : SimpleAgentConverter :=
  .new "acme" "Acme" "https://acme.example" none

/-- A clerk whose only skill is this dictionary. -/
def skilled (fields : List (String × Json)) : SimpleAgent where
  id := "clerk"
  name := "Clerk"
  description := "Keeps the books"
  skills := [.obj fields]
  adaptiveResolverUrl := some "https://resolver.example"
  adaptiveResolverPolicies := ["nearest"]
  certificationLevel := some "audited"
  certificationIssuer := some "Auditors"

theorem skilled_converts (fields : List (String × Json)) {arguments : List (String × Json)}
    (harguments : skillArguments plainPython (.obj fields) = some arguments)
    (htyped : WellTyped arguments) :
    ∃ facts, toSm plainPython asciiCasing (checkedSkill String.toInt?) acme (skilled fields) =
      .ok facts := by
  have hskill : skillOf plainPython (checkedSkill String.toInt?) (.obj fields) =
      .ok (some (.obj (emittedFields String.toInt? arguments))) := by
    rw [skillOf_eq, harguments, Option.elim_some, checkedSkill, if_pos htyped]
    rfl
  have hfound : [Json.obj fields].mapM (skillOf plainPython (checkedSkill String.toInt?)) =
      .ok [some (.obj (emittedFields String.toInt? arguments))] := by
    rw [List.mapM_cons, hskill]
    rfl
  rw [toSm, declaredSkills, skilled, hfound]
  exact ⟨_, rfl⟩

/-- A skill that gives every booked field, and a price for which there is no field. -/
def pricedSkill : List (String × Json) :=
  [("id", .str "sum"), ("name", .str "sum"), ("description", .str "Adds"),
    ("inputModes", strings ["text"]), ("outputModes", strings ["text", "audio"]),
    ("maxTokens", .int 100), ("pricing", .str "$1")]

theorem accounted_iff_priced : ∃ facts,
    toSm plainPython asciiCasing (checkedSkill String.toInt?) acme (skilled pricedSkill) =
      .ok facts ∧
      (Accounted plainPython "acme" skillFields (skilled pricedSkill) facts ↔
        Plain plainPython String.toInt? "Acme" skillFields (skilled pricedSkill)) := by
  obtain ⟨facts, h⟩ := skilled_converts pricedSkill rfl (by decide +kernel)
  exact ⟨facts, h, accounted_iff plainPython asciiCasing (checkedSkill String.toInt?) String.toInt?
    (checkedSkill_builds _) acme skillFields (List.Subset.refl _) (skilled pricedSkill) facts h⟩

/-- The skill's name is dropped without an account of it. -/
theorem named_skill_not_accounted : ¬ ∀ agent facts,
    toSm plainPython asciiCasing (checkedSkill String.toInt?) acme agent = .ok facts →
      Accounted plainPython "acme" skillFields agent facts := by
  intro h
  let fields : List (String × Json) :=
    [("id", .str "sum"), ("name", .str "Sum"), ("description", .str "Adds"),
      ("inputModes", strings ["text"]), ("outputModes", strings ["text"])]
  obtain ⟨facts, hfacts⟩ := skilled_converts fields rfl (by decide +kernel)
  have hplain := plain_of_accounted (checkedSkill_builds _) hfacts (h _ facts hfacts)
  obtain ⟨slot, hslot, hsame⟩ :=
    hplain.keys fields List.mem_cons_self "name" (by simp) (.str "Sum") rfl
  have hnone : ∀ slot ∈ slots plainPython String.toInt? fields, slot ≠ .str "Sum" := by
    simp [slots, fields, skillId, strings, countOf, List.lookup_cons, number?, Interpreter.str]
  rcases hsame with heq | htext
  · exact hnone slot hslot (eq_str.mp heq)
  · exact hnone slot hslot htext

end Provenance
