import SmBridge.DelegationTypes

/-!
# The checks of the loop

The rules of one hop, in the order of the source, with the types that are needed between them.
-/
namespace DelegationChecks

open Python
open JsonValue
open Delegation
open DelegationRules (structureWindow_ok)
open DelegationTypes
open Checks

/-! ## The structure of a credential -/

section Structure

variable (python : Interpreter)

def subjectOf (cred : Fields) : Json := (cred.lookup "subject").getD (.obj [])
def depthOf (cred : Fields) : Json := (cred.lookup "maxRedelegationDepth").getD (.int 0)

def windowChecks (cred : Fields) : List Check :=
  [.needs (textual cred "issuedAt" = true), .rule ((timeOf python cred "issuedAt").isSome = true),
    .needs (textual cred "expiresAt" = true),
    .rule ((timeOf python cred "expiresAt").isSome = true)]

def structureChecks (cred : Fields) : List Check :=
  [.rule ((value cred "delegationId").truthy = true),
    .rule (value cred "schemaVersion" = .str schemaVersion),
    .needs ((subjectOf cred).isObj = true),
    .rule ((value (fieldsOf (subjectOf cred)) "did").truthy = true),
    .rule ((value cred "scopes").truthy = true),
    .needs (intLike python (depthOf cred) = true),
    .rule (∃ depth, python.int (depthOf cred) = .ok depth ∧ 0 ≤ depth)] ++
  windowChecks python cred ++
  [.rule (∃ issued expires, timeOf python cred "issuedAt" = some issued ∧
    timeOf python cred "expiresAt" = some expires ∧ issued < expires)]

/-- One of the two times of `window`. -/
def readTime (cred : Fields) (key : String) : Except PyError ℤ := do
  parseRfc3339 python (← (Json.obj cred).item key)

end Structure

variable {python : Interpreter}

theorem performs_raiseIf {broken p : Prop} [Decidable broken] {reason : String}
    (h : ¬ broken ↔ p) :
    Performs Caught (fun _ => True) (raiseIf broken reason) [.rule p] := by
  refine Performs.rule ?_ ?_
  · rw [raiseIf]
    split <;> simp
  · simp [raiseIf_eq_ok, h]

theorem window_obj (cred : Fields) :
    window python (.obj cred) =
      readTime python cred "issuedAt" >>= fun issued =>
        readTime python cred "expiresAt" >>= fun expires => .ok (issued, expires) := by
  unfold window readTime
  cases (Json.obj cred).item "issuedAt" with
  | error e => rfl
  | ok issuedAt =>
    simp only [ok_bind]
    cases parseRfc3339 python issuedAt with
    | error e => rfl
    | ok issued =>
      simp only [ok_bind]
      cases (Json.obj cred).item "expiresAt" <;> rfl

/-- A time is read, or rejected with an error that the window's caller catches, or it is no
string. -/
theorem readTime_cases (python : Interpreter) (cred : Fields) (key : String) :
    (∃ time, timeOf python cred key = some time ∧ textual cred key = true ∧
      readTime python cred key = .ok time) ∨
    (timeOf python cred key = none ∧ textual cred key = true ∧
      (readTime python cred key = .error (.keyError key) ∨
        ∃ text, readTime python cred key = .error (.valueError text))) ∨
    (timeOf python cred key = none ∧ textual cred key = false ∧
      ∃ text, readTime python cred key = .error (.attributeError text)) := by
  rw [timeOf, textual, readTime, Json.item]
  cases cred.lookup key with
  | none => exact .inr (.inl ⟨rfl, rfl, .inl rfl⟩)
  | some time =>
    rw [Option.bind_some, ok_bind]
    cases time with
    | str s =>
      simp only [parseRfc3339, isStr, true_and]
      cases python.fromIsoFormat _ with
      | error text => exact .inr (.inl ⟨rfl, .inr ⟨text, rfl⟩⟩)
      | ok fields => exact .inl ⟨_, rfl, rfl⟩
    | _ => exact .inr (.inr ⟨rfl, rfl, _, rfl⟩)

theorem window_eq_ok {cred : Fields} {issued expires : ℤ} :
    window python (.obj cred) = .ok (issued, expires) ↔
      timeOf python cred "issuedAt" = some issued ∧
        timeOf python cred "expiresAt" = some expires := by
  rw [window_obj]
  rcases readTime_cases python cred "issuedAt" with
    ⟨time, htime, -, hread⟩ | ⟨htime, -, hread | ⟨text, hread⟩⟩ | ⟨htime, -, text, hread⟩ <;>
  rcases readTime_cases python cred "expiresAt" with
    ⟨time', htime', -, hread'⟩ | ⟨htime', -, hread' | ⟨text', hread'⟩⟩ |
      ⟨htime', -, text', hread'⟩ <;>
  simp [htime, hread, htime', hread', bind, Except.bind]

theorem performs_structureWindow (cred : Fields) :
    Performs Caught (fun _ => True) (structureWindow python (.obj cred))
      (windowChecks python cred) := by
  unfold structureWindow windowChecks
  rw [window_obj]
  rcases readTime_cases python cred "issuedAt" with
    ⟨time, htime, htext, hread⟩ | ⟨htime, htext, hread | ⟨text, hread⟩⟩ |
      ⟨htime, htext, text, hread⟩
  · rcases readTime_cases python cred "expiresAt" with
      ⟨time', htime', htext', hread'⟩ | ⟨htime', htext', hread' | ⟨text', hread'⟩⟩ |
        ⟨htime', htext', text', hread'⟩ <;>
    exact ⟨by simp [Runs, htime, htext, hread, htime', htext', hread', bind, Except.bind],
      by simp [Check.Holds, htime, htext, hread, htime', htext', hread', bind, Except.bind]⟩
  all_goals exact ⟨by simp [Runs, htime, htext, hread, bind, Except.bind],
    by simp [Check.Holds, htime, htext, hread, bind, Except.bind]⟩

theorem maxRedelegationDepth_obj (cred : Fields) :
    maxRedelegationDepth python (.obj cred) = python.int (depthOf cred) := rfl

theorem performs_validateStructure (cred : Fields) :
    Performs Caught (fun _ => True) (validateStructure python (.obj cred))
      (structureChecks python cred) := by
  unfold validateStructure structureChecks
  simp only [Json.get_obj, Json.getD_obj, ok_bind, maxRedelegationDepth_obj, List.cons_append,
    List.nil_append]
  refine Performs.cons (performs_raiseIf (by simp [value])) fun _ _ _ => ?_
  refine Performs.cons (performs_raiseIf (by simp [value, Json.eq_str])) fun _ _ _ => ?_
  refine Performs.cons (needs_get _ "did").performs fun did hdid _ => ?_
  refine Performs.cons (performs_raiseIf ?_) fun _ _ _ => ?_
  · rw [get_value hdid]
    simp [subjectOf]
  refine Performs.cons (performs_raiseIf (by simp [value])) fun _ _ _ => ?_
  refine Performs.cons (needs_int python (depthOf cred)).performs fun depth hdepth _ => ?_
  refine Performs.cons (performs_raiseIf (by simp [hdepth])) fun _ _ _ => ?_
  refine Performs.seq (performs_structureWindow cred) fun times htimes _ => ?_
  obtain ⟨hissued, hexpires⟩ := window_eq_ok.mp (structureWindow_ok.mp htimes)
  exact performs_raiseIf (by simp [hissued, hexpires])

/-! ## Scopes -/

def elementsOf (x : Json) : List Json := x.elements.toOption.getD []

/-- A scope is compared with those of the parent up to the first one that covers it. -/
def compareChecks (c : Json) (ps : List Json) : List Check :=
  ps.flatMap fun p => [.needs (comparable p c = true), .rule (scopeCovers p c = .ok false)]

def coverChecks (cs ps : List Json) : List Check :=
  cs.flatMap fun c =>
    [.needs (Runs (compareChecks c ps)), .rule (∃ p ∈ ps, scopeCovers p c = .ok true)]

def scopeChecks (scopes parentScopes : Json) : List Check :=
  .needs (iterable scopes = true) :: coverChecks (elementsOf scopes) (elementsOf parentScopes)

theorem elementsOf_eq {x : Json} {xs : List Json} (h : x.elements = .ok xs) :
    elementsOf x = xs := by
  rw [elementsOf, h]
  rfl

theorem settled_scopeCovers (p c : Json) :
    Settled Caught (scopeCovers p c) ↔ comparable p c = true := by
  rw [← (needs_scopeCovers p c).returns]
  cases h : scopeCovers p c with
  | ok b => simp
  | error e => simpa using (needs_scopeCovers p c).uncaught e h

theorem compareChecks_cons (c p : Json) (ps : List Json) :
    compareChecks c (p :: ps) =
      .needs (comparable p c = true) :: .rule (scopeCovers p c = .ok false) ::
        compareChecks c ps := rfl

theorem settled_anyCovers (c : Json) (ps : List Json) :
    Settled Caught (anyCovers c ps) ↔ Runs (compareChecks c ps) := by
  induction ps with
  | nil => simp [anyCovers, compareChecks, Runs]
  | cons p ps ih =>
    rw [compareChecks_cons, Runs, Runs, ← settled_scopeCovers, ← ih, anyCovers]
    cases scopeCovers p c with
    | error e => simp [bind, Except.bind]
    | ok b => cases b <;> simp [ok_bind]

theorem anyCovers_eq_true (c : Json) (ps : List Json) :
    anyCovers c ps = .ok true ↔
      Runs (compareChecks c ps) ∧ ∃ p ∈ ps, scopeCovers p c = .ok true := by
  induction ps with
  | nil => simp [anyCovers]
  | cons p ps ih =>
    rw [compareChecks_cons, Runs, Runs, ← (needs_scopeCovers p c).returns, anyCovers]
    cases h : scopeCovers p c with
    | error e => simp [bind, Except.bind]
    | ok b => cases b <;> simp [ok_bind, ih, h]

theorem performs_anyCovers (c : Json) (ps : List Json) :
    Performs Caught (· = true) (anyCovers c ps)
      [.needs (Runs (compareChecks c ps)), .rule (∃ p ∈ ps, scopeCovers p c = .ok true)] := by
  refine ⟨?_, ?_⟩
  · simp [Runs, settled_anyCovers]
  · simp [Check.Holds, anyCovers_eq_true]

theorem performs_firstUncovered {parentScopes : Json} {ps : List Json}
    (hps : parentScopes.elements = .ok ps) (cs : List Json) :
    Performs Caught (· = none) (firstUncovered parentScopes cs) (coverChecks cs ps) := by
  induction cs with
  | nil => exact Performs.ok rfl
  | cons c cs ih =>
    rw [coverChecks, List.flatMap_cons, firstUncovered, hps, ok_bind]
    refine (performs_anyCovers c ps).bind ?_ ?_
    · intro covered _ hcovered
      rw [if_neg hcovered]
      exact ⟨settled_ok _, by simp⟩
    · intro covered _ hcovered _
      rw [if_pos hcovered]
      exact ih

theorem performs_scopeSubset {parentScopes : Json} {ps : List Json}
    (hps : parentScopes.elements = .ok ps) (scopes : Json) :
    Performs Caught (· = none) (scopeSubset scopes parentScopes)
      (scopeChecks scopes parentScopes) := by
  refine Performs.cons (needs_elements scopes).performs fun cs hcs _ => ?_
  rw [elementsOf_eq hcs, elementsOf_eq hps]
  exact performs_firstUncovered hps cs

/-! ## One hop -/

section Hop

variable (python : Interpreter) (providerScopes : List Json) (statusTokens : Fields) (now : ℤ)
  (nowTs : PyFloat)

def linked : Option Fields → Fields → Bool
  | none, cred => (value cred "parentDelegation").isNull
  | some parent, cred => (value cred "parentDelegation").eq (value parent "delegationId")

/-- `entries.get(did)`; the keys are strings. -/
def entryOf (entries : Fields) : Json → Json
  | .str id => value entries id
  | _ => .null

def tokenChecks (cred : Fields) : List Check :=
  let token := entryOf statusTokens (value cred "delegationId")
  let status := value (fieldsOf token) "status"
  let exp := value (fieldsOf token) "exp"
  [.rule (token.isNull = false), .needs (token.isObj = true),
    .rule (status.eq (.str "REVOKED") = false),
    .needs (status = .str "ACTIVE" ∨ python.reprLimit status = none),
    .rule (status = .str "ACTIVE"),
    .needs (exp.isNull = true ∨ FloatLike python exp),
    .rule (exp.isNull = false ∧ ∃ x, python.float exp = .ok x ∧ x.lt nowTs = false)]

def Current (cred : Fields) : Prop :=
  ∃ issued expires, timeOf python cred "issuedAt" = some issued ∧
    timeOf python cred "expiresAt" = some expires ∧ issued ≤ now ∧ now < expires

def Budgeted (cred : Fields) (below : ℕ) : Prop :=
  ∃ depth, python.int (depthOf cred) = .ok depth ∧ (below : ℤ) ≤ depth

def parentScopes : Option Fields → Json
  | none => .arr providerScopes
  | some parent => value parent "scopes"

def Nested : Option Fields → Fields → Prop
  | none, _ => True
  | some parent, cred => ∃ issued expires parentIssued parentExpires,
    timeOf python cred "issuedAt" = some issued ∧
    timeOf python cred "expiresAt" = some expires ∧
    timeOf python parent "issuedAt" = some parentIssued ∧
    timeOf python parent "expiresAt" = some parentExpires ∧
    parentIssued ≤ issued ∧ expires ≤ parentExpires

def hopChecks (parent : Option Fields) (cred : Fields) (below : ℕ) : List Check :=
  structureChecks python cred ++
    .rule (linked parent cred = true) ::
      (tokenChecks python statusTokens nowTs cred ++
        .rule (Current python now cred) :: .rule (Budgeted python cred below) ::
          (scopeChecks (value cred "scopes") (parentScopes providerScopes parent) ++
            [.rule (Nested python parent cred)]))

/-- The checks of the loop, from the hop after `parent` on. -/
def chainChecks (parent : Option Fields) : List Fields → List Check
  | [] => []
  | cred :: rest =>
    hopChecks python providerScopes statusTokens now nowTs parent cred rest.length ++
      chainChecks (some cred) rest

/-- What a hop that has passed leaves for its child. -/
structure Checked (cred : Fields) : Prop where
  delegationId : cred.lookup "delegationId" = some (value cred "delegationId")
  scopes : cred.lookup "scopes" = some (value cred "scopes")
  elements : (value cred "scopes").elements = .ok (elementsOf (value cred "scopes"))
  window : ∃ times, window python (.obj cred) = .ok times

end Hop

variable {providerScopes : List Json} {statusTokens : Fields} {now : ℤ} {nowTs : PyFloat}

theorem lookup_of_truthy {cred : Fields} {key : String} (h : (value cred key).truthy = true) :
    cred.lookup key = some (value cred key) := by
  rw [value] at h ⊢
  cases hlookup : cred.lookup key with
  | none => simp [hlookup, Json.truthy] at h
  | some x => rfl

theorem elements_of_iterable {x : Json} (h : iterable x = true) :
    x.elements = .ok (elementsOf x) := by
  obtain ⟨xs, hxs⟩ := (needs_elements x).returns.mpr h
  rw [hxs, elementsOf_eq hxs]

/-- What is known of a credential after its structure has been validated. -/
theorem structureChecks_hold {cred : Fields} (h : AllHold (structureChecks python cred)) :
    cred.lookup "delegationId" = some (value cred "delegationId") ∧
      cred.lookup "scopes" = some (value cred "scopes") ∧
      (∃ issued expires, timeOf python cred "issuedAt" = some issued ∧
        timeOf python cred "expiresAt" = some expires) ∧
      ∃ depth, python.int (depthOf cred) = .ok depth := by
  simp only [structureChecks, windowChecks, List.cons_append, List.nil_append, allHold_cons,
    Check.Holds] at h
  obtain ⟨hid, -, -, -, hscopes, -, ⟨depth, hdepth, -⟩, -, -, -, -,
    ⟨issued, expires, hissued, hexpires, -⟩, -⟩ := h
  exact ⟨lookup_of_truthy hid, lookup_of_truthy hscopes, ⟨issued, expires, hissued, hexpires⟩,
    depth, hdepth⟩

theorem hopChecks_checked {parent : Option Fields} {cred : Fields} {below : ℕ}
    (h : AllHold (hopChecks python providerScopes statusTokens now nowTs parent cred below)) :
    Checked python cred := by
  rw [hopChecks, allHold_append, allHold_cons, allHold_append, allHold_cons, allHold_cons,
    allHold_append, scopeChecks, allHold_cons] at h
  obtain ⟨hstructure, -, -, -, -, ⟨hiterable, -⟩, -⟩ := h
  obtain ⟨hid, hscopes, ⟨issued, expires, hissued, hexpires⟩, -⟩ :=
    structureChecks_hold hstructure
  exact ⟨hid, hscopes, elements_of_iterable hiterable,
    (issued, expires), window_eq_ok.mpr ⟨hissued, hexpires⟩⟩

theorem lookupKey_entryOf (entries : Fields) {did : Json} (h : hashable did = true) :
    Json.lookupKey entries did = .ok (entryOf entries did) := by
  cases did with
  | arr xs => cases h
  | obj fields => cases h
  | _ => rfl

theorem performs_expired (exp : Json) :
    Performs Caught (· = false) (expired python exp nowTs)
      [.needs (exp.isNull = true ∨ FloatLike python exp),
        .rule (exp.isNull = false ∧ ∃ x, python.float exp = .ok x ∧ x.lt nowTs = false)] := by
  rw [← (needs_float python exp).returns, expired]
  by_cases hnull : exp.isNull = true
  · rw [if_pos hnull]
    exact ⟨by simp [Runs, hnull], by simp [Check.Holds, hnull]⟩
  · rw [if_neg hnull]
    rw [Bool.not_eq_true] at hnull
    cases hfloat : python.float exp with
    | error e =>
      have huncaught := (needs_float python exp).uncaught e hfloat
      exact ⟨by simp [Runs, hnull, bind, Except.bind, huncaught],
        by simp [Check.Holds, bind, Except.bind]⟩
    | ok x => exact ⟨by simp [Runs, ok_bind], by simp [Check.Holds, hnull, ok_bind]⟩

theorem performs_requireActive (did status : Json) :
    Performs Caught (fun _ => True) (requireActive python did status)
      [.needs (status = .str "ACTIVE" ∨ python.reprLimit status = none),
        .rule (status = .str "ACTIVE")] := by
  rw [requireActive]
  by_cases hactive : status = .str "ACTIVE"
  · rw [if_pos (Json.eq_str.mpr hactive)]
    exact ⟨by simp [Runs, hactive], by simp [Check.Holds, hactive]⟩
  · rw [if_neg (mt Json.eq_str.mp hactive)]
    have hrendered := needs_rendered python status
    cases htext : python.rendered status with
    | error e =>
      have hlimit : python.reprLimit status ≠ none :=
        mt hrendered.returns.mpr (by simp [htext])
      exact ⟨by simp [Runs, hactive, hlimit, hrendered.uncaught e htext, bind, Except.bind],
        by simp [Check.Holds, hactive, bind, Except.bind]⟩
    | ok text =>
      have hlimit : python.reprLimit status = none := hrendered.returns.mp ⟨text, htext⟩
      exact ⟨by simp [Runs, hlimit, ok_bind], by simp [Check.Holds, hactive, ok_bind]⟩

theorem performs_validateToken {cred : Fields} (hhash : hashable (value cred "delegationId") = true)
    (hnow : ∃ n, nowTs.toInt = .ok n) :
    Performs Caught (fun _ => True)
      (validateToken python statusTokens (value cred "delegationId") nowTs)
      (tokenChecks python statusTokens nowTs cred) := by
  obtain ⟨n, hn⟩ := hnow
  rw [validateToken, lookupKey_entryOf _ hhash, ok_bind]
  refine Performs.cons (performs_raiseIf (by simp)) fun _ _ _ => ?_
  refine Performs.cons (needs_get _ "status").performs fun status hstatus _ => ?_
  rw [get_value hstatus]
  refine Performs.cons (performs_raiseIf (by simp)) fun _ _ _ => ?_
  refine (performs_requireActive _ _).seq fun _ _ _ => ?_
  have hobj := (needs_get _ "status").returns.mp ⟨status, hstatus⟩
  obtain ⟨exp, hexp⟩ := (needs_get _ "exp").returns.mpr hobj
  rw [hexp, ok_bind, get_value hexp]
  rw [← List.append_nil [Check.needs _, Check.rule _]]
  refine (performs_expired _).bind ?_ ?_
  · intro late _ hlate
    rw [Bool.not_eq_false] at hlate
    rw [if_pos hlate, hn, ok_bind]
    exact ⟨by simp, by simp⟩
  · intro late _ hlate _
    rw [if_neg (by simp [hlate])]
    exact Performs.ok trivial

theorem performs_validateLinkage {parent : Option Fields} {cred : Fields} (did : Json)
    (hparent : ∀ p ∈ parent, Checked python p) :
    Performs Caught (fun _ => True)
      (validateLinkage python (parent.map .obj) (.obj cred) did)
      [.rule (linked parent cred = true)] := by
  rw [validateLinkage, Json.get_obj, ok_bind]
  cases parent with
  | none => exact performs_raiseIf (by simp [linked, value])
  | some p =>
    rw [Option.map_some]
    simp only [Json.item_obj_of_lookup (hparent p rfl).delegationId, ok_bind]
    exact performs_raiseIf (by simp [linked, value])

theorem performs_validateScopes {parent : Option Fields} {cred : Fields} (did : Json)
    (hparent : ∀ p ∈ parent, Checked python p)
    (hscopes : cred.lookup "scopes" = some (value cred "scopes")) :
    Performs Caught (fun _ => True)
      (validateScopes python providerScopes (parent.map .obj) (.obj cred) did)
      (scopeChecks (value cred "scopes") (parentScopes providerScopes parent)) := by
  rw [validateScopes, Json.item_obj_of_lookup hscopes, ok_bind, ← List.append_nil (scopeChecks _ _)]
  cases parent with
  | none =>
    rw [Option.map_none]
    refine (performs_scopeSubset (Json.elements_arr providerScopes) _).bind ?_ ?_
    · intro uncovered _ hsome
      cases uncovered with
      | none => exact absurd rfl hsome
      | some c => exact ⟨by simp, by simp⟩
    · intro uncovered _ hnone _
      rw [hnone]
      exact Performs.ok trivial
  | some p =>
    have hp := hparent p rfl
    rw [Option.map_some]
    simp only [Json.item_obj_of_lookup hp.scopes, ok_bind]
    refine (performs_scopeSubset hp.elements _).bind ?_ ?_
    · intro uncovered _ hsome
      cases uncovered with
      | none => exact absurd rfl hsome
      | some c => exact ⟨by simp, by simp⟩
    · intro uncovered _ hnone _
      rw [hnone]
      exact Performs.ok trivial

theorem performs_validateNesting {parent : Option Fields} {cred : Fields} (did : Json)
    (hparent : ∀ p ∈ parent, Checked python p) {issued expires : ℤ}
    (hwindow : window python (.obj cred) = .ok (issued, expires)) :
    Performs Caught (fun _ => True)
      (validateNesting python (parent.map .obj) (.obj cred) did issued expires)
      [.rule (Nested python parent cred)] := by
  obtain ⟨hissued, hexpires⟩ := window_eq_ok.mp hwindow
  cases parent with
  | none => exact Performs.rule (by simp [validateNesting]) (by simp [validateNesting, Nested])
  | some p =>
    obtain ⟨⟨parentIssued, parentExpires⟩, hparentWindow⟩ := (hparent p rfl).window
    obtain ⟨hparentIssued, hparentExpires⟩ := window_eq_ok.mp hparentWindow
    rw [Option.map_some, validateNesting, hparentWindow, ok_bind]
    exact performs_raiseIf (by simp [Nested, hissued, hexpires, hparentIssued, hparentExpires])

theorem performs_validateHop {parent : Option Fields} {cred : Fields} (below : ℕ)
    (hparent : ∀ p ∈ parent, Checked python p)
    (hhash : hashable (value cred "delegationId") = true) (hnow : ∃ n, nowTs.toInt = .ok n) :
    Performs Caught (fun _ => True)
      (validateHop python providerScopes statusTokens now nowTs (parent.map .obj) (.obj cred) below)
      (hopChecks python providerScopes statusTokens now nowTs parent cred below) := by
  unfold validateHop hopChecks
  refine (performs_validateStructure cred).seq fun _ _ hstructure => ?_
  obtain ⟨hid, hscopes, ⟨issued, expires, hissued, hexpires⟩, depth, hdepth⟩ :=
    structureChecks_hold hstructure
  have hwindow := window_eq_ok.mpr ⟨hissued, hexpires⟩
  rw [Json.item_obj_of_lookup hid, ok_bind]
  refine (performs_validateLinkage _ hparent).cons fun _ _ _ => ?_
  refine (performs_validateToken hhash hnow).seq fun _ _ _ => ?_
  rw [hwindow, ok_bind]
  refine (performs_raiseIf (by simp [Current, hissued, hexpires])).cons fun _ _ _ => ?_
  rw [maxRedelegationDepth_obj, hdepth, ok_bind]
  refine (performs_raiseIf (by simp [Budgeted, hdepth])).cons fun _ _ _ => ?_
  refine (performs_validateScopes _ hparent hscopes).seq fun _ _ _ => ?_
  exact performs_validateNesting _ hparent hwindow

theorem performs_validateChain (hnow : ∃ n, nowTs.toInt = .ok n) (creds : List Fields) :
    ∀ parent : Option Fields, (∀ p ∈ parent, Checked python p) →
      (∀ cred ∈ creds, hashable (value cred "delegationId") = true) →
      Performs Caught (fun _ => True)
        (validateChain python providerScopes statusTokens now nowTs (parent.map .obj)
          (creds.map .obj))
        (chainChecks python providerScopes statusTokens now nowTs parent creds) := by
  induction creds with
  | nil => exact fun _ _ _ => Performs.ok trivial
  | cons cred creds ih =>
    intro parent hparent hhash
    rw [List.map_cons, validateChain, chainChecks, List.length_map]
    refine (performs_validateHop _ hparent (hhash cred (by simp)) hnow).seq fun _ _ hhop => ?_
    have hchecked := hopChecks_checked hhop
    exact ih (some cred) (fun p hp => Option.mem_some.mp hp ▸ hchecked)
      fun c hc => hhash c (by simp [hc])

end DelegationChecks
