import SmBridge.BindingWrite
import SmBridge.CanonicalJson

/-!
# What the delegate signs

The signed bytes are the JSON text, in ASCII and with sorted keys, of the arguments of a write.
They tell these arguments, and thereby the record that the write leaves.
-/
namespace SignedPayload

open Python
open JsonValue
open Dictionary
open Dumps (dumps dumpsBytes dumpsElements_eq dumpsFields_eq dumpsMember sortMembers)
open KeyedTrees
open TreeText
open CanonicalJson
open BindingWrite (BindingRecord BindingStore BindingWriteRequest grantIdOf merge optional)

/-! ## ASCII text -/

section Ascii

variable (python : Interpreter)

def asciiFormat : Format Scalar String Char := formatBy Dumps.dumpsStr

theorem dumpsStr_quotes : Quotes Dumps.dumpsStr where
  code :=
    { word_inj := fun _ _ _ _ h => (Dumps.dumpsStr_inj h).1
      word_ne_stop := fun _ _ _ h => absurd (List.cons.inj h).1 (by decide) }
  opens s := ⟨s.toList.flatMap Dumps.escapeAscii ++ ['"'], rfl⟩

theorem writeField_eq : dumpsMember ∘ Prod.map id asciiFormat.write = asciiFormat.writeField := rfl

/-- `json.dumps` writes the normal form. -/
theorem dumps_json (t : Tree Scalar String) :
    dumps python (json t) = asciiFormat.write (t.normalize fun a b => a ≤ b) := by
  induction t using Tree.induction with
  | leaf a =>
    cases a with
    | bool b => cases b <;> rfl
    | _ => rfl
  | list xs ih =>
    have hitems : (xs.map json).map (dumps python) =
        xs.map fun x => asciiFormat.write (x.normalize fun a b => a ≤ b) := by
      rw [List.map_map]
      exact List.map_congr_left ih
    rw [json, jsonElements_eq, dumps, dumpsElements_eq, hitems, Tree.normalize_list,
      Format.write_list, List.map_map]
    rfl
  | record fields ih =>
    have hmembers : (fields.map (Prod.map id json)).map (Prod.map id (dumps python)) =
        (fields.map (Prod.map id (Tree.normalize fun a b => a ≤ b))).map
          (Prod.map id asciiFormat.write) := by
      rw [List.map_map, List.map_map]
      exact List.map_congr_left fun field hfield => Prod.ext rfl (ih field hfield)
    have hsorted : ∀ members : List (String × Tree Scalar String),
        sortMembers (members.map (Prod.map id asciiFormat.write)) =
          (Tree.sortFields (fun a b => a ≤ b) members).map (Prod.map id asciiFormat.write) :=
      Tree.sortFields_map asciiFormat.write
    rw [json, jsonFields_eq, dumps, dumpsFields_eq, hmembers, hsorted, Tree.normalize_record,
      Format.write_record, List.map_map, writeField_eq]
    rfl

example : asciiFormat.write (.list [.leaf (.str "\"é𝄞"), .leaf (.int (-5))]) =
    "[\"\\\"\\u00e9\\ud834\\udd1e\",-5]".toList := by
  decide +kernel

/-- The bytes of `json.dumps` tell any two values apart that are not the same. -/
theorem dumpsBytes_eq_iff_same {s t : Tree Scalar String} (hs : s.Distinct) (ht : t.Distinct) :
    dumpsBytes python (json s) = dumpsBytes python (json t) ↔ s.Same t := by
  have hwrite := (formatBy_readable dumpsStr_quotes).write_injective
  rw [dumpsBytes, dumpsBytes, encodeUtf8_injective.eq_iff, String.ofList_inj,
    dumps_json, dumps_json, asciiFormat, hwrite.eq_iff, Tree.normalize_eq_iff_same hs ht]

end Ascii

/-! ## The arguments of a write -/

/-- The arguments of `canonical_payload`. The fields hold no floats. -/
structure Arguments where
  grantId : String
  op : String
  subject : String
  fields : List (String × Tree Scalar String)
  distinct : (Tree.record fields).Distinct
  targetHost : Option String
  agentRole : Option String
  issuedAt : String
  nonce : String

structure Arguments.Same (u v : Arguments) : Prop where
  grantId : u.grantId = v.grantId
  op : u.op = v.op
  subject : u.subject = v.subject
  fields : (Tree.record u.fields).Same (.record v.fields)
  targetHost : u.targetHost = v.targetHost
  agentRole : u.agentRole = v.agentRole
  issuedAt : u.issuedAt = v.issuedAt
  nonce : u.nonce = v.nonce

section Payload

variable (python : Interpreter) (u v : Arguments)

def canonicalPayload : Bytes :=
  dumpsBytes python (.obj
    [("grant_id", .str u.grantId), ("op", .str u.op), ("subject", .str u.subject),
      ("fields", .obj (jsonFields u.fields)), ("target_host", optional u.targetHost),
      ("agent_role", optional u.agentRole), ("issued_at", .str u.issuedAt),
      ("nonce", .str u.nonce)])

def text (s : String) : Tree Scalar String := .leaf (.str s)

def optionalText : Option String → Tree Scalar String
  | some s => text s
  | none => .leaf .null

def payloadKeys : List String :=
  ["grant_id", "op", "subject", "fields", "target_host", "agent_role", "issued_at", "nonce"]

def Arguments.payloadFields : List (String × Tree Scalar String) :=
  [("grant_id", text u.grantId), ("op", text u.op), ("subject", text u.subject),
    ("fields", .record u.fields), ("target_host", optionalText u.targetHost),
    ("agent_role", optionalText u.agentRole), ("issued_at", text u.issuedAt),
    ("nonce", text u.nonce)]

def Arguments.payload : Tree Scalar String := .record u.payloadFields

theorem Arguments.keys_payloadFields : u.payloadFields.map Prod.fst = payloadKeys := rfl

theorem Arguments.payloadFields_nodup : (u.payloadFields.map Prod.fst).Nodup := by
  rw [keys_payloadFields]
  decide

theorem json_optionalText (o : Option String) :
    json (optionalText o) = BindingWrite.optional o := by
  cases o <;> rfl

theorem same_text_iff {s t : String} : (text s).Same (text t) ↔ s = t := by
  rw [text, text, Tree.same_leaf_iff, Scalar.str.injEq]

theorem same_optionalText_iff {o p : Option String} :
    (optionalText o).Same (optionalText p) ↔ o = p := by
  cases o <;> cases p <;> simp [optionalText, text, Tree.same_leaf_iff]

theorem distinct_text (s : String) : (text s).Distinct := .leaf trivial

theorem distinct_optionalText (o : Option String) : (optionalText o).Distinct := by
  cases o <;> exact .leaf trivial

theorem Arguments.payload_distinct : u.payload.Distinct := by
  refine .record u.payloadFields_nodup ?_
  simp only [payloadFields, List.forall_mem_cons]
  exact ⟨distinct_text _, distinct_text _, distinct_text _, u.distinct, distinct_optionalText _,
    distinct_optionalText _, distinct_text _, distinct_text _, List.forall_mem_nil _⟩

theorem canonicalPayload_eq : canonicalPayload python u = dumpsBytes python (json u.payload) := by
  rw [canonicalPayload, ← json_optionalText, ← json_optionalText]
  rfl

theorem Arguments.same_payload_iff : u.payload.Same v.payload ↔ u.Same v := by
  rw [payload, payload, Tree.same_record_iff u.keys_payloadFields u.payloadFields_nodup]
  simp only [payloadFields, List.map_cons, List.map_nil, List.forall₂_cons, same_text_iff,
    same_optionalText_iff]
  constructor
  · intro ⟨hgrantId, hop, hsubject, hfields, htargetHost, hagentRole, hissuedAt, hnonce, _⟩
    exact ⟨hgrantId, hop, hsubject, hfields, htargetHost, hagentRole, hissuedAt, hnonce⟩
  · intro h
    exact ⟨h.grantId, h.op, h.subject, h.fields, h.targetHost, h.agentRole, h.issuedAt, h.nonce,
      .nil⟩

theorem canonicalPayload_eq_iff :
    canonicalPayload python u = canonicalPayload python v ↔ u.Same v := by
  rw [canonicalPayload_eq, canonicalPayload_eq,
    dumpsBytes_eq_iff_same python u.payload_distinct v.payload_distinct,
    Arguments.same_payload_iff]

end Payload

/-! ## The write that the handler applies -/

/-- The handler signs these arguments for the request: its grant may also have no id. -/
structure Carries (body : BindingWriteRequest) (u : Arguments) : Prop where
  grantId : (if (grantIdOf body).truthy then grantIdOf body else .str "") = .str u.grantId
  op : body.op = u.op
  subject : body.subject = u.subject
  fields : body.fields.entries = jsonFields u.fields
  targetHost : body.targetHost = u.targetHost
  agentRole : body.agentRole = u.agentRole
  issuedAt : body.issuedAt = u.issuedAt
  nonce : body.nonce = u.nonce

/-- Nothing on both sides, one and the same value, or two writings of the same one. -/
def SameValue (x y : Option Json) : Prop :=
  x = y ∨ ∃ s t : Tree Scalar String, s.Same t ∧ x = some (json s) ∧ y = some (json t)

structure SameRecord (r r' : BindingRecord) : Prop where
  subject : r.subject = r'.subject
  version : r.version = r'.version
  lifecycleState : r.lifecycleState = r'.lifecycleState
  fields : ∀ key, SameValue (r.fields.get key) (r'.fields.get key)
  targetHost : r.targetHost = r'.targetHost
  agentRole : r.agentRole = r'.agentRole

section Handler

variable {python : Interpreter} {body other : BindingWriteRequest} {u v : Arguments}

theorem Carries.canonicalPayload_eq (h : Carries body u) :
    BindingWrite.canonicalPayload python body = canonicalPayload python u := by
  rw [BindingWrite.canonicalPayload, canonicalPayload, h.grantId, h.op, h.subject, h.fields,
    h.targetHost, h.agentRole, h.issuedAt, h.nonce]

/-- All arguments are those of some request. -/
theorem exists_carries (u : Arguments) : ∃ body, Carries body u := by
  have hkeys : ((jsonFields u.fields).map Prod.fst).Nodup := by
    rw [jsonFields_eq, Tree.keys_map]
    exact u.distinct.keys
  let body : BindingWriteRequest :=
    { grant := Dict.empty.set "grant_id" (.str u.grantId)
      op := u.op
      subject := u.subject
      fields := ⟨jsonFields u.fields, hkeys⟩
      targetHost := u.targetHost
      agentRole := u.agentRole
      issuedAt := u.issuedAt
      nonce := u.nonce
      storeDid := ""
      storeSignature := "" }
  have hgrantId : grantIdOf body = .str u.grantId := by
    rw [grantIdOf, Dict.get_set_self, Option.getD_some]
  refine ⟨body, ?_, rfl, rfl, rfl, rfl, rfl, rfl, rfl⟩
  rw [hgrantId, Json.truthy]
  split
  · rfl
  · rename_i hempty
    rw [show u.grantId = "" by simpa using hempty]

theorem get_merge (old new : Dict String Json) (key : String) :
    (merge old new).get key = (new.get key).or (old.get key) :=
  Dict.get_foldl_set new.nodup old key

theorem Carries.get_eq_some (h : Carries body u) {key : String} {value : Json} :
    body.fields.get key = some value ↔ ∃ t, (key, t) ∈ u.fields ∧ json t = value := by
  rw [← Dict.mem_entries, h.fields, jsonFields_eq, Tree.mem_map_values]

theorem Carries.get_eq_none (h : Carries body u) {key : String} :
    body.fields.get key = none ↔ key ∉ u.fields.map Prod.fst := by
  rw [Dict.get_eq_none, Dict.keys, h.fields, jsonFields_eq, Tree.keys_map]

/-- The same fields over the same record. -/
theorem sameValue_merge (h : Carries body u) (hother : Carries other v) (hsame : u.Same v)
    (old : Dict String Json) (key : String) :
    SameValue ((merge old body.fields).get key) ((merge old other.fields).get key) := by
  rw [get_merge, get_merge]
  by_cases hkey : key ∈ u.fields.map Prod.fst
  · obtain ⟨s, hs⟩ := Tree.mem_keys.mp hkey
    obtain ⟨t, ht⟩ := Tree.mem_keys.mp (hsame.fields.keys.mp hkey)
    rw [h.get_eq_some.mpr ⟨s, hs, rfl⟩, hother.get_eq_some.mpr ⟨t, ht, rfl⟩]
    exact Or.inr ⟨s, t, hsame.fields.value hs ht, rfl, rfl⟩
  · rw [h.get_eq_none.mpr hkey, hother.get_eq_none.mpr (hsame.fields.keys.not.mp hkey)]
    exact Or.inl rfl

theorem sameRecord_written (h : Carries body u) (hother : Carries other v) (hsame : u.Same v)
    (store : BindingStore) : SameRecord (store.written body) (store.written other) := by
  have hsubject : body.subject = other.subject := by
    rw [h.subject, hother.subject, hsame.subject]
  rw [BindingStore.written, BindingStore.written, hsubject, h.op, hother.op, hsame.op,
    h.targetHost, hother.targetHost, hsame.targetHost, h.agentRole, hother.agentRole,
    hsame.agentRole]
  exact
    { subject := rfl
      version := rfl
      lifecycleState := rfl
      fields := sameValue_merge h hother hsame _
      targetHost := rfl
      agentRole := rfl }

end Handler

/-- Equal bytes are signed for the same arguments only, and requests with equal bytes leave the
same record under the same subject. -/
theorem signed_bytes_fix_write (python : Interpreter) (u v : Arguments) :
    (canonicalPayload python u = canonicalPayload python v ↔ u.Same v) ∧
      ∀ (body other : BindingWriteRequest) (store : BindingStore),
        Carries body u → Carries other v →
          BindingWrite.canonicalPayload python body = BindingWrite.canonicalPayload python other →
            body.subject = other.subject ∧
              SameRecord (store.written body) (store.written other) := by
  refine ⟨canonicalPayload_eq_iff python u v, ?_⟩
  intro body other store h hother hbytes
  rw [h.canonicalPayload_eq, hother.canonicalPayload_eq, canonicalPayload_eq_iff] at hbytes
  refine ⟨?_, sameRecord_written h hother hbytes store⟩
  rw [h.subject, hother.subject, hbytes.subject]

end SignedPayload
