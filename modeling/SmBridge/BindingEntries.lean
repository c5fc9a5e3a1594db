import SmBridge.BindingWrite

/-!
# Log entries read back

The bytes of a log entry give back its texts and its version, from the last member on.
-/
namespace BindingEntries

open Python
open JsonValue
open Dumps
open BindingWrite
open Jcs (joinCommas)

variable {python : Interpreter} {entry entry' : LogEntry}

/-- The text up to the first of the members that are read back. -/
def entryFront (python : Interpreter) (entry : LogEntry) : List Char :=
  '\x7b' :: dumpsStr "fields" ++ ':' :: dumps python (.arr (entry.fields.map .str)) ++
    ',' :: dumpsStr "grant_id" ++ ':' :: dumps python entry.grantId ++ ',' :: dumpsStr "issued_at"

/-- The text of an entry, whose members `json.dumps` sorts. -/
def entryText (python : Interpreter) (entry : LogEntry) : List Char :=
  entryFront python entry ++ ':' :: dumpsStr entry.issuedAt ++
    ',' :: dumpsStr "nonce" ++ ':' :: dumpsStr entry.nonce ++
    ',' :: dumpsStr "op" ++ ':' :: dumpsStr entry.op ++
    ',' :: dumpsStr "store_did" ++ ':' :: dumpsStr entry.storeDid ++
    ',' :: dumpsStr "subject" ++ ':' :: dumpsStr entry.subject ++
    ',' :: dumpsStr "version" ++ ':' :: (toString (entry.version : ℤ)).toList ++ ['\x7d']

theorem sortMembers_entry {α : Type}
    (op subject fields storeDid grantId issuedAt nonce version : α) :
    sortMembers [("op", op), ("subject", subject), ("fields", fields), ("store_did", storeDid),
      ("grant_id", grantId), ("issued_at", issuedAt), ("nonce", nonce), ("version", version)] =
    [("fields", fields), ("grant_id", grantId), ("issued_at", issuedAt), ("nonce", nonce),
      ("op", op), ("store_did", storeDid), ("subject", subject), ("version", version)] := by
  simp [sortMembers]

theorem canonicalLogEntry_eq (python : Interpreter) (entry : LogEntry) :
    canonicalLogEntry python entry = encodeUtf8 (String.ofList (entryText python entry)) := by
  have htext : ∀ fields : List (String × Json), dumps python (.obj fields) = '\x7b' ::
      joinCommas ((sortMembers (dumpsFields python fields)).map dumpsMember) ++ ['\x7d'] := by
    intro fields
    rw [dumps]
  rw [canonicalLogEntry, dumpsBytes, htext]
  simp only [dumpsFields, sortMembers_entry]
  simp [joinCommas, List.intercalate, List.intersperse, dumpsMember, entryText, entryFront, dumps]

/-- The last text before a key. -/
theorem text_inj_back {key s t : String} {xs ys : List Char}
    (h : xs ++ ':' :: dumpsStr s ++ ',' :: dumpsStr key =
      ys ++ ':' :: dumpsStr t ++ ',' :: dumpsStr key) : xs = ys ∧ s = t :=
  dumpsStr_inj_back (by decide) (List.append_cancel_right h)

/-- What two entries with the same bytes have in common. -/
structure SameWrite (entry entry' : LogEntry) : Prop where
  issuedAt : entry.issuedAt = entry'.issuedAt
  nonce : entry.nonce = entry'.nonce
  op : entry.op = entry'.op
  storeDid : entry.storeDid = entry'.storeDid
  subject : entry.subject = entry'.subject
  version : entry.version = entry'.version

theorem canonicalLogEntry_inj
    (h : canonicalLogEntry python entry = canonicalLogEntry python entry') :
    SameWrite entry entry' := by
  rw [canonicalLogEntry_eq, canonicalLogEntry_eq] at h
  have htext := congrArg String.toList (encodeUtf8_injective h)
  rw [String.toList_ofList, String.toList_ofList, entryText, entryText] at htext
  obtain ⟨hsubject, hversion⟩ := natCast_inj_back (by decide) (List.append_cancel_right htext)
  obtain ⟨hstoreDid, hsubject⟩ := text_inj_back hsubject
  obtain ⟨hop, hstoreDid⟩ := text_inj_back hstoreDid
  obtain ⟨hnonce, hop⟩ := text_inj_back hop
  obtain ⟨hissuedAt, hnonce⟩ := text_inj_back hnonce
  obtain ⟨-, hissuedAt⟩ := text_inj_back hissuedAt
  exact ⟨hissuedAt, hnonce, hop, hstoreDid, hsubject, hversion⟩

end BindingEntries
