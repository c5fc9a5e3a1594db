import SmBridge.AnsTxt
import SmBridge.DnsAid
import SmBridge.Lib.RegexLanguages

/-!
# The host names that are let through

Two profiles test a name before they ask for its records. What each of them lets through is a
DNS name, but for a newline behind it and for the DNS-AID labels of 64 characters.
-/
namespace HostNames

open Python
open JsonValue
open Regex

/-! ## Names -/

/-- A label of at most `longest` characters, without a hyphen at either end. -/
structure Label (allowed : Char → Bool) (longest : ℕ) (w : List Char) : Prop where
  ne_nil : w ≠ []
  short : w.length ≤ longest
  chars : ∀ c ∈ w, allowed c = true
  starts : w.head? ≠ some '-'
  ends : w.getLast? ≠ some '-'

/-- Two or more labels with dots between them. -/
structure DnsName (allowed : Char → Bool) (name : List Char) : Prop where
  two : 2 ≤ (name.splitOn '.').length
  labels : ∀ w ∈ name.splitOn '.', Label allowed 63 w
  short : name.length ≤ 253

/-- A DNS name, with or without the dot of the root. -/
def HostName (host : String) : Prop :=
  ∃ name, DnsName AnsTxt.labelChar name ∧ (host.toList = name ∨ host.toList = name ++ ['.'])

def AidName (fqdn : String) : Prop := DnsName DnsAid.wordOrHyphen fqdn.toList

/-! ## Labels as the patterns spell them -/

def labels (allowed : Char → Bool) (longest : ℕ) : Language Char := {w | Label allowed longest w}

variable {allowed : Char → Bool} {longest : ℕ} {w name text : List Char}

theorem not_hyphen_iff {o : Option Char} :
    (∀ c, o = some c → (c == '-') = false) ↔ o ≠ some '-' := by
  constructor
  · intro h ho
    exact absurd (h '-' ho) (by decide)
  · intro h c hc
    rw [beq_eq_false_iff_ne]
    rintro rfl
    exact h hc

/-- The two lookarounds see the first and the last character of the label. -/
theorem spells_ansLabel : Spells AnsTxt.label (labels AnsTxt.labelChar 63) := by
  have hbody : Spells (.repeated (.char AnsTxt.labelChar) 1 (some 63)) _ :=
    Spells.char.between (by decide)
  intro x y
  constructor
  · intro hy
    obtain ⟨z, hz, hzy⟩ := Pattern.mem_ends_seq.mp hy
    obtain ⟨rfl, hstart⟩ := Pattern.mem_ends_notAhead_char.mp hz
    obtain ⟨z', hz', hlast⟩ := Pattern.mem_ends_seq.mp hzy
    obtain ⟨rfl, hend⟩ := Pattern.mem_ends_notBehind.mp hlast
    obtain ⟨w, hw, hbehind⟩ := (hbody _ _).mp hz'
    obtain ⟨hpos, hshort, hchars⟩ := mem_between_chars.mp hw
    have hne : w ≠ [] := List.ne_nil_of_length_pos hpos
    refine ⟨w, ⟨hne, hshort, hchars, ?_, ?_⟩, hbehind⟩
    · rw [hbehind.2, List.head?_append_of_ne_nil w hne] at hstart
      exact not_hyphen_iff.mp hstart
    · rw [hbehind.1, List.head?_append_of_ne_nil _ (List.reverse_ne_nil_iff.mpr hne),
        List.head?_reverse] at hend
      exact not_hyphen_iff.mp hend
  · intro ⟨w, hw, hbehind⟩
    have hmem := mem_between_chars.mpr ⟨List.length_pos_of_ne_nil hw.ne_nil, hw.short, hw.chars⟩
    refine Pattern.mem_ends_seq.mpr ⟨x, Pattern.mem_ends_notAhead_char.mpr ⟨rfl, ?_⟩,
      Pattern.mem_ends_seq.mpr ⟨y, (hbody x y).mpr ⟨w, hmem, hbehind⟩,
        Pattern.mem_ends_notBehind.mpr ⟨rfl, ?_⟩⟩⟩
    · rw [hbehind.2, List.head?_append_of_ne_nil w hw.ne_nil]
      exact not_hyphen_iff.mpr hw.starts
    · rw [hbehind.1, List.head?_append_of_ne_nil _ (List.reverse_ne_nil_iff.mpr hw.ne_nil),
        List.head?_reverse]
      exact not_hyphen_iff.mpr hw.ends

theorem wordChar_iff {c : Char} :
    DnsAid.wordChar c = true ↔ DnsAid.wordOrHyphen c = true ∧ c ≠ '-' := by
  by_cases hc : c = '-'
  · rw [hc]
    decide
  · simp [DnsAid.wordChar, DnsAid.wordOrHyphen, hc]

theorem label_singleton {c : Char} (hc : DnsAid.wordChar c = true) :
    Label DnsAid.wordOrHyphen 64 [c] := by
  obtain ⟨hword, hne⟩ := wordChar_iff.mp hc
  exact ⟨by simp, by simp, by simpa using hword, by simpa using hne, by simpa using hne⟩

theorem label_of_middle {c d : Char} {u : List Char} (hc : DnsAid.wordChar c = true)
    (hlength : u.length ≤ 62) (hu : ∀ a ∈ u, DnsAid.wordOrHyphen a = true)
    (hd : DnsAid.wordChar d = true) : Label DnsAid.wordOrHyphen 64 (c :: (u ++ [d])) := by
  obtain ⟨hfirst, hstarts⟩ := wordChar_iff.mp hc
  obtain ⟨hlast, hends⟩ := wordChar_iff.mp hd
  refine ⟨by simp, by simp; omega, ?_, by simpa using hstarts, ?_⟩
  · intro a ha
    have hcases : a = c ∨ a ∈ u ∨ a = d := by simpa using ha
    rcases hcases with rfl | ha | rfl
    · exact hfirst
    · exact hu a ha
    · exact hlast
  · rw [← List.cons_append, List.getLast?_concat]
    simpa using hends

theorem label_cases (h : Label DnsAid.wordOrHyphen 64 w) :
    (∃ c, DnsAid.wordChar c = true ∧ w = [c]) ∨
      ∃ c u d, w = c :: (u ++ [d]) ∧ DnsAid.wordChar c = true ∧ u.length ≤ 62 ∧
        (∀ a ∈ u, DnsAid.wordOrHyphen a = true) ∧ DnsAid.wordChar d = true := by
  obtain ⟨c, v, rfl⟩ := List.exists_cons_of_ne_nil h.ne_nil
  have hc : DnsAid.wordChar c = true :=
    wordChar_iff.mpr ⟨h.chars c List.mem_cons_self, by simpa using h.starts⟩
  rcases List.eq_nil_or_concat v with rfl | ⟨u, d, rfl⟩
  · exact Or.inl ⟨c, hc, rfl⟩
  · rw [List.concat_eq_append] at h ⊢
    have hlength := h.short
    have hlast := h.ends
    rw [← List.cons_append, List.getLast?_concat] at hlast
    simp only [List.length_cons, List.length_append, List.length_nil] at hlength
    exact Or.inr ⟨c, u, d, rfl, hc, by omega, fun a ha => h.chars a (by simp [ha]),
      wordChar_iff.mpr ⟨h.chars d (by simp), by simpa using hlast⟩⟩

/-- One character at each end, and up to 62 between them. -/
theorem spells_aidLabel : Spells DnsAid.label (labels DnsAid.wordOrHyphen 64) := by
  have hmiddle : Spells (.repeated (.char DnsAid.wordOrHyphen) 0 (some 62)) _ :=
    Spells.char.between (by decide)
  have hrest : Spells (.repeated (.seq (.repeated (.char DnsAid.wordOrHyphen) 0 (some 62))
      (.char DnsAid.wordChar)) 0 (some 1)) _ :=
    (hmiddle.seq Spells.char).between (by decide)
  have hspells : Spells DnsAid.label _ := Spells.char.seq hrest
  have hwords : chars DnsAid.wordChar *
      between (between (chars DnsAid.wordOrHyphen) 0 62 * chars DnsAid.wordChar) 0 1 =
        labels DnsAid.wordOrHyphen 64 := by
    ext w
    constructor
    · intro hw
      obtain ⟨_, ⟨c, hc, rfl⟩, v, hv, rfl⟩ := Language.mem_mul.mp hw
      rcases mem_between_zero_one.mp hv with rfl | hv
      · exact label_singleton hc
      · obtain ⟨u, hu, _, ⟨d, hd, rfl⟩, rfl⟩ := Language.mem_mul.mp hv
        obtain ⟨-, hlength, hall⟩ := mem_between_chars.mp hu
        exact label_of_middle hc hlength hall hd
    · intro hw
      rcases label_cases hw with ⟨c, hc, rfl⟩ | ⟨c, u, d, rfl, hc, hlength, hall, hd⟩
      · have hfirst : [c] ∈ chars DnsAid.wordChar := ⟨c, hc, rfl⟩
        exact Language.append_mem_mul hfirst (mem_between_zero_one.mpr (Or.inl rfl))
      · have hfirst : [c] ∈ chars DnsAid.wordChar := ⟨c, hc, rfl⟩
        have hlast : [d] ∈ chars DnsAid.wordChar := ⟨d, hd, rfl⟩
        have hu := mem_between_chars.mpr ⟨Nat.zero_le u.length, hlength, hall⟩
        exact Language.append_mem_mul hfirst
          (mem_between_zero_one.mpr (Or.inr (Language.append_mem_mul hu hlast)))
  exact hwords ▸ hspells

/-! ## Names as the patterns accept them -/

/-- Labels with dots behind them, and a last label. -/
def dotted (l top : Language Char) : Language Char := atLeast (l * chars (· == '.')) 1 * top

/-- The labels are made of characters among which there is no dot and no newline. -/
structure Parts (allowed : Char → Bool) (l top : Language Char) : Prop where
  dot : allowed '.' = false
  newline : allowed '\n' = false
  label : ∀ u ∈ l, ∀ c ∈ u, allowed c = true
  last : ∀ v ∈ top, ∀ c ∈ v, allowed c = true
  ne_nil : ∀ v ∈ top, v ≠ []

section Names

variable {l top : Language Char}

theorem dot_notMem (hdot : allowed '.' = false) (hw : ∀ c ∈ w, allowed c = true) : '.' ∉ w :=
  fun hmem => Bool.false_ne_true (hdot.symm.trans (hw '.' hmem))

theorem mem_dotted (h : Parts allowed l top) :
    name ∈ dotted l top ↔
      ∃ us v, name.splitOn '.' = us ++ [v] ∧ 1 ≤ us.length ∧ (∀ u ∈ us, u ∈ l) ∧ v ∈ top := by
  have hpow := fun n => mem_pow_separated (w := name) (n := n)
    (fun u hu => dot_notMem h.dot (h.label u hu)) fun v hv => dot_notMem h.dot (h.last v hv)
  rw [dotted, mem_atLeast_mul]
  constructor
  · intro ⟨n, hn, hname⟩
    obtain ⟨us, v, hsplit, rfl, hus, hv⟩ := (hpow n).mp hname
    exact ⟨us, v, hsplit, hn, hus, hv⟩
  · intro ⟨us, v, hsplit, hn, hus, hv⟩
    exact ⟨us.length, hn, (hpow us.length).mpr ⟨us, v, hsplit, rfl, hus, hv⟩⟩

theorem newline_notMem (hnewline : allowed '\n' = false)
    (hname : ∀ w ∈ name.splitOn '.', ∀ c ∈ w, allowed c = true) : '\n' ∉ name := by
  intro hmem
  rcases mem_splitOn_of_mem (s := '.') hmem with hdot | ⟨w, hw, hmem⟩
  · exact absurd hdot (by decide)
  · exact Bool.false_ne_true (hnewline.symm.trans (hname w hw '\n' hmem))

theorem newline_notMem_dotted (h : Parts allowed l top) (hname : name ∈ dotted l top) :
    '\n' ∉ name := by
  obtain ⟨us, v, hsplit, -, hus, hv⟩ := (mem_dotted h).mp hname
  apply newline_notMem h.newline
  rw [hsplit, List.forall_mem_append, List.forall_mem_singleton]
  exact ⟨fun u hu => h.label u (hus u hu), h.last v hv⟩

/-- A name ends as its last label does. -/
theorem getLast?_of_mem_dotted (h : Parts allowed l top) (hname : name ∈ dotted l top) :
    name ≠ [] ∧ ∃ v ∈ top, name.getLast? = v.getLast? := by
  obtain ⟨front, -, v, hv, rfl⟩ := Language.mem_mul.mp hname
  have hne := h.ne_nil v hv
  exact ⟨by simp [hne], v, hv, List.getLast?_append_of_ne_nil front hne⟩

/-- The lookahead counts the name and not the tail. -/
theorem mem_bounded (h : Parts allowed l top) {tails : Language Char}
    (htails : ∀ tail ∈ tails, ∀ c ∈ tail, c = '.' ∨ c = '\n') :
    text ∈ both (between (chars fun c => !(c == '\n')) 1 253 * tails) (dotted l top * tails) ↔
      ∃ name ∈ dotted l top, name.length ≤ 253 ∧ ∃ tail ∈ tails, name ++ tail = text := by
  refine mem_counted_both ?_ ?_
  · intro name hname
    refine ⟨(getLast?_of_mem_dotted h hname).1, ?_⟩
    intro c hc
    rw [Bool.not_eq_true', beq_eq_false_iff_ne]
    rintro rfl
    exact newline_notMem_dotted h hname hc
  · intro name hname tail htail c hc hmem
    obtain ⟨-, v, hv, hlast⟩ := getLast?_of_mem_dotted h hname
    have hallowed := h.last v hv c (List.mem_of_getLast? (hlast ▸ hc))
    rcases htails tail htail c hmem with rfl | rfl
    · exact Bool.false_ne_true (h.dot.symm.trans hallowed)
    · exact Bool.false_ne_true (h.newline.symm.trans hallowed)

end Names

theorem nil_notMem_labels : [] ∉ labels allowed longest := fun h => h.ne_nil rfl

theorem mem_optional {c : Char} : w ∈ between (chars (· == c)) 0 1 ↔ w = [] ∨ w = [c] := by
  rw [mem_between_zero_one, mem_chars]
  simp

/-! ## Names for ANS -/

theorem ansParts :
    Parts AnsTxt.labelChar (labels AnsTxt.labelChar 63) (labels AnsTxt.labelChar 63) where
  dot := by decide
  newline := by decide
  label := fun _ hu => hu.chars
  last := fun _ hv => hv.chars
  ne_nil := fun _ hv => hv.ne_nil

theorem dnsName_iff (h : Parts allowed (labels allowed 63) (labels allowed 63)) :
    DnsName allowed name ↔
      name ∈ dotted (labels allowed 63) (labels allowed 63) ∧ name.length ≤ 253 := by
  rw [mem_dotted h]
  constructor
  · intro hname
    obtain ⟨us, v, hsplit⟩ :=
      (List.eq_nil_or_concat (name.splitOn '.')).resolve_left (List.splitOn_ne_nil '.' name)
    rw [List.concat_eq_append] at hsplit
    have hlabels := hname.labels
    have htwo := hname.two
    rw [hsplit, List.forall_mem_append, List.forall_mem_singleton] at hlabels
    rw [hsplit, List.length_append, List.length_singleton] at htwo
    exact ⟨⟨us, v, hsplit, by omega, hlabels⟩, hname.short⟩
  · intro ⟨⟨us, v, hsplit, hlength, hlabels⟩, hshort⟩
    refine ⟨by simp [hsplit, hlength], ?_, hshort⟩
    rw [hsplit, List.forall_mem_append, List.forall_mem_singleton]
    exact hlabels

/-- A DNS name, then a dot or not, then a newline or not, which `$` lets pass. -/
theorem ansTxt_matches_iff :
    AnsTxt.fqdnRe.matches_ text = true ↔
      ∃ name, DnsName AnsTxt.labelChar name ∧ ∃ dot newline, (dot = [] ∨ dot = ['.']) ∧
        (newline = [] ∨ newline = ['\n']) ∧ name ++ (dot ++ newline) = text := by
  have hcounted : Spells (.repeated (.char (!AnsTxt.newline ·)) 1 (some 253)) _ :=
    Spells.char.between (by decide)
  have hmore : Spells (.repeated (.seq (.char (· == '.')) AnsTxt.label) 1 none) _ :=
    (Spells.char.seq spells_ansLabel).atLeast (nil_notMem_mul_of_left nil_notMem_chars)
  have hroot : Spells AnsTxt.rootDot (between (chars (· == '.')) 0 1) :=
    Spells.char.between zero_le_one
  have htails := Accepts.seq hroot (Accepts.finish (· == '\n'))
  have haccepts := ((Accepts.seq hcounted htails).ahead
    (Accepts.seq spells_ansLabel (Accepts.seq hmore htails))).matches_iff text
  rw [← mul_assoc (labels AnsTxt.labelChar 63), mul_atLeast] at haccepts
  refine haccepts.trans ((mem_bounded ansParts ?_).trans ?_)
  · intro tail htail c hc
    obtain ⟨dot, hdot, newline, hnewline, rfl⟩ := Language.mem_mul.mp htail
    rcases List.mem_append.mp hc with hc | hc
    · rcases mem_optional.mp hdot with rfl | rfl
      · cases hc
      · exact Or.inl (List.mem_singleton.mp hc)
    · rcases mem_optional.mp hnewline with rfl | rfl
      · cases hc
      · exact Or.inr (List.mem_singleton.mp hc)
  · constructor
    · rintro ⟨name, hname, hshort, tail, htail, rfl⟩
      obtain ⟨dot, hdot, newline, hnewline, rfl⟩ := Language.mem_mul.mp htail
      exact ⟨name, (dnsName_iff ansParts).mpr ⟨hname, hshort⟩, dot, newline,
        mem_optional.mp hdot, mem_optional.mp hnewline, rfl⟩
    · intro ⟨name, hname, dot, newline, hdot, hnewline, htext⟩
      obtain ⟨hname, hshort⟩ := (dnsName_iff ansParts).mp hname
      exact ⟨name, hname, hshort, dot ++ newline,
        Language.append_mem_mul (mem_optional.mpr hdot) (mem_optional.mpr hnewline), htext⟩

/-! ## Names for DNS-AID -/

/-- `[A-Za-z]{2,63}` -/
def tops : Language Char := between (chars (·.isAlpha)) 2 63

theorem label_of_mem_tops {v : List Char} (hv : v ∈ tops) : Label DnsAid.wordOrHyphen 63 v := by
  obtain ⟨hpos, hshort, halpha⟩ := mem_between_chars.mp hv
  have hnot : '-' ∉ v := fun h => absurd (halpha '-' h) (by decide)
  refine ⟨List.ne_nil_of_length_pos (by omega), hshort, ?_, ?_, ?_⟩
  · intro c hc
    simp [DnsAid.wordOrHyphen, Char.isAlphanum, halpha c hc]
  · exact fun h => hnot (List.mem_of_head? h)
  · exact fun h => hnot (List.mem_of_getLast? h)

theorem aidParts : Parts DnsAid.wordOrHyphen (labels DnsAid.wordOrHyphen 64) tops where
  dot := by decide
  newline := by decide
  label := fun _ hu => hu.chars
  last := fun _ hv => (label_of_mem_tops hv).chars
  ne_nil := fun _ hv => (label_of_mem_tops hv).ne_nil

/-- Labels that may be one character too long, then letters, then a newline or not. -/
theorem dnsAid_matches_iff :
    DnsAid.fqdnRe.matches_ text = true ↔
      ∃ name ∈ dotted (labels DnsAid.wordOrHyphen 64) tops, name.length ≤ 253 ∧
        ∃ newline, (newline = [] ∨ newline = ['\n']) ∧ name ++ newline = text := by
  have hcounted : Spells (.repeated (.char (!DnsAid.newline ·)) 1 (some 253)) _ :=
    Spells.char.between (by decide)
  have hlabels : Spells (.repeated (.seq DnsAid.label (.char (· == '.'))) 1 none) _ :=
    (spells_aidLabel.seq Spells.char).atLeast (nil_notMem_mul_of_left nil_notMem_labels)
  have htop : Spells (.repeated (.char (·.isAlpha)) 2 (some 63)) tops :=
    Spells.char.between (by decide)
  have htails := Accepts.finish (· == '\n')
  have haccepts := ((Accepts.seq hcounted htails).ahead
    (Accepts.seq hlabels (Accepts.seq htop htails))).matches_iff text
  rw [← mul_assoc (atLeast _ _) tops] at haccepts
  refine haccepts.trans ((mem_bounded aidParts ?_).trans ?_)
  · intro tail htail c hc
    rcases mem_optional.mp htail with rfl | rfl
    · cases hc
    · exact Or.inr (List.mem_singleton.mp hc)
  · simp only [mem_optional]

/-- A label may have 64 characters, but no other label of a name is wrong. -/
theorem dnsName_iff_of_mem_dotted
    (hname : name ∈ dotted (labels DnsAid.wordOrHyphen 64) tops) (hshort : name.length ≤ 253) :
    DnsName DnsAid.wordOrHyphen name ↔ ∀ w ∈ name.splitOn '.', w.length ≠ 64 := by
  obtain ⟨us, v, hsplit, hlength, hus, hv⟩ := (mem_dotted aidParts).mp hname
  constructor
  · intro h w hw
    have hle := (h.labels w hw).short
    omega
  · intro h
    refine ⟨by simp [hsplit, hlength], ?_, hshort⟩
    rw [hsplit, List.forall_mem_append] at h ⊢
    rw [List.forall_mem_singleton]
    refine ⟨?_, label_of_mem_tops hv⟩
    intro u hu
    have hne := h.1 u hu
    have hle := (hus u hu).short
    exact { hus u hu with short := by omega }

/-! ## What is let through -/

variable {value : Json} {host : String}

theorem ansTxt_validFqdn?_eq_some (h : AnsTxt.validFqdn? value = some host) :
    AnsTxt.fqdnRe.matches_ host.toList = true := by
  cases value with
  | str s =>
    rw [AnsTxt.validFqdn?, Option.ite_none_right_eq_some, Option.some.injEq] at h
    exact h.2 ▸ h.1
  | _ => cases h

theorem dnsAid_validFqdn?_eq_some (h : DnsAid.validFqdn? value = some host) :
    DnsAid.fqdnRe.matches_ host.toList = true := by
  cases value with
  | str s =>
    rw [DnsAid.validFqdn?, Option.ite_none_right_eq_some, Option.some.injEq] at h
    exact h.2 ▸ h.1
  | _ => cases h

theorem DnsName.newline_notMem (hnewline : allowed '\n' = false) (h : DnsName allowed name) :
    '\n' ∉ name :=
  HostNames.newline_notMem hnewline fun w hw => (h.labels w hw).chars

theorem HostName.getLast?_ne (h : HostName host) : host.toList.getLast? ≠ some '\n' := by
  obtain ⟨name, hname, hhost | hhost⟩ := h
  · rw [hhost]
    exact fun hlast => hname.newline_notMem ansParts.newline (List.mem_of_getLast? hlast)
  · rw [hhost, List.getLast?_concat]
    decide

theorem AidName.getLast?_ne (h : AidName host) : host.toList.getLast? ≠ some '\n' :=
  fun hlast => DnsName.newline_notMem aidParts.newline h (List.mem_of_getLast? hlast)

/-- A host that is let through is a name if no newline ends it. For DNS-AID, no label may have
64 characters either. -/
theorem accepted_names_iff (value : Json) (host : String) :
    (AnsTxt.validFqdn? value = some host →
      (HostName host ↔ host.toList.getLast? ≠ some '\n')) ∧
    (DnsAid.validFqdn? value = some host →
      (AidName host ↔ host.toList.getLast? ≠ some '\n' ∧
        ∀ w ∈ host.toList.splitOn '.', w.length ≠ 64)) := by
  constructor
  · intro h
    obtain ⟨name, hname, dot, newline, hdot, hnewline, htext⟩ :=
      ansTxt_matches_iff.mp (ansTxt_validFqdn?_eq_some h)
    refine ⟨HostName.getLast?_ne, fun hlast => ⟨name, hname, ?_⟩⟩
    rcases hnewline with rfl | rfl
    · rw [← htext, List.append_nil]
      rcases hdot with rfl | rfl
      · exact Or.inl (List.append_nil name)
      · exact Or.inr rfl
    · rw [← htext, ← List.append_assoc, List.getLast?_concat] at hlast
      exact absurd rfl hlast
  · intro h
    obtain ⟨name, hname, hshort, newline, hnewline, htext⟩ :=
      dnsAid_matches_iff.mp (dnsAid_validFqdn?_eq_some h)
    rcases hnewline with rfl | rfl
    · rw [List.append_nil] at htext
      subst htext
      have hiff := dnsName_iff_of_mem_dotted hname hshort
      exact ⟨fun haid => ⟨haid.getLast?_ne, hiff.mp haid⟩, fun hcond => hiff.mpr hcond.2⟩
    · have hlast : host.toList.getLast? = some '\n' := by
        rw [← htext, List.getLast?_concat]
      exact ⟨fun haid => absurd hlast haid.getLast?_ne, fun hcond => absurd hlast hcond.1⟩

/-- A name of two labels, the first of 64 characters. -/
def longName : String := String.ofList (List.replicate 64 'a') ++ ".example"

theorem accepted_newline_and_long_label :
    AnsTxt.validFqdn? (.str "agent.example\n") = some "agent.example\n" ∧
      ¬ HostName "agent.example\n" ∧
    DnsAid.validFqdn? (.str "agent.example\n") = some "agent.example\n" ∧
      ¬ AidName "agent.example\n" ∧
    DnsAid.validFqdn? (.str longName) = some longName ∧ ¬ AidName longName := by
  refine ⟨by decide +kernel, ?_, by decide +kernel, ?_, by decide +kernel, ?_⟩
  · exact fun h => h.getLast?_ne (by decide +kernel)
  · exact fun h => h.getLast?_ne (by decide +kernel)
  · intro h
    have hmem : List.replicate 64 'a' ∈ longName.toList.splitOn '.' := by decide +kernel
    have hshort := (h.labels _ hmem).short
    rw [List.length_replicate] at hshort
    omega

end HostNames
