import CheckedThrows.Literal.Basic
import Mathlib.Data.List.Basic

/-!
# Escapes in string literals

A content without a backslash keeps all its characters.  In any other content
an escape is replaced by what it denotes, but every other character becomes the
code points of its UTF-8 bytes.  So contents read one after the other give the
value of both together exactly if both are read in the same way or the
difference does not show.
-/

namespace CheckedThrows.StringContent

open List

variable {names : CharacterNames} {c : Char} {cs digits rest : List Char} {n : Nat}

/-! ## Escapes and other characters -/

/-- What stands in a content: a character, or an escape of one of the kinds
there are, with what it denotes. -/
inductive Piece
  | plain (c : Char)
  | letter (c denoted : Char)
  | octal (digits : List Char)
  | code (width : Char) (digits : List Char) (denoted : CodePoint)
  | named (name : List Char) (denoted : CodePoint)
  | unknown (c : Char)

def IsUnknown (c : Char) : Prop :=
  simpleEscape? c = none ∧ isOctalDigit c = false ∧ codeWidth? c = none ∧ c ≠ 'N'

namespace Piece

def spelling : Piece → List Char
  | plain c => [c]
  | letter c _ | unknown c => ['\\', c]
  | octal digits => '\\' :: digits
  | code width digits _ => '\\' :: width :: digits
  | named name _ => '\\' :: 'N' :: '\x7b' :: (name ++ ['\x7d'])

def denoted : Piece → Text
  | plain c => [CodePoint.ofChar c]
  | letter _ e => [CodePoint.ofChar e]
  | octal digits => [CodePoint.ofNat (digitsValue 8 digits)]
  | code _ _ p | named _ p => [p]
  | unknown c => [CodePoint.ofChar '\\', CodePoint.ofChar c]

def byteText : Piece → Text
  | plain c => Text.ofChars (byteChars [c])
  | unknown c => CodePoint.ofChar '\\' :: Text.ofChars (byteChars [c])
  | p => p.denoted

def isEscape : Piece → Bool
  | plain _ => false
  | _ => true

def isAscii : Piece → Bool
  | plain c | unknown c => c.toNat < 0x80
  | _ => true

/-- A piece can be read in front of the rest of a content.  An octal escape
takes three digits if there are as many. -/
def Fits (names : CharacterNames) (rest : List Char) : Piece → Prop
  | plain c => c ≠ '\\'
  | letter c e => simpleEscape? c = some e
  | octal digits => digits ≠ [] ∧ digits.all isOctalDigit ∧
      (digits.length = 3 ∨ digits.length < 3 ∧ ∀ c ∈ rest.head?, isOctalDigit c = false)
  | code width digits p => ∃ n, codeWidth? width = some n ∧ codePoint? digits n = some p
  | named name p => name ≠ [] ∧ names.named? name = some p
  | unknown c => IsUnknown c

end Piece

def written (ps : List Piece) : List Char :=
  ps.flatMap Piece.spelling

def Readable (names : CharacterNames) : List Piece → Prop
  | [] => True
  | p :: ps => p.Fits names (written ps) ∧ Readable names ps

/-! ## Bytes of characters -/

theorem toNat_ofByte (b : UInt8) : (Char.ofNat b.toNat).toNat = b.toNat := by
  have hb : b.toNat < 256 := b.toNat_lt
  have hvalid : b.toNat.isValidChar := .inl (by omega)
  rw [Char.ofNat, dif_pos hvalid]
  rfl

theorem byteChars_append (as bs : List Char) :
    byteChars (as ++ bs) = byteChars as ++ byteChars bs :=
  flatMap_append

theorem byteChars_of_ascii (hc : c.toNat < 0x80) : byteChars [c] = [c] := by
  have hsize : c.toNat ≤ 127 := by omega
  have hmod : c.toNat % 256 = c.toNat := Nat.mod_eq_of_lt (by omega)
  simp [byteChars, String.utf8EncodeChar, hsize, hmod]

theorem byteChars_of_all_ascii (hcs : ∀ c ∈ cs, c.toNat < 0x80) :
    byteChars cs = cs := by
  induction cs with
  | nil => rfl
  | cons c cs ih =>
    rw [forall_mem_cons] at hcs
    change byteChars ([c] ++ cs) = [c] ++ cs
    rw [byteChars_append, byteChars_of_ascii hcs.1, ih hcs.2]

theorem byteChars_of_not_ascii (hc : ¬ c.toNat < 0x80) :
    1 < (byteChars [c]).length ∧ ∀ b ∈ byteChars [c], 0x80 ≤ b.toNat := by
  have hbytes : 1 < (String.utf8EncodeChar c).length ∧
      ∀ b ∈ String.utf8EncodeChar c, 0x80 ≤ b.toNat := by
    have hsize : ¬ c.val.toNat ≤ 127 := by simp only [Char.toNat] at hc; omega
    simp only [String.utf8EncodeChar, hsize, if_false]
    split
    · simp [-UInt8.ofNat_add]; omega
    · split <;> simp [-UInt8.ofNat_add] <;> omega
  simpa [byteChars, toNat_ofByte] using hbytes

/-! ## Escapes are ASCII -/

theorem ascii_of_simpleEscape? {c e : Char} (h : simpleEscape? c = some e) : c.toNat < 0x80 := by
  unfold simpleEscape? at h
  split at h <;> first | decide | cases h

theorem ascii_of_isOctalDigit (h : isOctalDigit c = true) : c.toNat < 0x80 := by
  simp only [isOctalDigit, Bool.and_eq_true, decide_eq_true_eq] at h
  exact Nat.lt_of_le_of_lt (m := '7'.toNat) h.2 (by decide)

theorem ascii_of_isHexDigit (h : isHexDigit c = true) : c.toNat < 0x80 := by
  simp only [isHexDigit, hexValue?] at h
  split at h
  · exact Nat.lt_of_le_of_lt (m := '9'.toNat) ‹_ ∧ _›.2 (by decide)
  · split at h
    · exact Nat.lt_of_le_of_lt (m := 'f'.toNat) ‹_ ∧ _›.2 (by decide)
    · split at h
      · exact Nat.lt_of_le_of_lt (m := 'F'.toNat) ‹_ ∧ _›.2 (by decide)
      · cases h

theorem isUnknown_of_not_ascii (hc : 0x80 ≤ c.toNat) : IsUnknown c := by
  refine ⟨?_, ?_, ?_, ?_⟩
  · cases h : simpleEscape? c with
    | none => rfl
    | some e => exact absurd (ascii_of_simpleEscape? h) (Nat.not_lt.2 hc)
  · cases h : isOctalDigit c with
    | false => rfl
    | true => exact absurd (ascii_of_isOctalDigit h) (Nat.not_lt.2 hc)
  · unfold codeWidth?
    split <;> first | rfl | exact absurd hc (by decide)
  · rintro rfl
    exact absurd hc (by decide)

/-! ## One piece -/

theorem escape?_unknown (hc : IsUnknown c) (rest : List Char) :
    escape? names (c :: rest) = some ([CodePoint.ofChar '\\', CodePoint.ofChar c], 1) := by
  obtain ⟨hsimple, hoctal, hcode, hname⟩ := hc
  simp [escape?, hsimple, hoctal, hcode, hname]

theorem escape?_octal (hne : digits ≠ [])
    (hdigits : ∀ c ∈ digits, isOctalDigit c = true)
    (hend : digits.length = 3 ∨ digits.length < 3 ∧ ∀ c ∈ rest.head?, isOctalDigit c = false) :
    escape? names (digits ++ rest) = some ([CodePoint.ofNat (digitsValue 8 digits)], digits.length) := by
  obtain ⟨d, ds, rfl⟩ := exists_cons_of_ne_nil hne
  obtain ⟨hd, hds⟩ := forall_mem_cons.1 hdigits
  have hsimple : simpleEscape? d = none := by
    unfold simpleEscape?
    split <;> first | rfl | exact absurd hd (by decide)
  have hrest : (rest.take (2 - ds.length)).takeWhile isOctalDigit = [] := by
    rcases hend with hfull | ⟨-, hhead⟩
    · have hzero : 2 - ds.length = 0 := by simp only [length_cons] at hfull; omega
      simp [hzero]
    · cases rest with
      | nil => simp
      | cons c rest =>
        have hc : isOctalDigit c = false := hhead c rfl
        cases 2 - ds.length <;> simp [hc]
  have hlength : ds.length ≤ 2 := by
    simp only [length_cons] at hend
    omega
  have htaken : ((ds ++ rest).take 2).takeWhile isOctalDigit = ds := by
    rw [take_append, take_of_length_le hlength, takeWhile_append_of_pos hds, hrest,
      append_nil]
  simp [escape?, hsimple, hd, htaken]

theorem escape?_code {width : Char} {p : CodePoint}
    (hwidth : codeWidth? width = some n) (hp : codePoint? digits n = some p)
    (hlength : digits.length = n) :
    escape? names (width :: (digits ++ rest)) = some ([p], n + 1) := by
  have hother : simpleEscape? width = none ∧ isOctalDigit width = false := by
    unfold codeWidth? at hwidth
    split at hwidth <;> first | decide | cases hwidth
  have htake : (digits ++ rest).take n = digits := take_left' hlength
  simp [escape?, hother, hwidth, htake, hp]

theorem escape?_named {name : List Char} {p : CodePoint} (hne : name ≠ [])
    (hp : names.named? name = some p) :
    escape? names ('N' :: '\x7b' :: (name ++ '\x7d' :: rest)) = some ([p], name.length + 3) := by
  have hname : (name ++ '\x7d' :: rest).takeWhile (· ≠ '\x7d') = name := by
    rw [takeWhile_append_of_pos, takeWhile_cons_of_neg, append_nil]
    · simp
    · intro c hc
      simpa using (names.plain hp c hc).2
  have hbraced : braced? names ('\x7b' :: (name ++ '\x7d' :: rest)) =
      some (p, name.length + 2) := by
    simp only [braced?]
    rw [hname, if_pos ⟨hne, by simp⟩, hp]
    rfl
  have hother : simpleEscape? 'N' = none ∧ isOctalDigit 'N' = false ∧ codeWidth? 'N' = none := by
    decide
  simp [escape?, hother, hbraced]

theorem unescape?_escape {t : Text} (h : escape? names cs = some (t, n)) :
    unescape? names ('\\' :: cs) = (unescape? names (cs.drop n)).map (t ++ ·) := by
  rw [unescape?]
  simp [h]

theorem unescape?_append_of_not_mem {as : List Char} (has : '\\' ∉ as) (rest : List Char) :
    unescape? names (as ++ rest) = (unescape? names rest).map (Text.ofChars as ++ ·) := by
  induction as with
  | nil => simp [Text.ofChars]
  | cons c as ih =>
    rw [mem_cons, not_or] at has
    rw [cons_append, unescape?, if_neg (Ne.symm has.1), ih has.2, Option.map_map]
    rfl

theorem not_mem_byteChars (hc : c ≠ '\\') : '\\' ∉ byteChars [c] := by
  by_cases hascii : c.toNat < 0x80
  · simpa [byteChars_of_ascii hascii] using hc.symm
  · intro hmem
    exact absurd ((byteChars_of_not_ascii hascii).2 _ hmem) (by decide)

/-- The bytes of a character that makes no escape after a backslash make none
either. -/
theorem exists_byteChars_unknown (hc : IsUnknown c) :
    ∃ b bs, byteChars [c] = b :: bs ∧ IsUnknown b ∧ '\\' ∉ bs := by
  by_cases hascii : c.toNat < 0x80
  · exact ⟨c, [], byteChars_of_ascii hascii, hc, not_mem_nil⟩
  · obtain ⟨hlength, hbytes⟩ := byteChars_of_not_ascii hascii
    cases h : byteChars [c] with
    | nil => simp [h] at hlength
    | cons b bs =>
      rw [h, forall_mem_cons] at hbytes
      refine ⟨b, bs, rfl, isUnknown_of_not_ascii hbytes.1, ?_⟩
      intro hmem
      exact absurd (hbytes.2 _ hmem) (by decide)

theorem isOctalDigit_head_byteChars
    (h : ∀ c ∈ rest.head?, isOctalDigit c = false) :
    ∀ b ∈ (byteChars rest).head?, isOctalDigit b = false := by
  cases rest with
  | nil => exact h
  | cons c rest =>
    change ∀ b ∈ (byteChars ([c] ++ rest)).head?, _
    rw [byteChars_append]
    by_cases hascii : c.toNat < 0x80
    · rw [byteChars_of_ascii hascii]
      exact h
    · obtain ⟨b, bs, hb, hunknown, -⟩ := exists_byteChars_unknown
        (isUnknown_of_not_ascii (Nat.not_lt.1 hascii))
      rw [hb]
      simpa using hunknown.2.1

open Piece

variable {ps qs : List Piece}

theorem unescape?_piece {p : Piece} (hp : p.Fits names rest) :
    unescape? names (byteChars (p.spelling ++ rest)) =
      (unescape? names (byteChars rest)).map (p.byteText ++ ·) := by
  have hbackslash : byteChars ['\\'] = ['\\'] := byteChars_of_ascii (by decide)
  rw [byteChars_append]
  cases p with
  | plain c => exact unescape?_append_of_not_mem (not_mem_byteChars hp) _
  | letter c e =>
    have hc : c.toNat < 0x80 := ascii_of_simpleEscape? hp
    have hbytes : byteChars ['\\', c] = ['\\', c] :=
      byteChars_of_all_ascii (by simp [hc])
    have hescape : escape? names (c :: byteChars rest) = some ([CodePoint.ofChar e], 1) := by
      simp [escape?, show simpleEscape? c = some e from hp]
    rw [spelling, hbytes]
    exact unescape?_escape hescape
  | octal digits =>
    obtain ⟨hne, hdigits, hend⟩ := hp
    rw [all_eq_true] at hdigits
    have hbytes : byteChars ('\\' :: digits) = '\\' :: digits :=
      byteChars_of_all_ascii (by simpa using fun c hc => ascii_of_isOctalDigit (hdigits c hc))
    have hescape : escape? names (digits ++ byteChars rest) =
        some ([CodePoint.ofNat (digitsValue 8 digits)], digits.length) :=
      escape?_octal hne hdigits (hend.imp_right (And.imp_right isOctalDigit_head_byteChars))
    rw [spelling, hbytes, cons_append, unescape?_escape hescape, drop_left]
    rfl
  | code width digits p =>
    obtain ⟨n, hwidth, hcode⟩ := hp
    have hall : digits.length = n ∧ digits.all isHexDigit := by
      unfold codePoint? at hcode
      split at hcode
      · assumption
      · cases hcode
    have hwidthAscii : width.toNat < 0x80 := by
      unfold codeWidth? at hwidth
      split at hwidth <;> first | decide | cases hwidth
    have hbytes : byteChars ('\\' :: width :: digits) = '\\' :: width :: digits :=
      byteChars_of_all_ascii (by
        simpa [hwidthAscii] using fun c hc =>
          ascii_of_isHexDigit (all_eq_true.1 hall.2 c hc))
    rw [spelling, hbytes, cons_append, cons_append,
      unescape?_escape (escape?_code hwidth hcode hall.1), drop_succ_cons, ← hall.1,
      drop_left]
    rfl
  | named name p =>
    obtain ⟨hne, hname⟩ := hp
    have hbytes : byteChars (spelling (named name p)) = spelling (named name p) := by
      apply byteChars_of_all_ascii
      intro c hc
      simp only [spelling, mem_cons, mem_append, not_mem_nil, or_false] at hc
      rcases hc with rfl | rfl | rfl | hc | rfl
      · decide
      · decide
      · decide
      · exact (names.plain hname c hc).1
      · decide
    rw [hbytes, spelling]
    simp only [cons_append, append_assoc, nil_append]
    rw [unescape?_escape (escape?_named hne hname), drop_succ_cons, drop_succ_cons,
      drop_length_add_append]
    rfl
  | unknown c =>
    obtain ⟨b, bs, hbytes, hb, hbs⟩ := exists_byteChars_unknown hp
    change unescape? names (byteChars (['\\'] ++ [c]) ++ _) = _
    rw [byteChars_append, hbackslash, hbytes, append_assoc, singleton_append,
      cons_append, unescape?_escape (escape?_unknown hb _), drop_succ_cons,
      drop_zero, unescape?_append_of_not_mem hbs, Option.map_map, byteText, hbytes]
    rfl

/-! ## Whole contents -/

theorem written_append (ps qs : List Piece) : written (ps ++ qs) = written ps ++ written qs :=
  flatMap_append

theorem unescape?_written (hps : Readable names ps) :
    unescape? names (byteChars (written ps)) = some (ps.flatMap byteText) := by
  induction ps with
  | nil => simp [written, byteChars, unescape?]
  | cons p ps ih => exact (unescape?_piece hps.1).trans (by rw [ih hps.2]; rfl)

theorem backslash_mem_written_iff (hps : Readable names ps) :
    '\\' ∈ written ps ↔ ps.any isEscape = true := by
  induction ps with
  | nil => simp [written]
  | cons p ps ih =>
    have hp : '\\' ∈ p.spelling ↔ p.isEscape = true := by
      cases p with
      | plain c => simpa [spelling, isEscape] using Ne.symm hps.1
      | _ => simp [spelling, isEscape]
    rw [any_cons, Bool.or_eq_true, ← ih hps.2, ← hp]
    exact mem_append

theorem decode_written_of_escape (hps : Readable names ps)
    (hescape : ps.any isEscape = true) : decode names (written ps) = ps.flatMap byteText := by
  rw [decode, if_pos ((backslash_mem_written_iff hps).2 hescape), unescape?_written hps]
  rfl

theorem decode_written_of_plain (hps : Readable names ps)
    (hplain : ps.any isEscape = false) : decode names (written ps) = ps.flatMap denoted := by
  have hnot : '\\' ∉ written ps := by
    rw [backslash_mem_written_iff hps, hplain]
    exact Bool.false_ne_true
  rw [decode, if_neg hnot, Text.ofChars, written, map_flatMap]
  refine flatMap_congr fun p hp => ?_
  have hpiece := any_eq_false.1 hplain p hp
  cases p with
  | plain c => rfl
  | _ => exact absurd rfl hpiece

/-! ## Where the two readings agree -/

theorem append_eq_append_iff_of_length_le {α : Type} {as as' bs bs' : List α}
    (ha : as.length ≤ as'.length) (hb : bs.length ≤ bs'.length) :
    as' ++ bs' = as ++ bs ↔ as' = as ∧ bs' = bs := by
  refine ⟨fun h => ?_, fun h => by rw [h.1, h.2]⟩
  have hlength := congrArg List.length h
  simp only [length_append] at hlength
  exact append_inj h (by omega)

theorem length_denoted_le (p : Piece) : p.denoted.length ≤ p.byteText.length := by
  have hlength (c : Char) : 1 ≤ (byteChars [c]).length := by
    by_cases hascii : c.toNat < 0x80
    · simp [byteChars_of_ascii hascii]
    · exact Nat.le_of_lt (byteChars_of_not_ascii hascii).1
  cases p with
  | plain c => simpa [denoted, byteText, Text.ofChars] using hlength c
  | unknown c => simpa [denoted, byteText, Text.ofChars] using hlength c
  | _ => exact Nat.le_refl _

theorem byteText_eq_denoted_iff (p : Piece) : p.byteText = p.denoted ↔ p.isAscii = true := by
  have hchar (c : Char) : Text.ofChars (byteChars [c]) = [CodePoint.ofChar c] ↔ c.toNat < 0x80 := by
    by_cases hascii : c.toNat < 0x80
    · simp [byteChars_of_ascii hascii, Text.ofChars, hascii]
    · refine iff_of_false (fun h => ?_) hascii
      have hlength := congrArg List.length h
      have hmore := (byteChars_of_not_ascii hascii).1
      simp only [Text.ofChars, length_map, length_singleton] at hlength
      omega
  cases p with
  | plain c => simpa [byteText, denoted, isAscii] using hchar c
  | unknown c => simpa [byteText, denoted, isAscii] using hchar c
  | _ => simp [byteText, isAscii]

theorem length_flatMap_denoted_le (ps : List Piece) :
    (ps.flatMap denoted).length ≤ (ps.flatMap byteText).length := by
  induction ps with
  | nil => exact Nat.le_refl _
  | cons p ps ih =>
    simp only [flatMap_cons, length_append]
    exact Nat.add_le_add (length_denoted_le p) ih

theorem flatMap_byteText_eq_iff (ps : List Piece) :
    ps.flatMap byteText = ps.flatMap denoted ↔ ps.all isAscii = true := by
  induction ps with
  | nil => simp
  | cons p ps ih =>
    rw [flatMap_cons, flatMap_cons,
      append_eq_append_iff_of_length_le (length_denoted_le p) (length_flatMap_denoted_le ps),
      byteText_eq_denoted_iff, ih, all_cons, Bool.and_eq_true]

theorem length_decode_written_le (hps : Readable names ps) :
    (decode names (written ps)).length ≤ (ps.flatMap byteText).length := by
  cases hescape : ps.any isEscape with
  | true => exact Nat.le_of_eq (congrArg List.length (decode_written_of_escape hps hescape))
  | false =>
    rw [decode_written_of_plain hps hescape]
    exact length_flatMap_denoted_le ps

theorem decode_written_eq_byteText_iff (hps : Readable names ps) :
    ps.flatMap byteText = decode names (written ps) ↔ ps.any isEscape = true ∨ ps.all isAscii = true := by
  cases hescape : ps.any isEscape with
  | true => simp [decode_written_of_escape hps hescape]
  | false => simp [decode_written_of_plain hps hescape, flatMap_byteText_eq_iff]

theorem decode_written_eq_denoted_iff (hps : Readable names ps) :
    decode names (written ps) = ps.flatMap denoted ↔ ps.any isEscape = false ∨ ps.all isAscii = true := by
  cases hescape : ps.any isEscape with
  | true => simp [decode_written_of_escape hps hescape, flatMap_byteText_eq_iff]
  | false => simp [decode_written_of_plain hps hescape]

/-! ## Contents one after the other -/

theorem Readable.of_append_left (h : Readable names (ps ++ qs)) : Readable names ps := by
  induction ps with
  | nil => trivial
  | cons p ps ih =>
    refine ⟨?_, ih h.2⟩
    have hp : p.Fits names (written (ps ++ qs)) := h.1
    cases p with
    | octal digits =>
      refine ⟨hp.1, hp.2.1, hp.2.2.imp_right (And.imp_right fun hhead c hc => hhead c ?_)⟩
      rw [written_append, head?_append]
      exact Option.or_eq_some_iff.2 (.inl hc)
    | _ => exact hp

theorem Readable.of_append_right (h : Readable names (ps ++ qs)) : Readable names qs := by
  induction ps with
  | nil => exact h
  | cons p ps ih => exact ih h.2

theorem decode_written_append_iff (h : Readable names (ps ++ qs)) :
    decode names (written (ps ++ qs)) = decode names (written ps) ++ decode names (written qs) ↔
      (ps ++ qs).any isEscape = false ∨
        (ps.any isEscape = true ∨ ps.all isAscii = true) ∧
          (qs.any isEscape = true ∨ qs.all isAscii = true) := by
  have hps : Readable names ps := h.of_append_left
  have hqs : Readable names qs := h.of_append_right
  cases hescape : (ps ++ qs).any isEscape with
  | true =>
    rw [decode_written_of_escape h hescape, flatMap_append,
      append_eq_append_iff_of_length_le (length_decode_written_le hps)
        (length_decode_written_le hqs),
      decode_written_eq_byteText_iff hps, decode_written_eq_byteText_iff hqs]
    simp
  | false =>
    have hboth := hescape
    rw [any_append, Bool.or_eq_false_iff] at hboth
    rw [decode_written_of_plain h hescape, decode_written_of_plain hps hboth.1,
      decode_written_of_plain hqs hboth.2, flatMap_append]
    simp

/-! ## Literals -/

def literal (quote : Char) (ps : List Piece) : Literal :=
  .string (String.ofList (quote :: (written ps ++ [quote])))

theorem value_literal (quote : Char) (ps : List Piece) :
    (literal quote ps).valueWith names = .string (decode names (written ps)) := by
  simp [literal, Literal.valueWith, Literal.content]

/-- The value of a string literal whose escapes can all be read.  It is made up
of the pieces of the content, each replaced on its own, and is the text they
denote exactly if there is no escape or nothing but ASCII besides; and where the
content may be cut. -/
theorem value_literal_by_pieces (quote : Char) (hps : Readable names ps) :
    (literal quote ps).valueWith names =
        .string (ps.flatMap (if ps.any isEscape then byteText else denoted)) ∧
      ((literal quote ps).valueWith names = .string (ps.flatMap denoted) ↔
        ps.any isEscape = false ∨ ps.all isAscii = true) ∧
      ∀ as bs, as ++ bs = ps →
        (decode names (written ps) = decode names (written as) ++ decode names (written bs) ↔
          ps.any isEscape = false ∨
            (as.any isEscape = true ∨ as.all isAscii = true) ∧
              (bs.any isEscape = true ∨ bs.all isAscii = true)) := by
  rw [value_literal]
  refine ⟨congrArg Value.string ?_, ?_, ?_⟩
  · cases hescape : ps.any isEscape with
    | true => exact decode_written_of_escape hps hescape
    | false => exact decode_written_of_plain hps hescape
  · rw [Value.string.injEq]
    exact decode_written_eq_denoted_iff hps
  · rintro as bs rfl
    exact decode_written_append_iff hps

def accented : List Piece := [plain 'é', letter 'n' '\n']

theorem readable_accented : Readable .ruled accented :=
  ⟨show 'é' ≠ '\\' by decide, rfl, trivial⟩

/-- The literal `'é\n'` denotes three characters, and two if it is cut before
its escape. -/
theorem accented_read_by_bytes :
    Readable .ruled accented ∧
      (literal '\'' accented).value = .string (Text.ofChars ['Ã', '©', '\n']) ∧
      decode .ruled (written accented) ≠ decode .ruled ['é'] ++ decode .ruled ['\\', 'n'] := by
  have hvalue := value_literal_by_pieces '\'' readable_accented
  refine ⟨readable_accented, hvalue.1.trans (by decide), ?_⟩
  exact fun hcut => absurd ((hvalue.2.2 [plain 'é'] [letter 'n' '\n'] rfl).1 hcut) (by decide)

/-- A character besides the escapes is not kept. -/
theorem accent_not_kept :
    Readable .ruled accented ∧
      (literal '\'' accented).value ≠ .string (accented.flatMap denoted) := by
  refine ⟨readable_accented, fun hvalue => ?_⟩
  rw [Literal.value, value_literal, Value.string.injEq,
    decode_written_eq_denoted_iff readable_accented] at hvalue
  exact absurd hvalue (by decide)

end CheckedThrows.StringContent
