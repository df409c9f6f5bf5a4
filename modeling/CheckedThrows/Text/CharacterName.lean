import CheckedThrows.Text.CodePoint
import CheckedThrows.Text.Hex
import CheckedThrows.Text.Ranges

/-!
# Names of characters

A string literal may give a character by its name.  Most names are listed by the
Unicode standard and are left to whoever reads the literal; those of ideographs
follow a rule.
-/

namespace CheckedThrows

/-- Characters by name, where names are ASCII and have no closing brace. -/
structure CharacterNames where
  named? : List Char → Option CodePoint
  plain : ∀ {name p}, named? name = some p → ∀ c ∈ name, c.toNat < 0x80 ∧ c ≠ '\x7d'

namespace CharacterNames

/-- The unified ideographs of Unicode 14. -/
def ideographRanges : CodeRanges := [
  (0x3400,0x4DBF), (0x4E00,0x9FFF), (0x20000,0x2A6DF), (0x2A700,0x2B738), (0x2B740,0x2B81D),
  (0x2B820,0x2CEA1), (0x2CEB0,0x2EBE0), (0x30000,0x3134A)]

def ideographStart : List Char := "CJK UNIFIED IDEOGRAPH-".toList

/-- An ideograph is named by its number, in four or five digits. -/
def ideograph? (name : List Char) : Option CodePoint :=
  let digits := name.drop ideographStart.length
  let n := digitsValue 16 digits
  if name.take ideographStart.length = ideographStart ∧ digits.length ∈ [4, 5] ∧
      digits.all ("0123456789ABCDEF".toList.contains ·) ∧ ideographRanges.contains n then
    some (CodePoint.ofNat n)
  else none

theorem plain_of_ideograph? {name : List Char} {p : CodePoint} (hname : ideograph? name = some p) :
    ∀ c ∈ name, c.toNat < 0x80 ∧ c ≠ '\x7d' := by
  have hplain : (ideographStart ++ "0123456789ABCDEF".toList).all
      (fun c => c.toNat < 0x80 && c ≠ '\x7d') = true := by decide
  simp only [List.all_eq_true, Bool.and_eq_true, decide_eq_true_eq, List.mem_append] at hplain
  intro c hc
  simp only [ideograph?] at hname
  split at hname
  next hrule =>
    rw [← name.take_append_drop ideographStart.length, hrule.1, List.mem_append] at hc
    refine hplain c (hc.imp_right fun hdigit => ?_)
    exact List.contains_iff_mem.mp (List.all_eq_true.mp hrule.2.2.1 c hdigit)
  next => cases hname

def ruled : CharacterNames := ⟨ideograph?, plain_of_ideograph?⟩

end CharacterNames

end CheckedThrows
