import CheckedThrows.Ignore
import CheckedThrows.Proofs.Offsets
import CheckedThrows.Proofs.SplicedScans

/-!
# Texts with a remark at the end of a line

A line comment is put at the end of a line that has none.  The text has the same
tokens then, on the same lines and in the same columns, and its comments are the
same with the new one among them.
-/

namespace CheckedThrows

open List

variable {p : Position}

namespace Source

def withRemark (s : Source) (offset : Nat) (words : String) : Source :=
  ⟨s.uri, String.ofList (s.chars.take offset ++ ((" //" ++ words).toList ++ s.chars.drop offset))⟩

/-- Where a remark can be put: at the end of a line on which something stands but
no line comment, and not inside a block comment. -/
structure TakesRemark (s : Source) (offset : Nat) : Prop where
  inside : offset ≤ s.chars.length
  ends : Lexeme.EndsLine (s.chars.drop offset)
  solid : ∃ c ∈ linePrefix s.chars (.ofOffset s.chars offset), isBlank c = false
  free : ∀ c ∈ s.comments, c.extent.start.line ≠ (Position.ofOffset s.chars offset).line
  outside : ∀ l ∈ (Scan.of s.chars).lexemes, l.kind = .blockComment →
    ¬(l.start.offset < offset ∧ offset < l.stop.offset)

theorem chars_withRemark (s : Source) (offset : Nat) (words : String) :
    (s.withRemark offset words).chars =
      s.chars.take offset ++ (Lexeme.remark words.toList ++ s.chars.drop offset) := by
  simp [withRemark, chars, Lexeme.remark]

namespace TakesRemark

variable {s : Source} {offset : Nat} (hs : s.TakesRemark offset)
include hs

theorem advance_take : Position.start.advance (s.chars.take offset) = .ofOffset s.chars offset := by
  have hadvance := Position.advance_ofOffset [] (s.chars.take offset) (s.chars.drop offset)
  rw [nil_append, take_append_drop, length_take, Nat.min_eq_left hs.inside,
    length_nil, Nat.zero_add] at hadvance
  exact hadvance

theorem line_ne_of_lineComment {l : Lexeme} (hl : l ∈ (Scan.of s.chars).lexemes)
    (hkind : l.kind = .lineComment) :
    l.start.line ≠ (Position.ofOffset s.chars offset).line := by
  have hcomment : l.comment? s.chars = some ⟨String.ofList l.text, l.extent,
      (linePrefix s.chars l.start).all isBlank⟩ := by
    simp [Lexeme.comment?, hkind]
  exact hs.free _ (mem_filterMap.mpr ⟨l, hl, hcomment⟩)

end TakesRemark

end Source

/-! ## Lexemes that have moved -/

namespace Lexeme

theorem token?_shift (k : Nat) (l : Lexeme) :
    (l.shift k).token?.map Token.withoutOffsets = l.token?.map Token.withoutOffsets := by
  have hstop : (l.shift k).stop = l.stop.shift k := Position.advance_shift k l.start l.text
  obtain ⟨kind, text, start⟩ := l
  cases kind with
  | token kind =>
    simp only [token?, extent, hstop]
    rfl
  | _ => rfl

def remark? (source : List Char) (l : Lexeme) : Option Remark :=
  (l.comment? source).map Remark.ofComment

theorem remark?_congr {source source' : List Char} {l l' : Lexeme} (hkind : l'.kind = l.kind)
    (htext : l'.text = l.text) (hline : l'.start.line = l.start.line)
    (hbefore : linePrefix source' l'.start = linePrefix source l.start) :
    l'.remark? source' = l.remark? source := by
  unfold remark? comment?
  rw [hkind]
  split
  · simp only [Option.map_some, Remark.ofComment, extent, htext, hline, hbefore]
  · rfl

end Lexeme

theorem linePrefix_append {a : List Char} (hp : p.offset ≤ a.length)
    (b : List Char) : linePrefix (a ++ b) p = linePrefix a p := by
  rw [linePrefix, linePrefix, take_append_of_le_length hp]

theorem linePrefix_append_feed {a : List Char} (hp : a.length < p.offset) (b : List Char) :
    linePrefix (a ++ '\n' :: b) p =
      ((b.take (p.offset - a.length - 1)).reverse.takeWhile (· ≠ '\n')).reverse := by
  have htake : (a ++ '\n' :: b).take p.offset = a ++ '\n' :: b.take (p.offset - a.length - 1) := by
    rw [take_append, take_of_length_le (Nat.le_of_lt hp),
      take_cons (Nat.sub_pos_of_lt hp)]
  have hstop : ∀ x y : List Char,
      (x ++ '\n' :: y).takeWhile (· ≠ '\n') = x.takeWhile (· ≠ '\n') := by
    intro x y
    induction x with
    | nil => simp
    | cons c x ih => rw [cons_append, takeWhile_cons, takeWhile_cons, ih]
  rw [linePrefix, htake, reverse_append, reverse_cons, append_assoc]
  exact congrArg List.reverse (hstop _ _)

/-! ## What stands before on a line -/

namespace Source.TakesRemark

variable {s : Source} {offset : Nat} (hs : s.TakesRemark offset) (words : String)
include hs

theorem length_take : (s.chars.take offset).length = offset := by
  rw [List.length_take, Nat.min_eq_left hs.inside]

theorem linePrefix_earlier (hp : p.offset ≤ offset) :
    linePrefix (s.withRemark offset words).chars p = linePrefix s.chars p := by
  rw [← hs.length_take] at hp
  rw [chars_withRemark, linePrefix_append hp]
  conv_rhs => rw [← take_append_drop offset s.chars, linePrefix_append hp]

theorem linePrefix_later {before more : List Char}
    (hdrop : s.chars.drop offset = before ++ '\n' :: more)
    (hp : offset + before.length < p.offset) :
    linePrefix (s.withRemark offset words).chars (p.shift (Lexeme.remark words.toList).length) =
      linePrefix s.chars p := by
  have hold : s.chars = (s.chars.take offset ++ before) ++ '\n' :: more := by
    rw [append_assoc, ← hdrop, take_append_drop]
  have hnew : (s.withRemark offset words).chars =
      (s.chars.take offset ++ (Lexeme.remark words.toList ++ before)) ++ '\n' :: more := by
    rw [chars_withRemark, hdrop]
    simp only [append_assoc]
  have hfar : (s.chars.take offset ++ before).length < p.offset := by
    rw [length_append, hs.length_take]
    exact hp
  have hfar' : (s.chars.take offset ++ (Lexeme.remark words.toList ++ before)).length <
      (p.shift (Lexeme.remark words.toList).length).offset := by
    simp only [length_append, hs.length_take, Position.shift]
    omega
  have hcount : (p.shift (Lexeme.remark words.toList).length).offset -
      (s.chars.take offset ++ (Lexeme.remark words.toList ++ before)).length =
        p.offset - (s.chars.take offset ++ before).length := by
    simp only [length_append, Position.shift]
    omega
  rw [hnew, linePrefix_append_feed hfar', hcount]
  conv_rhs => rw [hold, linePrefix_append_feed hfar]

theorem linePrefix_remark :
    (linePrefix (s.withRemark offset words).chars
      ((Position.ofOffset s.chars offset).next ' ')).all isBlank = false := by
  obtain ⟨c, hc, hsolid⟩ := hs.solid
  have hbefore : linePrefix (s.withRemark offset words).chars
      ((Position.ofOffset s.chars offset).next ' ') =
        linePrefix s.chars (.ofOffset s.chars offset) ++ [' '] := by
    have htake : (s.withRemark offset words).chars.take (offset + 1) =
        s.chars.take offset ++ [' '] := by
      rw [chars_withRemark, take_append, hs.length_take,
        take_of_length_le (by rw [hs.length_take]; omega), Nat.add_sub_cancel_left]
      rfl
    show ((List.take (offset + 1) _).reverse.takeWhile _).reverse = _
    rw [htake, reverse_append, reverse_singleton, singleton_append,
      takeWhile_cons_of_pos (by decide), reverse_cons]
    rfl
  rw [hbefore, all_eq_false]
  exact ⟨c, mem_append_left _ hc, by simpa using hsolid⟩

end Source.TakesRemark

/-! ## The tokens and the comments of a text with a remark -/

namespace Source.TakesRemark

variable {s : Source} {offset : Nat} (hs : s.TakesRemark offset) {words : String}
  (hwords : '\n' ∉ words.toList)
  (hclosed : Lexeme.blockTail? (Lexeme.remark words.toList) = none)
  (hstuck : (Scan.of s.chars).stuck = none)
include hs hwords hclosed hstuck

theorem solid_withRemark :
    ∃ ls rest, (Scan.of s.chars).solid = Scan.after ls rest ∧
      (Scan.of (s.withRemark offset words).chars).solid =
        ((rest.shift (Lexeme.remark words.toList).length).cons
          ⟨.lineComment, '/' :: '/' :: (words.toList ++ (s.chars.drop offset).takeWhile (· ≠ '\n')),
            (Position.ofOffset s.chars offset).next ' '⟩).after ls ∧
      (∀ l ∈ ls, l.start.offset < offset) ∧
      ∀ l ∈ rest.lexemes, ∃ before more, s.chars.drop offset = before ++ '\n' :: more ∧
        offset + before.length < l.start.offset := by
  have hlength := hs.length_take
  have hsplit := take_append_drop offset s.chars
  have hlines : ∀ l ∈ (Scan.of s.chars).lexemes, l.kind = .lineComment →
      l.start.line ≠ (Position.start.advance (s.chars.take offset)).line := by
    rw [hs.advance_take]
    exact fun l hl hkind => hs.line_ne_of_lineComment hl hkind
  have hblocks := hs.outside
  rw [← hlength] at hblocks
  have hscan := @Scan.solid_of_remark (s.chars.take offset) (s.chars.drop offset) words.toList
    hs.ends hwords hclosed
  rw [hsplit, hs.advance_take] at hscan
  rw [chars_withRemark]
  have hresult := hscan hstuck (hs.advance_take ▸ hlines) hblocks
  rw [hlength] at hresult
  exact hresult

theorem tokens_withRemark :
    ∃ w w', s.tokens = .ok w ∧ (s.withRemark offset words).tokens = .ok w' ∧
      w'.map Token.withoutOffsets = w.map Token.withoutOffsets := by
  obtain ⟨ls, rest, hold, hnew, -, -⟩ := hs.solid_withRemark hwords hclosed hstuck
  have hstuck' : (Scan.of (s.withRemark offset words).chars).stuck = none := by
    have hrest : rest.stuck = none := (congrArg Scan.stuck hold).symm.trans hstuck
    have hmoved : (Scan.of (s.withRemark offset words).chars).stuck =
        rest.stuck.map fun place => (place.1.shift (Lexeme.remark words.toList).length, place.2) :=
      congrArg Scan.stuck hnew
    rw [hmoved, hrest]
    rfl
  have hlexemes : (Scan.of (s.withRemark offset words).chars).tokens.map Token.withoutOffsets =
      (Scan.of s.chars).tokens.map Token.withoutOffsets := by
    rw [← Scan.tokens_solid, ← Scan.tokens_solid (Scan.of s.chars), hold, hnew]
    simp only [Scan.tokens, Scan.after, Scan.cons, Scan.shift, filterMap_append,
      filterMap_cons, Lexeme.token?, map_append, filterMap_map, map_filterMap]
    congr 1
    exact filterMap_congr fun l _ => Lexeme.token?_shift _ l
  refine ⟨_, _, tokens_of_not_stuck hstuck, tokens_of_not_stuck hstuck', ?_⟩
  rw [← Token.mark_withoutOffsets, ← Token.mark_withoutOffsets, hlexemes]

theorem remarks_withRemark :
    ∃ earlier later, s.comments.map Remark.ofComment = earlier ++ later ∧
      (s.withRemark offset words).comments.map Remark.ofComment =
        earlier ++ ⟨String.ofList
            ('/' :: '/' :: (words.toList ++ (s.chars.drop offset).takeWhile (· ≠ '\n'))),
          some (Position.ofOffset s.chars offset).line, false⟩ :: later := by
  obtain ⟨ls, rest, hold, hnew, hearlier, hlater⟩ := hs.solid_withRemark hwords hclosed hstuck
  have hcomments : ∀ (source : List Char) (scan : Scan),
      (scan.comments source).map Remark.ofComment =
        scan.solid.lexemes.filterMap (Lexeme.remark? source) := by
    intro source scan
    rw [← Scan.comments_solid, Scan.comments, map_filterMap]
    rfl
  have hbefore : ls.filterMap (Lexeme.remark? (s.withRemark offset words).chars) =
      ls.filterMap (Lexeme.remark? s.chars) :=
    filterMap_congr fun l hl => Lexeme.remark?_congr rfl rfl rfl
      (hs.linePrefix_earlier words (Nat.le_of_lt (hearlier l hl)))
  have hafter : (rest.lexemes.map (Lexeme.shift (Lexeme.remark words.toList).length)).filterMap
      (Lexeme.remark? (s.withRemark offset words).chars) =
        rest.lexemes.filterMap (Lexeme.remark? s.chars) := by
    rw [filterMap_map]
    apply filterMap_congr
    intro l hl
    obtain ⟨before, more, hdrop, hoffset⟩ := hlater l hl
    have hbefore := hs.linePrefix_later words hdrop hoffset
    exact Lexeme.remark?_congr rfl rfl rfl hbefore
  have hremark : Lexeme.remark? (s.withRemark offset words).chars
      ⟨.lineComment, '/' :: '/' :: (words.toList ++ (s.chars.drop offset).takeWhile (· ≠ '\n')),
        (Position.ofOffset s.chars offset).next ' '⟩ =
      some ⟨String.ofList
          ('/' :: '/' :: (words.toList ++ (s.chars.drop offset).takeWhile (· ≠ '\n'))),
        some (Position.ofOffset s.chars offset).line, false⟩ := by
    simp only [Lexeme.remark?, Lexeme.comment?, Option.map_some, Remark.ofComment,
      hs.linePrefix_remark words]
    rfl
  refine ⟨ls.filterMap (Lexeme.remark? s.chars), rest.lexemes.filterMap (Lexeme.remark? s.chars),
    ?_, ?_⟩
  · rw [comments, hcomments, hold]
    exact filterMap_append
  · rw [comments, hcomments, hnew]
    show List.filterMap _ (ls ++ _ :: List.map _ rest.lexemes) = _
    rw [filterMap_append, filterMap_cons_some hremark, hbefore, hafter]

end Source.TakesRemark

end CheckedThrows
