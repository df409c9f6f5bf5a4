import CheckedThrows.Proofs.Prediction

/-!
# The parser reads exactly the derivations

What the parser reads off the front of the tokens are the tokens of the
derivation it returns.  Conversely it returns every derivation whose tokens are
in front, as long as what comes next can follow its symbol.  So a text has one
derivation if it parses, and none if it does not.
-/

namespace CheckedThrows.Grammar

open List

variable {a : Starts} {rest ts us : List Token} {fuel m : Nat}

namespace Starts

variable {F : List (Option TokenKind)} {w : List Token} {a b : Starts}

theorem leads_eq_true (h : a.Admits w) (hne : w ≠ [])
    (rest : List Token) : a.leads (w ++ rest) = true := by
  cases w with
  | nil => exact absurd rfl hne
  | cons t ts => exact contains_iff_mem.mpr h.mem_heads

theorem leads_eq_false (haside : a.aside F = true)
    (hrest : front rest ∈ F) : a.leads rest = false := by
  cases rest with
  | nil => rfl
  | cons t ts =>
    rw [Bool.eq_false_iff]
    intro hleads
    have hmem : t.kind ∈ a.heads := contains_iff_mem.mp hleads
    have hnot := all_eq_true.mp haside _ hmem
    simp [show some t.kind ∈ F from hrest] at hnot

/-- Words of two kinds that are apart start alike only with a name, and then
their second tokens differ. -/
theorem clash_of_apart
    (hapart : a.apart b F = true) {k : TokenKind} (ha : k ∈ a.heads) (hb : k ∈ b.heads) :
    k = .name ∧ a.lone = false ∧ .name ∉ a.kinds ∧ .name ∉ b.kinds ∧
      ∀ u ∈ a.names, u ∉ b.names ∧ (b.lone = false ∨ some u ∉ F) := by
  simp only [apart, Bool.and_eq_true, all_eq_true] at hapart
  have hclash := hapart.2 k ha
  simpa [hb, and_assoc] using hclash

theorem leadsBefore_eq_true (hapart : a.apart b F = true) (h : a.Admits w) (rest : List Token) :
    a.leadsBefore b (w ++ rest) = true := by
  have hnull : a.nullable = false := by
    simp only [apart, Bool.and_eq_true, Bool.not_eq_true'] at hapart
    exact hapart.1.1
  cases w with
  | nil => exact absurd rfl (h.ne_nil hnull)
  | cons t ts =>
    have hmem := h.mem_heads
    rw [cons_append, leadsBefore, contains_iff_mem.mpr hmem, Bool.true_and]
    by_cases hclash : t.kind ∈ b.heads
    · obtain ⟨hname, hlone, hany, -, -⟩ := clash_of_apart hapart hmem hclash
      match ts, h with
      | [], h => simp [Admits, hname, hlone, hany] at h
      | u :: us, h =>
        have hsecond : u.kind ∈ a.names := by simpa [Admits, hname, hany] using h
        simp [hsecond]
    · by_cases hname : t.kind = .name
      · rw [hname] at hclash
        simp [hclash]
      · simp [hname]

theorem leadsBefore_eq_false (hapart : a.apart b F = true) (h : b.Admits w)
    (hrest : front rest ∈ F) : a.leadsBefore b (w ++ rest) = false := by
  cases w with
  | nil =>
    have hnull : b.nullable = true := h
    have haside : a.aside F = true := by
      simp only [apart, Bool.and_eq_true] at hapart
      simpa [hnull] using hapart.1.2
    cases rest with
    | nil => rfl
    | cons t ts =>
      have hleads : a.heads.contains t.kind = false := leads_eq_false haside hrest
      rw [nil_append, leadsBefore, hleads, Bool.false_and]
  | cons t ts =>
    by_cases hmem : t.kind ∈ a.heads
    · obtain ⟨hname, -, hany, hany', hsecond⟩ := clash_of_apart hapart hmem h.mem_heads
      have hheads : TokenKind.name ∈ b.heads := hname ▸ h.mem_heads
      have hother : ((ts ++ rest).head?.any fun u => a.names.contains u.kind) = false := by
        match ts, h with
        | [], h =>
          have hlone : b.lone = true := by simpa [Admits, hname, hany'] using h
          cases rest with
          | nil => rfl
          | cons u us =>
            have hnot : u.kind ∉ a.names := fun hu =>
              (hsecond _ hu).2.elim (by simp [hlone]) (absurd hrest)
            simpa using hnot
        | u :: us, h =>
          have hu : u.kind ∈ b.names := by simpa [Admits, hname, hany'] using h
          have hnot : u.kind ∉ a.names := fun hmem => (hsecond _ hmem).1 hu
          simpa using hnot
      rw [cons_append, leadsBefore, hother]
      simp [hname, hheads, hany]
    · simp [leadsBefore, hmem]

end Starts

namespace Parser

variable {ts : List Token}
variable {α β : Type}

theorem bind_eq_ok_iff {p : Parser α} {f : α → Parser β} {result : β × List Token} :
    (p >>= f) ts = .ok result ↔ ∃ x us, p ts = .ok (x, us) ∧ f x us = .ok result := by
  change Except.bind (p ts) (fun q => f q.1 q.2) = _ ↔ _
  cases p ts with
  | error e => simp [Except.bind]
  | ok q =>
    obtain ⟨x, us⟩ := q
    constructor
    · intro h
      exact ⟨x, us, rfl, h⟩
    · rintro ⟨x', us', heq, h⟩
      cases heq
      exact h

theorem bind_eq_ok {p : Parser α} {f : α → Parser β} {x : α}
    {result : β × List Token} (hp : p ts = .ok (x, us)) (hf : f x us = .ok result) :
    (p >>= f) ts = .ok result :=
  bind_eq_ok_iff.mpr ⟨x, us, hp, hf⟩

theorem pure_eq_ok_iff {x : α} {result : α × List Token} :
    (pure x : Parser α) ts = .ok result ↔ (x, ts) = result := by
  change Except.ok (x, ts) = _ ↔ _
  rw [Except.ok.injEq]

theorem map_eq_ok_iff {p : Parser α} {f : α → β} {result : β × List Token} :
    (do return f (← p)) ts = .ok result ↔ ∃ x us, p ts = .ok (x, us) ∧ (f x, us) = result := by
  simp only [bind_eq_ok_iff, pure_eq_ok_iff]

theorem get_bind (f : List Token → Parser α) (ts : List Token) : (get >>= f) ts = f ts ts := rfl

/-! ## What is read are the tokens of the derivation -/

def Sound {r : Rhs} (p : Parser (Parts Derivation r)) : Prop :=
  ∀ ts v rest, p ts = .ok (v, rest) → ts = v.yield ++ rest

theorem sound_token (kinds : List TokenKind) : Sound (r := .tok kinds) (token kinds) := by
  intro ts v rest h
  cases ts with
  | nil => cases h
  | cons t ts =>
    rw [token] at h
    split at h
    next hkind =>
      cases h
      rfl
    next => cases h

section

variable {a b : Rhs} {p : Parser (Parts Derivation a)} {q : Parser (Parts Derivation b)}

theorem sound_both (hp : Sound p) (hq : Sound q) : Sound (r := .seq a b) (both p q) := by
  intro ts v rest h
  obtain ⟨x, us, hx, h⟩ := bind_eq_ok_iff.mp h
  obtain ⟨y, us', hy, heq⟩ := map_eq_ok_iff.mp h
  cases heq
  rw [hp _ _ _ hx, hq _ _ _ hy, ← append_assoc]
  rfl

theorem sound_either (hp : Sound p) (hq : Sound q) (s t : Starts) :
    Sound (r := .alt a b) (either s t p q) := by
  intro ts v rest h
  rw [either, get_bind] at h
  split at h
  · obtain ⟨x, us, hx, heq⟩ := map_eq_ok_iff.mp h
    cases heq
    exact hp _ _ _ hx
  · obtain ⟨y, us, hy, heq⟩ := map_eq_ok_iff.mp h
    cases heq
    exact hq _ _ _ hy

theorem sound_atMostOne (hp : Sound p) (s : Starts) : Sound (r := .opt a) (atMostOne s p) := by
  intro ts v rest h
  rw [atMostOne, get_bind] at h
  split at h
  · obtain ⟨x, us, hx, heq⟩ := map_eq_ok_iff.mp h
    cases heq
    exact hp _ _ _ hx
  · cases pure_eq_ok_iff.mp h
    rfl

theorem sound_many (hp : Sound p) (s : Starts) (fuel : Nat) :
    Sound (r := .star a) (many s p fuel) := by
  induction fuel with
  | zero =>
    intro ts v rest h
    cases pure_eq_ok_iff.mp h
    rfl
  | succ fuel ih =>
    intro ts v rest h
    rw [many, get_bind] at h
    split at h
    · obtain ⟨x, us, hx, h⟩ := bind_eq_ok_iff.mp h
      obtain ⟨xs, us', hxs, heq⟩ := map_eq_ok_iff.mp h
      cases heq
      rw [hp _ _ _ hx, ih _ _ _ hxs, ← append_assoc]
      rfl
    · cases pure_eq_ok_iff.mp h
      rfl

end

theorem sound_rhs {sub : (s : Symbol) → Parser (Derivation s)}
    (hsub : ∀ s, Sound (r := .nt s) (sub s)) (fuel : Nat) (r : Rhs) :
    Sound (rhs sub fuel r) := by
  induction r with
  | tok kinds => exact sound_token kinds
  | nt s => exact hsub s
  | seq a b iha ihb => exact sound_both iha ihb
  | alt a b iha ihb => exact sound_either iha ihb _ _
  | opt a iha => exact sound_atMostOne iha _
  | star a iha => exact sound_many iha _ fuel

theorem sound_symbol (fuel : Nat) (s : Symbol) : Sound (r := .nt s) (symbol fuel s) := by
  induction fuel generalizing s with
  | zero =>
    intro ts d rest h
    cases h
  | succ fuel ih =>
    intro ts d rest h
    obtain ⟨v, us, hv, heq⟩ := map_eq_ok_iff.mp h
    cases heq
    rw [sound_rhs ih fuel _ _ _ _ hv, ← yield_reshape]
    rfl

/-! ## Every derivation is read -/

section Complete

def Fueled (fuel : Nat) (ts : List Token) (rank : Nat) : Prop :=
  callsPerToken * ts.length + rank ≤ fuel

theorem Fueled.mono {n : Nat} (h : Fueled fuel ts m)
    (hlength : us.length ≤ ts.length) (hrank : n ≤ m) : Fueled fuel us n :=
  Nat.le_trans (Nat.add_le_add (Nat.mul_le_mul_left _ hlength) hrank) h

theorem rank_le (s : Symbol) : rank s ≤ callsPerToken := by
  cases s with
  | chain l => cases l <;> decide
  | comparison c => cases c <;> decide
  | _ => decide

theorem rank_rhs_le (r : Rhs) : r.rank ≤ callsPerToken := by
  induction r with
  | tok kinds => exact Nat.zero_le _
  | nt s => exact rank_le s
  | seq a b iha ihb =>
    rw [Rhs.rank]
    split
    · exact Nat.max_le.mpr ⟨iha, ihb⟩
    · exact iha
  | alt a b iha ihb => exact Nat.max_le.mpr ⟨iha, ihb⟩
  | opt a ih => exact ih
  | star a ih => exact ih

theorem Fueled.of_shorter (h : Fueled fuel ts m)
    (hlength : us.length < ts.length) (r : Rhs) : Fueled fuel us r.rank := by
  have hrank := rank_rhs_le r
  simp only [Fueled, callsPerToken] at *
  omega

/-- `p` reads whatever matches `r` off the front of the tokens, if what comes next
is allowed by `F`. -/
def Complete (fuel : Nat) (r : Rhs) (F : List (Option TokenKind))
    (p : Parser (Parts Derivation r)) : Prop :=
  ∀ v rest, front rest ∈ F → Fueled fuel (v.yield ++ rest) r.rank →
    p (v.yield ++ rest) = .ok (v, rest)

theorem complete_token (fuel : Nat) (kinds : List TokenKind) (F : List (Option TokenKind)) :
    Complete fuel (.tok kinds) F (token kinds) := by
  intro v rest _ _
  change token kinds (v.1 :: rest) = _
  rw [token, dif_pos v.2]

variable {a b : Rhs} {F : List (Option TokenKind)} {n : Nat}
  {p : Parser (Parts Derivation a)} {q : Parser (Parts Derivation b)}

theorem complete_both (hp : Complete n a (b.starts.before F) p) (hq : Complete n b F q) :
    Complete n (.seq a b) F (both p q) := by
  rintro ⟨x, y⟩ rest hrest hfuel
  have hsplit : Parts.yield (r := .seq a b) (x, y) ++ rest = x.yield ++ (y.yield ++ rest) :=
    append_assoc _ _ _
  rw [hsplit] at hfuel ⊢
  rw [Rhs.rank] at hfuel
  have hrank : a.rank ≤ if a.starts.nullable then max a.rank b.rank else a.rank := by
    split <;> omega
  have hfuel' : Fueled n (y.yield ++ rest) b.rank := by
    by_cases hnull : a.starts.nullable = true
    · rw [if_pos hnull] at hfuel
      exact hfuel.mono (by simp) (Nat.le_max_right _ _)
    · have hne := x.admits_yield.ne_nil (Bool.eq_false_iff.mpr hnull)
      have hlength := length_pos_iff.mpr hne
      exact hfuel.of_shorter (by simp only [length_append]; omega) b
  have hx := hp x _ (y.admits_yield.front_mem hrest) (hfuel.mono (Nat.le_refl _) hrank)
  exact bind_eq_ok hx (bind_eq_ok (hq y rest hrest hfuel') rfl)

theorem complete_either (hapart : a.starts.apart b.starts F = true)
    (hp : Complete n a F p) (hq : Complete n b F q) :
    Complete n (.alt a b) F (either a.starts b.starts p q) := by
  rintro (x | y) rest hrest hfuel
  · have hleads := Starts.leadsBefore_eq_true hapart x.admits_yield rest
    have hx := hp x rest hrest (hfuel.mono (Nat.le_refl _) (Nat.le_max_left _ _))
    change either a.starts b.starts p q (x.yield ++ rest) = _
    rw [either, get_bind, if_pos hleads]
    exact bind_eq_ok hx rfl
  · have hleads := Starts.leadsBefore_eq_false hapart y.admits_yield hrest
    have hy := hq y rest hrest (hfuel.mono (Nat.le_refl _) (Nat.le_max_right _ _))
    change either a.starts b.starts p q (y.yield ++ rest) = _
    rw [either, get_bind, if_neg (Bool.eq_false_iff.mp hleads)]
    exact bind_eq_ok hy rfl

theorem complete_atMostOne (hnull : a.starts.nullable = false)
    (haside : a.starts.aside F = true) (hp : Complete n a F p) :
    Complete n (.opt a) F (atMostOne a.starts p) := by
  rintro (_ | x) rest hrest hfuel
  · change atMostOne a.starts p rest = _
    rw [atMostOne, get_bind, Starts.leads_eq_false haside hrest]
    rfl
  · have hleads := Starts.leads_eq_true x.admits_yield (x.admits_yield.ne_nil hnull) rest
    change atMostOne a.starts p (x.yield ++ rest) = _
    rw [atMostOne, get_bind, if_pos hleads]
    exact bind_eq_ok (hp x rest hrest hfuel) rfl

theorem complete_many (hnull : a.starts.nullable = false) (haside : a.starts.aside F = true)
    (hp : Complete n a ((Starts.star a.starts).before F) p) :
    Complete n (.star a) F (many a.starts p n) := by
  -- The loop has fuel of its own, one for every token that is left.
  have hloop : ∀ (fuel : Nat) (vs : List (Parts Derivation a)) (rest : List Token),
      front rest ∈ F → Fueled n (Parts.yield (r := .star a) vs ++ rest) a.rank →
      (Parts.yield (r := .star a) vs ++ rest).length ≤ fuel →
      many a.starts p fuel (Parts.yield (r := .star a) vs ++ rest) = .ok (vs, rest) := by
    intro fuel vs rest hrest hfuel hlength
    induction vs generalizing fuel with
    | nil =>
      change many a.starts p fuel rest = _
      cases fuel with
      | zero => rfl
      | succ fuel =>
        rw [many, get_bind, Starts.leads_eq_false haside hrest]
        rfl
    | cons v vs ih =>
      have hne := v.admits_yield.ne_nil hnull
      have hpos := length_pos_iff.mpr hne
      have hsplit : Parts.yield (r := .star a) (v :: vs) ++ rest =
          v.yield ++ (Parts.yield (r := .star a) vs ++ rest) := append_assoc _ _ _
      rw [hsplit, length_append] at hlength
      rw [hsplit] at hfuel ⊢
      obtain ⟨fuel, rfl⟩ : ∃ m, fuel = m + 1 := ⟨fuel - 1, by omega⟩
      rw [many, get_bind, if_pos (Starts.leads_eq_true v.admits_yield hne _)]
      have hv := hp v _ ((Parts.admits_yield (r := .star a) vs).front_mem hrest) hfuel
      have hvs := ih fuel (hfuel.mono (by simp) (Nat.le_refl _)) (by omega)
      exact bind_eq_ok hv (bind_eq_ok hvs rfl)
  intro vs rest hrest hfuel
  apply hloop n vs rest hrest hfuel
  simp only [Fueled, callsPerToken] at hfuel
  omega

theorem complete_rhs {sub : (s : Symbol) → Parser (Derivation s)}
    (hsub : ∀ s, isRead s = true → Complete n (.nt s) (follow s) (sub s))
    (r : Rhs) (hpredicts : r.predicts F = true) : Complete n r F (rhs sub n r) := by
  induction r generalizing F with
  | tok kinds => exact complete_token n kinds F
  | nt s =>
    simp only [Rhs.predicts, Bool.and_eq_true, all_eq_true, contains_iff_mem] at hpredicts
    intro v rest hrest hfuel
    exact hsub s hpredicts.1 v rest (hpredicts.2 _ hrest) hfuel
  | seq a b iha ihb =>
    simp only [Rhs.predicts, Bool.and_eq_true] at hpredicts
    exact complete_both (iha hpredicts.1) (ihb hpredicts.2)
  | alt a b iha ihb =>
    simp only [Rhs.predicts, Bool.and_eq_true] at hpredicts
    exact complete_either hpredicts.2 (iha hpredicts.1.1) (ihb hpredicts.1.2)
  | opt a iha =>
    simp only [Rhs.predicts, Bool.and_eq_true, Bool.not_eq_true'] at hpredicts
    exact complete_atMostOne hpredicts.1.2 hpredicts.2 (iha hpredicts.1.1)
  | star a iha =>
    simp only [Rhs.predicts, Bool.and_eq_true, Bool.not_eq_true'] at hpredicts
    exact complete_many hpredicts.1.2 hpredicts.2 (iha hpredicts.1.1)

/-- With enough fuel for the tokens in front, a symbol that is read on its own
is read as any of its derivations whose tokens they are. -/
theorem complete_symbol (n : Nat) (s : Symbol) (hread : isRead s = true) :
    Complete n (.nt s) (follow s) (symbol n s) := by
  have hrank := rank_reading_lt s hread
  induction n generalizing s with
  | zero =>
    intro d rest _ hfuel
    simp only [Fueled, Rhs.rank] at hfuel
    omega
  | succ n ih =>
    intro d rest hrest hfuel
    obtain ⟨v, rfl⟩ := Tree.exists_node d
    obtain ⟨u, rfl⟩ := exists_reshape s v
    have hyield : Parts.yield (r := .nt s) (Tree.node s (reshape s u)) = u.yield :=
      yield_reshape s u
    have hfuel' : Fueled n (u.yield ++ rest) (reading s).rank := by
      rw [hyield] at hfuel
      simp only [Fueled, Rhs.rank] at hfuel ⊢
      omega
    rw [hyield]
    have hrhs := complete_rhs (fun s hs => ih s hs (rank_reading_lt s hs)) (reading s)
      (predicts_reading s hread)
    exact bind_eq_ok (hrhs u rest hrest hfuel') rfl

end Complete

theorem unit_eq_ok_iff {d : Derivation .unit} : unit ts = .ok d ↔ d.yield = ts := by
  constructor
  · intro h
    rw [unit] at h
    split at h
    next d' hd =>
      cases h
      rw [sound_symbol _ _ _ _ _ hd]
      exact (append_nil _).symm
    next => cases h
    next => cases h
  · rintro rfl
    have hfuel : Fueled (callsPerToken * (d.yield.length + 1)) (d.yield ++ []) (rank .unit) := by
      simp only [Fueled, callsPerToken, append_nil, rank]
      omega
    have hd := complete_symbol _ .unit rfl d [] (mem_singleton.mpr rfl) hfuel
    rw [append_nil] at hd
    rw [unit]
    change symbol _ _ d.yield = _ at hd
    rw [hd]

theorem eq_of_yield_eq {d e : Derivation .unit} (h : d.yield = e.yield) : d = e := by
  have hd : unit e.yield = .ok d := unit_eq_ok_iff.mpr h
  have he : unit e.yield = .ok e := unit_eq_ok_iff.mpr rfl
  rw [hd] at he
  exact Except.ok.inj he

end Parser

end CheckedThrows.Grammar
