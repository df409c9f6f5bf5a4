import CheckedThrows.Proofs.Parsing
import Mathlib.Logic.Nonempty

/-!
# Where reading stops

Reading from left to right stops after a match or in the middle of one.  The
tokens up to the one in front then decide how the matches go on that start with
them: behind a match that was read there is no other, and where reading failed
there is none at all.
-/

namespace CheckedThrows.Grammar

open List

variable {a : Starts} {t : Token}

/-! ## Every symbol can be completed -/

def height : Symbol → Nat
  | .metadata | .topDecl | .varDecl | .functionDecl | .getterDecl | .setterDecl
  | .operatorDecl | .namedConstructor | .localFunction | .statement | .tryStmt
  | .catchClause | .finallyClause | .lambda | .suffixed => 1
  | .classMember | .expr | .unary => 2
  | .varInit | .exprStmt | .ifStmt | .whileStmt | .throwExpr | .assignment
  | .chain .product => 3
  | .chain .sum => 4
  | .chain .shift => 5
  | .chain .bitAnd => 6
  | .chain .bitXor => 7
  | .chain .bitOr => 8
  | .comparison .relation => 9
  | .comparison .equality => 10
  | .chain .and => 11
  | .chain .or => 12
  | _ => 0

namespace Rhs

def completes (bound : Nat) : Rhs → Bool
  | .tok kinds => !kinds.isEmpty
  | .nt s => Grammar.height s < bound
  | .seq a b => a.completes bound && b.completes bound
  | .alt a b => a.completes bound || b.completes bound
  | .opt _ | .star _ => true

def possible : Rhs → Bool
  | .tok kinds => !kinds.isEmpty
  | .nt _ => true
  | .seq a b | .alt a b => a.possible && b.possible
  | .opt a | .star a => a.possible

end Rhs

theorem completes_rule (s : Symbol) : (rule s).completes (height s) = true := by
  cases s with
  | chain l => cases l <;> decide
  | comparison c => cases c <;> decide
  | _ => decide

theorem possible_reading (s : Symbol) : (reading s).possible = true := by
  cases s with
  | chain l => cases l <;> decide
  | comparison c => cases c <;> decide
  | _ => decide

theorem nonempty_tok {kinds : List TokenKind} (h : (!kinds.isEmpty) = true) :
    Nonempty (Parts Derivation (.tok kinds)) := by
  obtain ⟨k, hk⟩ := exists_mem_of_ne_nil kinds (by simpa using h)
  exact ⟨⟨⟨k, "", ⟨.start, .start⟩⟩, hk⟩⟩

theorem nonempty_of_completes {bound : Nat} (hsub : ∀ s, height s < bound → Nonempty (Derivation s))
    {r : Rhs} (h : r.completes bound = true) : Nonempty (Parts Derivation r) := by
  induction r with
  | tok kinds => exact nonempty_tok h
  | nt s => exact hsub s (of_decide_eq_true h)
  | seq a b iha ihb =>
    obtain ⟨ha, hb⟩ := Bool.and_eq_true_iff.mp h
    exact nonempty_prod.mpr ⟨iha ha, ihb hb⟩
  | alt a b iha ihb =>
    rcases Bool.or_eq_true_iff.mp h with ha | hb
    · exact nonempty_sum.mpr (.inl (iha ha))
    · exact nonempty_sum.mpr (.inr (ihb hb))
  | opt a => exact ⟨none⟩
  | star a => exact ⟨[]⟩

theorem nonempty_derivation (s : Symbol) : Nonempty (Derivation s) := by
  induction hheight : height s using Nat.strongRecOn generalizing s with
  | ind n ih =>
    subst hheight
    obtain ⟨v⟩ := nonempty_of_completes (fun s' hs' => ih _ hs' s' rfl) (completes_rule s)
    exact ⟨Tree.node s v⟩

theorem nonempty_parts {r : Rhs} (h : r.possible = true) : Nonempty (Parts Derivation r) := by
  induction r with
  | tok kinds => exact nonempty_tok h
  | nt s => exact nonempty_derivation s
  | seq a b iha ihb =>
    obtain ⟨ha, hb⟩ := Bool.and_eq_true_iff.mp h
    exact nonempty_prod.mpr ⟨iha ha, ihb hb⟩
  | alt a b iha ihb => exact nonempty_sum.mpr (.inl (iha (Bool.and_eq_true_iff.mp h).1))
  | opt a => exact ⟨none⟩
  | star a => exact ⟨[]⟩

/-! ## The table of starts is exact -/

theorem heads_reading (s : Symbol) :
    isRead s = true → (starts s).heads.all (reading s).starts.heads.contains = true := by
  cases s with
  | chain l => cases l <;> decide
  | comparison c => cases c <;> decide
  | _ => decide

theorem nullable_reading (s : Symbol) :
    isRead s = true → (starts s).nullable = true → (reading s).starts.nullable = true := by
  cases s with
  | chain l => cases l <;> decide
  | comparison c => cases c <;> decide
  | _ => decide

namespace Starts

variable {a b : Starts} {k : TokenKind}

theorem mem_heads_tok {kinds : List TokenKind} (h : k ∈ (tok kinds).heads) : k ∈ kinds := by
  rcases mem_heads_iff.mp h with hkind | ⟨rfl, hlone | hnames⟩
  · exact (mem_filter.mp hkind).1
  · exact contains_iff_mem.mp hlone
  · exact absurd rfl hnames

theorem mem_heads_seq (h : k ∈ (seq a b).heads) :
    k ∈ a.heads ∨ a.nullable = true ∧ k ∈ b.heads := by
  simp only [mem_heads_iff, seq] at h ⊢
  by_cases hnull : a.nullable = true <;> by_cases hlone : a.lone = true <;>
    simp only [hnull, hlone] at h ⊢ <;> grind

theorem mem_heads_alt (h : k ∈ (alt a b).heads) : k ∈ a.heads ∨ k ∈ b.heads := by
  simp only [mem_heads_iff, alt] at h ⊢
  grind

theorem mem_heads_repeat (hnull : a.nullable = false) :
    k ∈ (seq a (star a)).heads ↔ k ∈ a.heads := by
  refine ⟨fun h => ?_, fun h => ?_⟩
  · rcases mem_heads_seq h with hhead | ⟨hempty, -⟩
    · exact hhead
    · exact Bool.noConfusion (hnull.symm.trans hempty)
  · simp only [mem_heads_iff, seq, star] at h ⊢
    grind

theorem leads_repeat (hnull : a.nullable = false) (ts : List Token) :
    (seq a (star a)).leads ts = a.leads ts := by
  cases ts with
  | nil => rfl
  | cons t ts =>
    rw [Bool.eq_iff_iff]
    exact contains_iff_mem.trans ((mem_heads_repeat hnull).trans contains_iff_mem.symm)

theorem aside_repeat (hnull : a.nullable = false) {F : List (Option TokenKind)}
    (haside : a.aside F = true) : (seq a (star a)).aside F = true :=
  all_eq_true.mpr fun k hk =>
    all_eq_true.mp haside k ((mem_heads_repeat hnull).mp hk)

theorem leadsBefore_congr {w rest z : List Token} (hw : w ≠ [])
    (ht : t ∈ rest.head?) (hbegins : w ++ [t] <+: z) :
    a.leadsBefore b (w ++ rest) = a.leadsBefore b z := by
  obtain ⟨rest, rfl⟩ : ∃ us, rest = t :: us := by
    cases rest with
    | nil => cases ht
    | cons u us =>
      cases ht
      exact ⟨us, rfl⟩
  obtain ⟨z, rfl⟩ := hbegins
  match w, hw with
  | [_], _ => rfl
  | _ :: _ :: _, _ => rfl

theorem leads_of_leadsBefore {ts : List Token}
    (h : a.leadsBefore b ts = true) : a.leads ts = true := by
  cases ts with
  | nil => cases h
  | cons t ts => exact (Bool.and_eq_true_iff.mp h).1

theorem leadsBefore_of_not_mem {ts : List Token}
    (ha : t.kind ∈ a.heads) (hb : t.kind ∉ b.heads) : a.leadsBefore b (t :: ts) = true := by
  by_cases hname : t.kind = .name
  · simp [leadsBefore, ha, ← hname, hb]
  · simp [leadsBefore, ha, hname]

end Starts

/-! ## What the tokens that were read decide -/

def Begins (r : Rhs) (w : List Token) : Prop :=
  ∃ v : Parts Derivation r, w <+: v.yield

/-- Reading by `r` stopped after the tokens `w` with `rest` left.  It did not
stop before a token that can start a match, and wherever a match goes on as the
tokens do, up to the one in front of `rest`, its own tokens are as `Q` says. -/
structure Settles (r : Rhs) (F : List (Option TokenKind)) (w rest : List Token)
    (Q : List Token → Prop) : Prop where
  advances : ∀ t ∈ (w ++ rest).head?, t.kind ∈ r.starts.heads → w ≠ []
  only : ∀ t ∈ rest.head?, ∀ (v : Parts Derivation r) (k : List Token), front k ∈ F →
    w ++ [t] <+: v.yield ++ k → Q v.yield

namespace Settles

variable {r : Rhs}
variable {a b : Rhs} {F : List (Option TokenKind)} {w rest : List Token} {Q : List Token → Prop}

theorem imp {Q' : List Token → Prop} (h : Settles r F w rest Q)
    (hQ : ∀ z, Q z → Q' z) : Settles r F w rest Q' :=
  ⟨h.advances, fun t ht v k hk hprefix => hQ _ (h.only t ht v k hk hprefix)⟩

theorem mono {F' : List (Option TokenKind)} (h : Settles r F w rest Q)
    (hF : ∀ f ∈ F', f ∈ F) : Settles r F' w rest Q :=
  ⟨h.advances, fun t ht v k hk => h.only t ht v k (hF _ hk)⟩

theorem seq_left (h : Settles a (b.starts.before F) w rest fun _ => False)
    (hnull : a.starts.nullable = true → w ≠ []) :
    Settles (.seq a b) F w rest fun _ => False where
  advances t ht hmem := by
    rcases Starts.mem_heads_seq hmem with hhead | ⟨hempty, -⟩
    · exact h.advances t ht hhead
    · exact hnull hempty
  only t ht v k hk hprefix := by
    obtain ⟨x, y⟩ := v
    have hsplit : Parts.yield (r := .seq a b) (x, y) ++ k = x.yield ++ (y.yield ++ k) :=
      append_assoc _ _ _
    rw [hsplit] at hprefix
    exact h.only t ht x _ (y.admits_yield.front_mem hk) hprefix

theorem seq_right {x : Parts Derivation a}
    (ha : Settles a (b.starts.before F) x.yield (w ++ rest) (· = x.yield))
    (hb : Settles b F w rest Q) :
    Settles (.seq a b) F (x.yield ++ w) rest fun z => ∃ z', z = x.yield ++ z' ∧ Q z' where
  advances t ht hmem hempty := by
    obtain ⟨hx, hw⟩ := append_eq_nil_iff.mp hempty
    rw [hx, hw] at ht
    rcases Starts.mem_heads_seq hmem with hhead | ⟨-, hhead⟩
    · exact ha.advances t (by rwa [hx, hw]) hhead hx
    · exact hb.advances t (by rwa [hw]) hhead hw
  only t ht v k hk hprefix := by
    obtain ⟨x', y⟩ := v
    have hsplit : Parts.yield (r := .seq a b) (x', y) ++ k = x'.yield ++ (y.yield ++ k) :=
      append_assoc _ _ _
    rw [hsplit, append_assoc] at hprefix
    obtain ⟨u, us, hu⟩ : ∃ u us, w ++ [t] = u :: us :=
      exists_cons_of_ne_nil (by simp)
    have hfront : u ∈ (w ++ rest).head? := by
      cases w with
      | nil =>
        cases hu
        exact ht
      | cons t' w =>
        cases hu
        rfl
    have hx : x'.yield = x.yield := by
      refine ha.only u hfront x' _ (y.admits_yield.front_mem hk) (List.IsPrefix.trans ?_ hprefix)
      rw [hu]
      exact ⟨us, by simp⟩
    rw [hx, prefix_append_right_inj] at hprefix
    exact ⟨y.yield, congrArg (· ++ y.yield) hx, hb.only t ht y k hk hprefix⟩

theorem ne_nil (h : Settles r F w rest Q)
    (hleads : r.starts.leads (w ++ rest) = true) : w ≠ [] := by
  cases hts : w ++ rest with
  | nil =>
    rw [hts] at hleads
    cases hleads
  | cons t ts =>
    rw [hts] at hleads
    exact h.advances t (by rw [hts]; rfl) (contains_iff_mem.mp hleads)

/-- Where the tokens in front chose the first alternative, no match of the second
goes on as they do: a name is followed by another token there. -/
theorem alt_left (hapart : a.starts.apart b.starts F = true)
    (hleads : a.starts.leadsBefore b.starts (w ++ rest) = true) (h : Settles a F w rest Q) :
    Settles (.alt a b) F w rest Q := by
  have hread := h.ne_nil (Starts.leads_of_leadsBefore hleads)
  refine ⟨fun _ _ _ => hread, fun t ht v k hk hprefix => ?_⟩
  rcases v with x | y
  · exact h.only t ht x k hk hprefix
  · exfalso
    have hother := Starts.leadsBefore_eq_false hapart y.admits_yield hk
    rw [Starts.leadsBefore_congr hread ht hprefix] at hleads
    exact Bool.noConfusion (hleads.symm.trans hother)

theorem alt_right (hapart : a.starts.apart b.starts F = true)
    (hleads : a.starts.leadsBefore b.starts (w ++ rest) = false) (h : Settles b F w rest Q) :
    Settles (.alt a b) F w rest Q where
  advances t ht hmem := by
    by_cases hhead : t.kind ∈ b.starts.heads
    · exact h.advances t ht hhead
    · have ha := (Starts.mem_heads_alt hmem).resolve_right hhead
      obtain ⟨ts, hts⟩ := head?_eq_some_iff.mp ht
      rw [hts, Starts.leadsBefore_of_not_mem ha hhead] at hleads
      cases hleads
  only t ht v k hk hprefix := by
    rcases v with x | y
    · exfalso
      change w ++ [t] <+: x.yield ++ k at hprefix
      have hother := Starts.leadsBefore_eq_true hapart x.admits_yield k
      by_cases hread : w = []
      · -- The token in front starts the first alternative, and only that one.
        subst hread
        obtain ⟨ts, rfl⟩ := head?_eq_some_iff.mp ht
        obtain ⟨us, hus⟩ := hprefix
        have ha : t.kind ∈ a.starts.heads := by
          change t :: us = _ at hus
          rw [← hus, Starts.leadsBefore, Bool.and_eq_true] at hother
          exact contains_iff_mem.mp hother.1
        have hb : t.kind ∉ b.starts.heads := fun hhead => h.advances t rfl hhead rfl
        change a.starts.leadsBefore b.starts (t :: ts) = false at hleads
        rw [Starts.leadsBefore_of_not_mem ha hb] at hleads
        cases hleads
      · rw [Starts.leadsBefore_congr hread ht hprefix] at hleads
        exact Bool.noConfusion (hleads.symm.trans hother)
    · exact h.only t ht y k hk hprefix

/-- Where the tokens in front start a match, what can follow does not go on as
they do. -/
theorem not_prefix_of_aside (h : Settles r F w rest Q)
    (haside : r.starts.aside F = true) (hleads : r.starts.leads (w ++ rest) = true)
    {k : List Token} (hk : front k ∈ F) : ¬w ++ [t] <+: k := by
  rintro ⟨us, rfl⟩
  have hfollow := Starts.leads_eq_false haside hk
  have hread := h.ne_nil hleads
  cases w with
  | nil => exact hread rfl
  | cons u w => exact Bool.noConfusion (hleads.symm.trans hfollow)

theorem opt_some (haside : a.starts.aside F = true)
    (hleads : a.starts.leads (w ++ rest) = true) (h : Settles a F w rest Q) :
    Settles (.opt a) F w rest Q where
  advances := h.advances
  only t ht v k hk hprefix := by
    rcases v with _ | x
    · exact absurd hprefix (h.not_prefix_of_aside haside hleads hk)
    · exact h.only t ht x k hk hprefix

theorem opt_none (hnull : a.starts.nullable = false) (hleads : a.starts.leads rest = false) :
    Settles (.opt a) F [] rest (· = []) where
  advances t ht hmem _ := by
    obtain ⟨ts, rfl⟩ := head?_eq_some_iff.mp ht
    exact absurd (contains_iff_mem.mpr hmem) (Bool.eq_false_iff.mp hleads)
  only t ht v k hk hprefix := by
    rcases v with _ | x
    · rfl
    · exfalso
      obtain ⟨ts, rfl⟩ := head?_eq_some_iff.mp ht
      obtain ⟨us, hus⟩ := hprefix
      have hstart := Starts.leads_eq_true x.admits_yield (x.admits_yield.ne_nil hnull) k
      change t :: us = x.yield ++ k at hus
      rw [← hus] at hstart
      exact Bool.noConfusion (hstart.symm.trans hleads)

/-- What is repeated is read like an optional match with the others behind it. -/
theorem star (hnull : a.starts.nullable = false)
    (h : Settles (.opt (.seq a (.star a))) F w rest Q) : Settles (.star a) F w rest Q where
  advances t ht hmem :=
    h.advances t ht ((Starts.mem_heads_repeat hnull).mpr (Starts.mem_heads_star.mp hmem))
  only t ht v k hk hprefix := by
    rcases v with _ | ⟨x, xs⟩
    · exact h.only t ht none k hk hprefix
    · exact h.only t ht (some (x, xs)) k hk hprefix

end Settles

structure Fails (r : Rhs) (F : List (Option TokenKind)) (w rest : List Token) : Prop where
  begins : Begins r w
  ne_nil : r.starts.nullable = true → w ≠ []
  settles : Settles r F w rest fun _ => False

namespace Fails

variable {a b : Rhs} {F : List (Option TokenKind)} {w rest : List Token}

theorem seq_left (hb : b.possible = true) (h : Fails a (b.starts.before F) w rest) :
    Fails (.seq a b) F w rest where
  begins := by
    obtain ⟨x, hx⟩ := h.begins
    obtain ⟨y⟩ := nonempty_parts hb
    exact ⟨(x, y), hx.trans (prefix_append _ _)⟩
  ne_nil hnull := h.ne_nil (Bool.and_eq_true_iff.mp hnull).1
  settles := h.settles.seq_left h.ne_nil

theorem seq_right {x : Parts Derivation a}
    (hx : Settles a (b.starts.before F) x.yield (w ++ rest) (· = x.yield))
    (h : Fails b F w rest) : Fails (.seq a b) F (x.yield ++ w) rest where
  begins := by
    obtain ⟨y, hy⟩ := h.begins
    exact ⟨(x, y), (prefix_append_right_inj _).mpr hy⟩
  ne_nil hnull := append_ne_nil_of_right_ne_nil _ (h.ne_nil (Bool.and_eq_true_iff.mp hnull).2)
  settles := (hx.seq_right h.settles).imp fun _ ⟨_, _, hfalse⟩ => hfalse

theorem alt_left (hapart : a.starts.apart b.starts F = true)
    (hleads : a.starts.leadsBefore b.starts (w ++ rest) = true) (h : Fails a F w rest) :
    Fails (.alt a b) F w rest where
  begins := h.begins.elim fun x hx => ⟨.inl x, hx⟩
  ne_nil _ := h.settles.ne_nil (Starts.leads_of_leadsBefore hleads)
  settles := h.settles.alt_left hapart hleads

theorem alt_right (hapart : a.starts.apart b.starts F = true)
    (hleads : a.starts.leadsBefore b.starts (w ++ rest) = false) (h : Fails b F w rest) :
    Fails (.alt a b) F w rest where
  begins := h.begins.elim fun y hy => ⟨.inr y, hy⟩
  ne_nil hnull := by
    have ha : a.starts.nullable = false := by
      simp only [Starts.apart, Bool.and_eq_true, Bool.not_eq_true'] at hapart
      exact hapart.1.1
    exact h.ne_nil ((Bool.or_eq_true_iff.mp hnull).resolve_left (Bool.eq_false_iff.mp ha))
  settles := h.settles.alt_right hapart hleads

theorem opt (haside : a.starts.aside F = true) (hleads : a.starts.leads (w ++ rest) = true)
    (h : Fails a F w rest) : Fails (.opt a) F w rest where
  begins := h.begins.elim fun x hx => ⟨some x, hx⟩
  ne_nil _ := h.settles.ne_nil hleads
  settles := h.settles.opt_some haside hleads

theorem star (hnull : a.starts.nullable = false) (h : Fails (.opt (.seq a (.star a))) F w rest) :
    Fails (.star a) F w rest where
  begins := by
    obtain ⟨_ | ⟨x, xs⟩, hv⟩ := h.begins
    · exact ⟨[], hv⟩
    · exact ⟨x :: xs, hv⟩
  ne_nil _ := h.ne_nil rfl
  settles := h.settles.star hnull

end Fails

end CheckedThrows.Grammar
