import CheckedThrows.Proofs.Stopping
import CheckedThrows.Proofs.Tiling

/-!
# Where a text is rejected

A sequence of tokens is viable if some program starts with it.  The parser
reads a token only if what it has read stays viable.  So a text that is not
derived is rejected at the last token of its shortest beginning that is not
viable, and at its end if there is none.
-/

namespace CheckedThrows

open List

namespace Grammar

/-! ## The parser stops where it must -/

namespace Parser

variable {ts : List Token}
variable {α β : Type}

theorem bind_eq_error_iff {p : Parser α} {f : α → Parser β} {e : Unexpected} :
    (p >>= f) ts = .error e ↔ p ts = .error e ∨ ∃ x us, p ts = .ok (x, us) ∧ f x us = .error e := by
  change Except.bind (p ts) (fun q => f q.1 q.2) = _ ↔ _
  cases p ts with
  | error e => simp [Except.bind]
  | ok q =>
    obtain ⟨x, us⟩ := q
    simp [Except.bind]

theorem map_eq_error_iff {p : Parser α} {f : α → β} {e : Unexpected} :
    (do return f (← p)) ts = .error e ↔ p ts = .error e := by
  rw [bind_eq_error_iff]
  constructor
  · rintro (herror | ⟨x, us, -, hpure⟩)
    · exact herror
    · cases hpure
  · exact .inl

theorem Fueled.seq_left {n : Nat} {a b : Rhs}
    (h : Fueled n ts (Rhs.seq a b).rank) : Fueled n ts a.rank := by
  refine h.mono (Nat.le_refl _) ?_
  rw [Rhs.rank]
  split <;> omega

theorem Fueled.seq_right {n : Nat} {a b : Rhs} {x : Parts Derivation a} {us : List Token}
    (h : Fueled n (x.yield ++ us) (Rhs.seq a b).rank) : Fueled n us b.rank := by
  rw [Rhs.rank] at h
  by_cases hnull : a.starts.nullable = true
  · rw [if_pos hnull] at h
    exact h.mono (by simp) (Nat.le_max_right _ _)
  · have hne := x.admits_yield.ne_nil (Bool.eq_false_iff.mpr hnull)
    have hlength := length_pos_iff.mpr hne
    exact h.of_shorter (by simp only [length_append]; omega) b

/-- Off the front of tokens that satisfy `P`, `p` reads matches of `r` as far as
they go on like one. -/
structure Exact (P : List Token → Prop) (r : Rhs) (F : List (Option TokenKind))
    (p : Parser (Parts Derivation r)) : Prop where
  stops : ∀ {ts v rest}, P ts → p ts = .ok (v, rest) → Settles r F v.yield rest (· = v.yield)
  fails : ∀ {ts e}, P ts → p ts = .error e →
    ∃ w rest, ts = w ++ rest ∧ e = rest.head? ∧ Fails r F w rest

theorem Exact.weaken {P P' : List Token → Prop} {r : Rhs} {F : List (Option TokenKind)}
    {p : Parser (Parts Derivation r)} (h : Exact P r F p) (hP : ∀ {ts}, P' ts → P ts) :
    Exact P' r F p :=
  ⟨fun hts => h.stops (hP hts), fun hts => h.fails (hP hts)⟩

theorem exact_token (P : List Token → Prop) (kinds : List TokenKind)
    (F : List (Option TokenKind)) (hpossible : (Rhs.tok kinds).possible = true) :
    Exact P (.tok kinds) F (token kinds) where
  stops {ts v rest} _ h := by
    refine ⟨fun _ _ _ => cons_ne_nil _ _, fun t ht v' k _ hprefix => ?_⟩
    obtain ⟨us, hus⟩ := hprefix
    change v.1 :: t :: us = v'.1 :: k at hus
    exact congrArg (fun t => [t]) (List.cons.inj hus).1.symm
  fails {ts e} _ h := by
    obtain ⟨v⟩ := nonempty_parts hpossible
    have hfront : e = ts.head? ∧ ∀ t ∈ ts.head?, t.kind ∉ kinds := by
      cases ts with
      | nil =>
        cases h
        exact ⟨rfl, by simp⟩
      | cons t ts =>
        rw [token] at h
        split at h
        next => cases h
        next hkind =>
          cases h
          exact ⟨rfl, by simpa using hkind⟩
    refine ⟨[], ts, rfl, hfront.1, ⟨v, nil_prefix⟩, fun hnull => Bool.noConfusion hnull,
      fun t ht hmem => absurd (Starts.mem_heads_tok hmem) (hfront.2 t ht), ?_⟩
    rintro t ht v' k - ⟨us, hus⟩
    change t :: us = v'.1 :: k at hus
    exact hfront.2 t ht ((List.cons.inj hus).1 ▸ v'.2)

section

variable {P P' : List Token → Prop} {a b : Rhs} {F : List (Option TokenKind)}
  {p : Parser (Parts Derivation a)} {q : Parser (Parts Derivation b)}

theorem exact_both (hsound : Sound p) (hp : Exact P a (b.starts.before F) p)
    (hsound' : Sound q) (hq : Exact P' b F q) (hpossible : b.possible = true)
    (hP : ∀ {x : Parts Derivation a} {us}, P (x.yield ++ us) → P' us) :
    Exact P (.seq a b) F (both p q) where
  stops {ts v rest} hts h := by
    obtain ⟨x, us, hx, h⟩ := bind_eq_ok_iff.mp h
    obtain ⟨y, us', hy, heq⟩ := map_eq_ok_iff.mp h
    cases heq
    obtain rfl := hsound _ _ _ hx
    obtain rfl := hsound' _ _ _ hy
    have hstops := (hp.stops hts hx).seq_right (hq.stops (hP hts) hy)
    exact hstops.imp fun _ ⟨_, hz, hy⟩ => hz.trans (congrArg (x.yield ++ ·) hy)
  fails {ts e} hts h := by
    rcases bind_eq_error_iff.mp h with hx | ⟨x, us, hx, hy⟩
    · obtain ⟨w, rest, rfl, he, hfails⟩ := hp.fails hts hx
      exact ⟨w, rest, rfl, he, hfails.seq_left hpossible⟩
    · obtain rfl := hsound _ _ _ hx
      obtain ⟨w, rest, rfl, he, hfails⟩ := hq.fails (hP hts) (map_eq_error_iff.mp hy)
      exact ⟨x.yield ++ w, rest, (append_assoc _ _ _).symm, he,
        hfails.seq_right (hp.stops hts hx)⟩

theorem exact_either (hapart : a.starts.apart b.starts F = true)
    (hsound : Sound p) (hp : Exact P a F p) (hsound' : Sound q) (hq : Exact P b F q) :
    Exact P (.alt a b) F (either a.starts b.starts p q) where
  stops {ts v rest} hts h := by
    rw [either, get_bind] at h
    split at h
    next hleads =>
      obtain ⟨x, us, hx, heq⟩ := map_eq_ok_iff.mp h
      cases heq
      obtain rfl := hsound _ _ _ hx
      exact (hp.stops hts hx).alt_left hapart hleads
    next hleads =>
      obtain ⟨y, us, hy, heq⟩ := map_eq_ok_iff.mp h
      cases heq
      obtain rfl := hsound' _ _ _ hy
      exact (hq.stops hts hy).alt_right hapart (Bool.eq_false_iff.mpr hleads)
  fails {ts e} hts h := by
    rw [either, get_bind] at h
    split at h
    next hleads =>
      obtain ⟨w, rest, rfl, he, hfails⟩ := hp.fails hts (map_eq_error_iff.mp h)
      exact ⟨w, rest, rfl, he, hfails.alt_left hapart hleads⟩
    next hleads =>
      obtain ⟨w, rest, rfl, he, hfails⟩ := hq.fails hts (map_eq_error_iff.mp h)
      exact ⟨w, rest, rfl, he, hfails.alt_right hapart (Bool.eq_false_iff.mpr hleads)⟩

theorem exact_atMostOne (hnull : a.starts.nullable = false)
    (haside : a.starts.aside F = true) (hsound : Sound p) (hp : Exact P a F p) :
    Exact P (.opt a) F (atMostOne a.starts p) where
  stops {ts v rest} hts h := by
    rw [atMostOne, get_bind] at h
    split at h
    next hleads =>
      obtain ⟨x, us, hx, heq⟩ := map_eq_ok_iff.mp h
      cases heq
      obtain rfl := hsound _ _ _ hx
      exact (hp.stops hts hx).opt_some haside hleads
    next hleads =>
      cases pure_eq_ok_iff.mp h
      exact .opt_none hnull (Bool.eq_false_iff.mpr hleads)
  fails {ts e} hts h := by
    rw [atMostOne, get_bind] at h
    split at h
    next hleads =>
      obtain ⟨w, rest, rfl, he, hfails⟩ := hp.fails hts (map_eq_error_iff.mp h)
      exact ⟨w, rest, rfl, he, hfails.opt haside hleads⟩
    next => cases h

/-- A round of the loop reads an optional match with the others behind it. -/
theorem many_succ {s t : Starts} {ts : List Token} (hleads : t.leads ts = s.leads ts)
    (p : Parser α) (fuel : Nat) :
    many s p (fuel + 1) ts = (atMostOne t (both p (many s p fuel)) ts).map fun q =>
      ((q.1.map fun x => x.1 :: x.2).getD [], q.2) := by
  rw [many, atMostOne, get_bind, get_bind, hleads]
  split
  · change Except.bind (p ts) _ = Except.map _ (Except.bind (Except.bind (p ts) _) _)
    cases p ts with
    | error e => rfl
    | ok q =>
      obtain ⟨x, us⟩ := q
      change Except.bind (many s p fuel us) _ =
        Except.map _ (Except.bind (Except.bind (many s p fuel us) _) _)
      cases many s p fuel us with
      | error e => rfl
      | ok q => rfl
  · rfl

theorem exact_many {n : Nat} (hnull : a.starts.nullable = false)
    (haside : a.starts.aside F = true) (hpossible : a.possible = true) (hsound : Sound p)
    (hp : Exact (Fueled n · a.rank) a ((Starts.star a.starts).before F) p) (fuel : Nat) :
    Exact (fun ts => Fueled n ts a.rank ∧ ts.length ≤ fuel) (.star a) F (many a.starts p fuel) := by
  have hnull' : (Rhs.seq a (.star a)).starts.nullable = false := by
    simp [Rhs.starts, Starts.seq, hnull]
  induction fuel with
  | zero =>
    refine ⟨fun {ts v rest} hts h => ?_, fun {ts e} _ h => by cases h⟩
    cases pure_eq_ok_iff.mp h
    obtain rfl := length_eq_zero_iff.mp (Nat.le_zero.mp hts.2)
    exact .star hnull (.opt_none hnull' rfl)
  | succ fuel ih =>
    have hitem : Exact (fun ts => Fueled n ts a.rank ∧ ts.length ≤ fuel + 1)
        (.seq a (.star a)) F (both p (many a.starts p fuel)) := by
      refine exact_both hsound (hp.weaken And.left) (sound_many hsound _ _) ih hpossible ?_
      rintro x us ⟨hfuel, hlength⟩
      have hpos := length_pos_iff.mpr (x.admits_yield.ne_nil hnull)
      rw [length_append] at hlength
      exact ⟨hfuel.mono (by simp) (Nat.le_refl _), by omega⟩
    have hround := exact_atMostOne hnull' (Starts.aside_repeat hnull haside)
      (sound_both hsound (sound_many hsound _ _)) hitem
    have hmany := fun ts => many_succ (Starts.leads_repeat hnull ts) p fuel
    refine ⟨fun {ts v rest} hts h => ?_, fun {ts e} hts h => ?_⟩
    · rw [hmany] at h
      cases hu : atMostOne _ (both p (many a.starts p fuel)) ts with
      | error e =>
        rw [hu] at h
        cases h
      | ok u =>
        rw [hu] at h
        cases h
        have hstops := hround.stops hts hu
        obtain ⟨_ | ⟨x, xs⟩, rest⟩ := u
        · exact .star hnull hstops
        · exact .star hnull hstops
    · rw [hmany] at h
      cases hu : atMostOne _ (both p (many a.starts p fuel)) ts with
      | error e' =>
        rw [hu] at h
        cases h
        obtain ⟨w, rest, hsplit, he, hfails⟩ := hround.fails hts hu
        exact ⟨w, rest, hsplit, he, .star hnull hfails⟩
      | ok u =>
        rw [hu] at h
        cases h

theorem exact_rhs {n : Nat} {sub : (s : Symbol) → Parser (Derivation s)}
    (hsound : ∀ s, Sound (r := .nt s) (sub s))
    (hsub : ∀ s, isRead s = true → Exact (Fueled n · (rank s)) (.nt s) (follow s) (sub s))
    (r : Rhs) (hpredicts : r.predicts F = true) (hpossible : r.possible = true) :
    Exact (Fueled n · r.rank) r F (rhs sub n r) := by
  induction r generalizing F with
  | tok kinds => exact exact_token _ kinds F hpossible
  | nt s =>
    simp only [Rhs.predicts, Bool.and_eq_true, all_eq_true, contains_iff_mem] at hpredicts
    have hs := hsub s hpredicts.1
    refine ⟨fun hfuel h => (hs.stops hfuel h).mono hpredicts.2, fun hfuel h => ?_⟩
    obtain ⟨w, rest, hts, he, hfails⟩ := hs.fails hfuel h
    exact ⟨w, rest, hts, he, hfails.begins, hfails.ne_nil, hfails.settles.mono hpredicts.2⟩
  | seq a b iha ihb =>
    simp only [Rhs.predicts, Bool.and_eq_true] at hpredicts
    simp only [Rhs.possible, Bool.and_eq_true] at hpossible
    exact exact_both (sound_rhs hsound n a)
      ((iha hpredicts.1 hpossible.1).weaken Fueled.seq_left) (sound_rhs hsound n b)
      (ihb hpredicts.2 hpossible.2) hpossible.2 Fueled.seq_right
  | alt a b iha ihb =>
    simp only [Rhs.predicts, Bool.and_eq_true] at hpredicts
    simp only [Rhs.possible, Bool.and_eq_true] at hpossible
    exact exact_either hpredicts.2 (sound_rhs hsound n a)
      ((iha hpredicts.1.1 hpossible.1).weaken (Fueled.mono · (Nat.le_refl _) (Nat.le_max_left _ _)))
      (sound_rhs hsound n b)
      ((ihb hpredicts.1.2 hpossible.2).weaken
        (Fueled.mono · (Nat.le_refl _) (Nat.le_max_right _ _)))
  | opt a iha =>
    simp only [Rhs.predicts, Bool.and_eq_true, Bool.not_eq_true'] at hpredicts
    exact exact_atMostOne hpredicts.1.2 hpredicts.2 (sound_rhs hsound n a)
      (iha hpredicts.1.1 hpossible)
  | star a iha =>
    simp only [Rhs.predicts, Bool.and_eq_true, Bool.not_eq_true'] at hpredicts
    have hmany := exact_many hpredicts.1.2 hpredicts.2 hpossible (sound_rhs hsound n a)
      (iha hpredicts.1.1 hpossible) n
    refine hmany.weaken fun {ts} hfuel => ⟨hfuel, ?_⟩
    simp only [Fueled, callsPerToken] at hfuel
    omega

end

theorem settles_of_reading {s : Symbol} (hread : isRead s = true) {F : List (Option TokenKind)}
    {w rest : List Token} {Q : List Token → Prop} (h : Settles (reading s) F w rest Q) :
    Settles (.nt s) F w rest Q where
  advances t ht hmem :=
    h.advances t ht (contains_iff_mem.mp (all_eq_true.mp (heads_reading s hread) _ hmem))
  only t ht d k hk hprefix := by
    obtain ⟨v, rfl⟩ := Tree.exists_node d
    obtain ⟨u, rfl⟩ := exists_reshape s v
    have hyield : Parts.yield (r := .nt s) (Tree.node s (reshape s u)) = u.yield :=
      yield_reshape s u
    rw [hyield] at hprefix ⊢
    exact h.only t ht u k hk hprefix

theorem exact_symbol (n : Nat) (s : Symbol) (hread : isRead s = true) :
    Exact (Fueled n · (rank s)) (.nt s) (follow s) (symbol n s) := by
  have hrank := rank_reading_lt s hread
  induction n generalizing s with
  | zero =>
    have hnever : ∀ {ts : List Token}, ¬Fueled 0 ts (rank s) := by
      intro ts hfuel
      simp only [Fueled] at hfuel
      omega
    exact ⟨fun hfuel => absurd hfuel hnever, fun hfuel => absurd hfuel hnever⟩
  | succ n ih =>
    have hfueled : ∀ {ts : List Token}, Fueled (n + 1) ts (rank s) →
        Fueled n ts (reading s).rank := by
      intro ts hfuel
      simp only [Fueled] at hfuel ⊢
      omega
    have hreading := exact_rhs (sound_symbol n) (fun s hs => ih s hs (rank_reading_lt s hs))
      (reading s) (predicts_reading s hread) (possible_reading s)
    have hyield : ∀ u, Parts.yield (r := .nt s) (Tree.node s (reshape s u)) = u.yield :=
      yield_reshape s
    refine ⟨fun {ts d rest} hfuel h => ?_, fun {ts e} hfuel h => ?_⟩
    · obtain ⟨u, us, hu, heq⟩ := map_eq_ok_iff.mp h
      cases heq
      rw [hyield]
      exact settles_of_reading hread (hreading.stops (hfueled hfuel) hu)
    · obtain ⟨w, rest, hts, he, hfails⟩ :=
        hreading.fails (hfueled hfuel) (map_eq_error_iff.mp h)
      refine ⟨w, rest, hts, he, ?_, ?_, settles_of_reading hread hfails.settles⟩
      · obtain ⟨u, hu⟩ := hfails.begins
        exact ⟨Tree.node s (reshape s u), by rwa [hyield]⟩
      · exact fun hnull => hfails.ne_nil (nullable_reading s hread hnull)

end Parser

/-! ## Viable beginnings -/

/-- Some program starts with these tokens. -/
def Viable (w : List Token) : Prop :=
  ∃ d : Derivation .unit, w <+: d.yield

theorem Viable.of_prefix {w v : List Token} (h : Viable w) (hbegins : v <+: w) : Viable v :=
  h.imp fun _ hd => hbegins.trans hd

/-- The parser fails after the longest viable beginning of the tokens. -/
theorem Parser.unit_eq_error {ts : List Token} {e : Unexpected} (h : unit ts = .error e) :
    ∃ w rest, ts = w ++ rest ∧ e = rest.head? ∧ Viable w ∧
      ∀ t ∈ rest.head?, ¬Viable (w ++ [t]) := by
  have hexact := exact_symbol (callsPerToken * (ts.length + 1)) .unit rfl
  have hfuel : Fueled (callsPerToken * (ts.length + 1)) ts (rank .unit) := by
    simp only [Fueled, callsPerToken, rank]
    omega
  have hend : front [] ∈ follow .unit := mem_singleton.mpr rfl
  rw [unit] at h
  split at h
  next => cases h
  next d t rest hd =>
    cases h
    obtain rfl := sound_symbol _ _ _ _ _ hd
    refine ⟨Parts.yield (r := .nt .unit) d, t :: rest, rfl, rfl, ⟨d, prefix_refl _⟩, ?_⟩
    rintro u hu ⟨d', hd'⟩
    rw [← append_nil d'.yield] at hd'
    have heq := (hexact.stops hfuel hd).only u hu d' [] hend hd'
    have hlength := hd'.length_le
    change d'.yield = _ at heq
    rw [append_nil, heq, length_append, length_singleton] at hlength
    omega
  next e' herror =>
    cases h
    obtain ⟨w, rest, rfl, he, hfails⟩ := hexact.fails hfuel herror
    refine ⟨w, rest, rfl, he, hfails.begins, ?_⟩
    rintro t ht ⟨d, hd⟩
    rw [← append_nil d.yield] at hd
    exact hfails.settles.only t ht d [] hend hd

/-- Of the beginnings of some tokens that are not viable this one is the shortest. -/
structure FirstUnviable (w v : List Token) : Prop where
  is_prefix : v <+: w
  unviable : ¬Viable v
  shortest : ∀ u, u <+: w → ¬Viable u → v.length ≤ u.length

theorem FirstUnviable.unique {w v v' : List Token} (h : FirstUnviable w v)
    (h' : FirstUnviable w v') : v = v' := by
  have hle := h.shortest v' h'.is_prefix h'.unviable
  have hge := h'.shortest v h.is_prefix h.unviable
  exact (prefix_of_prefix_length_le h.is_prefix h'.is_prefix hle).eq_of_length
    (Nat.le_antisymm hle hge)

theorem firstUnviable_append {before after : List Token} {t : Token} (hviable : Viable before)
    (hunviable : ¬Viable (before ++ [t])) :
    FirstUnviable (before ++ t :: after) (before ++ [t]) where
  is_prefix := ⟨after, by simp⟩
  unviable := hunviable
  shortest := by
    intro u hu hnot
    by_contra hshort
    rw [length_append, length_singleton] at hshort
    exact hnot (hviable.of_prefix
      (prefix_of_prefix_length_le hu (prefix_append _ _) (by omega)))

namespace Parser

variable {ts : List Token}

theorem firstUnviable_of_error {t : Token} (h : unit ts = .error (some t)) :
    ∃ before, FirstUnviable ts (before ++ [t]) := by
  obtain ⟨before, rest, rfl, hhead, hviable, hunviable⟩ := unit_eq_error h
  obtain ⟨after, rfl⟩ := head?_eq_some_iff.mp hhead.symm
  exact ⟨before, firstUnviable_append hviable (hunviable t rfl)⟩

theorem viable_of_error (h : unit ts = .error none) : ∀ v, v <+: ts → Viable v := by
  obtain ⟨w, rest, rfl, hhead, hviable, -⟩ := unit_eq_error h
  obtain rfl := head?_eq_none_iff.mp hhead.symm
  rw [append_nil]
  exact fun v hv => hviable.of_prefix hv

theorem yield_ne_of_error {e : Unexpected} (h : unit ts = .error e) (d : Derivation .unit) :
    d.yield ≠ ts := by
  intro hd
  rw [unit_eq_ok_iff.mpr hd] at h
  cases h

end Parser

end Grammar

namespace Source

variable {e : SyntaxError}

open Grammar

structure RejectedAt (s : Source) (next : NodeId) (e : SyntaxError) (place : Position) :
    Prop where
  outcome : s.parseFrom next = .ok (.error (s.rejection e), next)
  line_eq : (s.rejection e).span.line = some place.line
  column_eq : (s.rejection e).span.column = some place.column
  offset_eq : (s.rejection e).span.offset = some place.offset

variable {s : Source} {w : List Token}

theorem rejectedAt_of_tree (h : s.tree = .error e) (next : NodeId) :
    s.RejectedAt next e e.place := by
  refine ⟨?_, rfl, rfl, rfl⟩
  simp only [parseFrom, parse, h]
  rfl

theorem tree_of_tokens_error (h : s.tokens = .error e) : s.tree = .error e := by
  simp only [tree, h]
  rfl

theorem tree_of_unit_error (hlex : s.tokens = .ok w) {e : Unexpected}
    (h : Parser.unit w = .error e) : s.tree = .error (unexpected w e) := by
  simp only [tree, hlex, bind, Except.bind, h]
  rfl

theorem rejectedAt_of_tokens_error (h : s.tokens = .error e) (next : NodeId) :
    ∃ place c, Scan.IsStuckAt s.chars place c ∧ s.RejectedAt next (.noLexeme c place) place := by
  cases hstuck : (Scan.of s.chars).stuck with
  | none =>
    rw [tokens_of_not_stuck hstuck] at h
    cases h
  | some stuck =>
    obtain ⟨place, c⟩ := stuck
    refine ⟨place, c, (Scan.tiles_of s.chars).2 _ hstuck, ?_⟩
    exact rejectedAt_of_tree (tree_of_tokens_error (tokens_of_stuck hstuck)) next

/-- A text is rejected where no lexeme starts, else at the last token of its shortest
beginning that no program has, and else, being a beginning of one, at its last token. -/
theorem rejected_at_first_unviable (s : Source) (next : NodeId) :
    (∀ e, s.tokens = .error e → ∃ place c, Scan.IsStuckAt s.chars place c ∧
      s.RejectedAt next (.noLexeme c place) place) ∧
    ∀ w, s.tokens = .ok w → (∀ d : Derivation .unit, d.yield ≠ w) →
      (∀ v, FirstUnviable w v → ∃ t, v.getLast? = some t ∧
        s.RejectedAt next (.unexpectedToken t) t.extent.start) ∧
      ((∀ v, v <+: w → Viable v) → ∃ t, w.getLast? = some t ∧
        s.RejectedAt next (.unexpectedEnd t.extent.start) t.extent.start) := by
  refine ⟨fun e he => rejectedAt_of_tokens_error he next, fun w hlex hno => ?_⟩
  cases hunit : Parser.unit w with
  | ok d => exact absurd (Parser.unit_eq_ok_iff.mp hunit) (hno d)
  | error e =>
    have hrejected := rejectedAt_of_tree (tree_of_unit_error hlex hunit) next
    cases e with
    | none =>
      have hall := Parser.viable_of_error hunit
      refine ⟨fun v hv => absurd (hall v hv.is_prefix) hv.unviable, fun _ => ?_⟩
      -- No tokens at all are a program.
      have hne : w ≠ [] := fun hnil => hno (.node .unit ([], [])) hnil.symm
      obtain ⟨t, hlast⟩ := Option.ne_none_iff_exists'.mp (mt getLast?_eq_none_iff.mp hne)
      refine ⟨t, hlast, ?_⟩
      simpa [unexpected, hlast, SyntaxError.place] using hrejected
    | some t =>
      obtain ⟨before, hfirst⟩ := Parser.firstUnviable_of_error hunit
      refine ⟨fun v hv => ?_, fun hall => absurd (hall _ hfirst.is_prefix) hfirst.unviable⟩
      obtain rfl := hv.unique hfirst
      exact ⟨t, by simp, hrejected⟩

end Source

namespace Rejected

open Grammar

def extent (start stop : Nat) : Extent := ⟨⟨1, start + 1, start⟩, ⟨1, stop + 1, stop⟩⟩

def head : List Token := [
  ⟨.name, "f", extent 0 1⟩, ⟨.openParen, "(", extent 1 2⟩, ⟨.closeParen, ")", extent 2 3⟩,
  ⟨.arrow, "=>", extent 4 6⟩]

def second : Token := ⟨.name, "b", extent 9 10⟩

def twoNames : Source := ⟨"lib/a.dart", "f() => a b;"⟩

def tokens : List Token :=
  head ++ ⟨.name, "a", extent 7 8⟩ :: second :: [⟨.semicolon, ";", extent 10 11⟩]

def noValue : Source := ⟨"lib/a.dart", "f() =>"⟩

theorem second_name_and_end_rejected :
    (twoNames.tokens = .ok tokens ∧ (∃ v, FirstUnviable tokens v) ∧
      twoNames.RejectedAt 0 (.unexpectedToken second) ⟨1, 10, 9⟩) ∧
    (noValue.tokens = .ok head ∧ (∀ v, v <+: head → Viable v) ∧
      noValue.RejectedAt 0 (.unexpectedEnd ⟨1, 5, 4⟩) ⟨1, 5, 4⟩) := by
  have hlex : twoNames.tokens = .ok tokens := by decide +kernel
  have hlex' : noValue.tokens = .ok head := by decide +kernel
  have hfails : Parser.unit tokens = .error (some second) := rfl
  have hends : Parser.unit head = .error none := rfl
  refine ⟨⟨hlex, ?_⟩, hlex', Parser.viable_of_error hends, ?_⟩
  · obtain ⟨before, hfirst⟩ := Parser.firstUnviable_of_error hfails
    obtain ⟨t, hlast, hrejected⟩ := ((Source.rejected_at_first_unviable twoNames 0).2 tokens hlex
      (Parser.yield_ne_of_error hfails)).1 _ hfirst
    rw [getLast?_concat, Option.some.injEq] at hlast
    subst hlast
    exact ⟨⟨_, hfirst⟩, hrejected⟩
  · obtain ⟨t, hlast, hrejected⟩ := ((Source.rejected_at_first_unviable noValue 0).2 head hlex'
      (Parser.yield_ne_of_error hends)).2 (Parser.viable_of_error hends)
    cases hlast
    exact hrejected

end Rejected

end CheckedThrows
