import CheckedThrows.Proofs.CountedDeclarations
import Mathlib

/-!
# What a library hands on

Which declaration a name means is told by following the exports depth first, on
each way until it would come back to a library that it has passed.  The search
passes over every library that it has seen, on whatever way.  It finds the same
libraries first, because a library that is seen and not on the way to the next
one has only exports that are seen or come before it.
-/

namespace CheckedThrows

open List

variable {name : String} {l : Library}

namespace Libraries

variable (ls : Libraries) {m : Library}

/-! ## Fuel -/

def pendingExports (ls : Libraries) (seen : List String) : Nat :=
  total (fun l => if l.uri ∈ seen then 0 else l.exports.length) ls

theorem pendingExports_cons_le (seen : List String) (uri : String) :
    ls.pendingExports (uri :: seen) ≤ ls.pendingExports seen := by
  induction ls with
  | nil => exact Nat.le_refl _
  | cons l ls ih =>
    simp only [pendingExports, total, mem_cons] at ih ⊢
    grind

theorem pendingExports_cons_add_le {ls : Libraries} {seen : List String} {uri : String}
    (hfresh : uri ∉ seen) (hl : ls.find? uri = some l) :
    ls.pendingExports (uri :: seen) + l.exports.length ≤ ls.pendingExports seen := by
  induction ls with
  | nil => cases hl
  | cons l₀ ls ih =>
    rw [find?, find?_cons] at hl
    by_cases heq : l₀.uri = uri
    · simp only [heq, decide_true, Option.some.injEq] at hl
      subst hl
      have hrest := pendingExports_cons_le ls seen uri
      simp only [pendingExports, total, heq, mem_cons_self, if_true, hfresh,
        if_false] at hrest ⊢
      omega
    · simp only [heq, decide_false] at hl
      have hrest := ih hl
      simp only [pendingExports, total, mem_cons, heq, false_or] at hrest ⊢
      omega

theorem pendingExports_le_exportCount (seen : List String) :
    ls.pendingExports seen ≤ ls.exportCount := by
  unfold exportCount
  induction ls with
  | nil => exact Nat.le_refl _
  | cons l ls ih =>
    simp only [pendingExports, total] at ih ⊢
    split <;> omega

/-- Fuel beyond what is enough changes nothing. -/
theorem exporters_congr_fuel {fuel fuel' : Nat} {seen pending : List String}
    (hfuel : pending.length + ls.pendingExports seen ≤ fuel)
    (hfuel' : pending.length + ls.pendingExports seen ≤ fuel') :
    ls.exporters fuel seen pending = ls.exporters fuel' seen pending := by
  induction fuel generalizing fuel' seen pending with
  | zero =>
    have hempty : pending = [] := eq_nil_of_length_eq_zero (by omega)
    subst pending
    cases fuel' <;> rfl
  | succ fuel ih =>
    cases pending with
    | nil => cases fuel' <;> rfl
    | cons uri pending =>
      rw [length_cons] at hfuel hfuel'
      obtain ⟨fuel', rfl⟩ : ∃ n, fuel' = n + 1 := ⟨fuel' - 1, by omega⟩
      rw [exporters, exporters]
      by_cases hseen : uri ∈ seen
      · rw [if_pos hseen, if_pos hseen]
        exact ih (by omega) (by omega)
      · rw [if_neg hseen, if_neg hseen]
        cases hl : ls.find? uri with
        | none =>
          have hless := pendingExports_cons_le ls seen uri
          exact ih (by omega) (by omega)
        | some l =>
          have hless := pendingExports_cons_add_le hseen hl
          have hlength := @length_append _ l.exports pending
          exact congrArg (l :: ·) (ih (by omega) (by omega))

/-! ## Following exports -/

theorem length_filter_lt {ls : Libraries} {above : List String} {uri : String}
    (hfresh : uri ∉ above) (hl : ls.find? uri = some l) :
    (List.filter (fun m => m.uri ∉ uri :: above) ls).length <
      (List.filter (fun m => m.uri ∉ above) ls).length := by
  have huri : l.uri = uri := by simpa using find?_some hl
  have hsplit : List.filter (fun m => m.uri ∉ uri :: above) ls =
      (List.filter (fun m => m.uri ∉ above) ls).filter fun m => m.uri ≠ uri := by
    rw [filter_filter]
    exact filter_congr fun m _ => by simp
  rw [hsplit, length_filter_lt_length_iff_exists]
  refine ⟨l, mem_filter.mpr ⟨mem_of_find?_eq_some hl, ?_⟩, ?_⟩
  · simpa [huri] using hfresh
  · simpa using huri

/-- The libraries from one on, with those it exports, depth first and in
pre-order.  A way ends where it would come back to a library `above` its end; a
library to which several ways lead is met on each of them. -/
def unfolding (ls : Libraries) (above : List String) (uri : String) : List Library :=
  if _ : uri ∈ above then []
  else
    match _ : ls.find? uri with
    | none => []
    | some l => l :: l.exports.flatMap (ls.unfolding (uri :: above))
termination_by (List.filter (fun m => m.uri ∉ above) ls).length
decreasing_by exact length_filter_lt ‹_› ‹_›

section
variable {ls : Libraries} {above seen ahead : List String} {uri : String} {l : Library}

theorem unfolding_above (hmet : uri ∈ above) : ls.unfolding above uri = [] := by
  rw [unfolding, dif_pos hmet]

theorem unfolding_unknown (hl : ls.find? uri = none) : ls.unfolding above uri = [] := by
  rw [unfolding]
  split
  · rfl
  · split
    next => rfl
    next m hm => cases hl.symm.trans hm

theorem unfolding_fresh (hfresh : uri ∉ above) (hl : ls.find? uri = some l) :
    ls.unfolding above uri = l :: l.exports.flatMap (ls.unfolding (uri :: above)) := by
  rw [unfolding, dif_neg hfresh]
  split
  next hm => cases hl.symm.trans hm
  next m hm =>
    cases hl.symm.trans hm
    rfl

/-! ## The search and the ways -/

/-- Apart from the libraries of `above`, those seen export only libraries that are
seen or are `ahead`. -/
def Passed (ls : Libraries) (seen ahead above : List String) : Prop :=
  ∀ uri ∈ seen, uri ∉ above → ∀ l, ls.find? uri = some l →
    ∀ target ∈ l.exports, target ∈ seen ∨ target ∈ ahead

def Settled (ls : Libraries) (seen : List String) :
    (ahead : List String) → List (List String × String) → Prop
  | _, [] => True
  | ahead, (above, uri) :: entries =>
    (above ⊆ seen ∧ ls.Passed seen ahead above) ∧ ls.Settled seen (uri :: ahead) entries

variable {entries : List (List String × String)}

/-- Visiting more keeps what is settled if the exports of what is new are ahead. -/
theorem Settled.mono {seen' ahead' : List String} (hsettled : ls.Settled seen ahead entries)
    (hseen : seen ⊆ seen') (hahead : ∀ uri ∈ ahead, uri ∈ seen' ∨ uri ∈ ahead')
    (hnew : ∀ uri ∈ seen', uri ∉ seen → ∀ l, ls.find? uri = some l → l.exports ⊆ ahead') :
    ls.Settled seen' ahead' entries := by
  induction entries generalizing ahead ahead' with
  | nil => trivial
  | cons entry entries ih =>
    obtain ⟨above, uri⟩ := entry
    obtain ⟨⟨habove, hpassed⟩, hrest⟩ := hsettled
    refine ⟨⟨fun _ h => hseen (habove h), ?_⟩, ih hrest ?_ ?_⟩
    · intro source hsource hnot l hl target htarget
      by_cases hold : source ∈ seen
      · rcases hpassed source hold hnot l hl target htarget with h | h
        · exact .inl (hseen h)
        · exact hahead target h
      · exact .inr (hnew source hsource hold l hl htarget)
    · intro target htarget
      rcases mem_cons.mp htarget with rfl | h
      · exact .inr mem_cons_self
      · exact (hahead target h).imp_right (mem_cons_of_mem uri)
    · exact fun source hsource hold l hl =>
        subset_cons_of_subset uri (hnew source hsource hold l hl)

theorem Settled.push (habove : above ⊆ seen) (hpassed : ls.Passed seen [] above)
    (targets : List String) (hrest : ls.Settled seen (targets.reverse ++ ahead) entries) :
    ls.Settled seen ahead (targets.map (above, ·) ++ entries) := by
  induction targets generalizing ahead with
  | nil => exact hrest
  | cons target targets ih =>
    refine ⟨⟨habove, ?_⟩, ih (by simpa using hrest)⟩
    intro source hsource hnot l hl other hother
    exact .inl ((hpassed source hsource hnot l hl other hother).resolve_right not_mem_nil)

theorem Settled.skip (hsettled : ls.Settled seen [] ((above, uri) :: entries)) (hmet : uri ∈ seen) :
    ls.Settled seen [] entries :=
  hsettled.2.mono (List.Subset.refl seen) (by simpa using hmet) fun _ h hnot => absurd h hnot

theorem Settled.leave (hsettled : ls.Settled seen [] ((above, uri) :: entries))
    (hl : ls.find? uri = none) : ls.Settled (uri :: seen) [] entries := by
  refine hsettled.2.mono (subset_cons_self uri seen) (by simp) ?_
  intro source hsource hold l hfound
  rcases mem_cons.mp hsource with rfl | h
  · cases hl.symm.trans hfound
  · exact absurd h hold

theorem Settled.visit (hsettled : ls.Settled seen [] ((above, uri) :: entries))
    (hl : ls.find? uri = some l) :
    ls.Settled (uri :: seen) [] (l.exports.map (uri :: above, ·) ++ entries) := by
  obtain ⟨⟨habove, hpassed⟩, hrest⟩ := hsettled
  refine Settled.push (cons_subset_cons uri habove) ?_ l.exports ?_
  · intro source hsource hnot m hm target htarget
    rw [mem_cons, not_or] at hnot
    have hold := (mem_cons.mp hsource).resolve_left hnot.1
    exact (hpassed source hold hnot.2 m hm target htarget).imp_left (mem_cons_of_mem uri)
  · refine hrest.mono (subset_cons_self uri seen) (by simp) ?_
    intro source hsource hold m hm
    rcases mem_cons.mp hsource with rfl | h
    · cases hl.symm.trans hm
      simp
    · exact absurd h hold

variable {β : Type} {f : Library → Option β}

/-- A way from a library that is seen, and has nothing ahead, meets nothing new. -/
theorem findSome?_unfolding_eq_none (hpassed : ls.Passed seen [] above)
    (hnone : ∀ uri ∈ seen, ∀ l, ls.find? uri = some l → f l = none) {above' : List String}
    (habove : above ⊆ above') (hmet : uri ∈ seen) :
    (ls.unfolding above' uri).findSome? f = none := by
  induction above', uri using unfolding.induct ls with
  | case1 above' uri hdone => rw [unfolding_above hdone]; rfl
  | case2 above' uri hfresh hl => rw [unfolding_unknown hl]; rfl
  | case3 above' uri hfresh l hl ih =>
    rw [unfolding_fresh hfresh hl, findSome?_cons, hnone uri hmet l hl,
      findSome?_eq_none_iff]
    intro m hm
    obtain ⟨target, htarget, hunfolding⟩ := mem_flatMap.mp hm
    have hseen := (hpassed uri hmet (fun h => hfresh (habove h)) l hl target
      htarget).resolve_right not_mem_nil
    have hrest := ih target (subset_cons_of_subset uri habove) hseen
    exact findSome?_eq_none_iff.mp hrest m hunfolding

theorem findSome?_exporters {fuel : Nat} (hsettled : ls.Settled seen [] entries)
    (hnone : ∀ uri ∈ seen, ∀ l, ls.find? uri = some l → f l = none)
    (hfuel : entries.length + ls.pendingExports seen ≤ fuel) :
    (ls.exporters fuel seen (entries.map Prod.snd)).findSome? f =
      (entries.flatMap fun e => ls.unfolding e.1 e.2).findSome? f := by
  induction fuel generalizing seen entries with
  | zero =>
    have hempty : entries = [] := eq_nil_of_length_eq_zero (by omega)
    subst entries
    rfl
  | succ fuel ih =>
    cases entries with
    | nil => rfl
    | cons entry entries =>
      obtain ⟨above, uri⟩ := entry
      rw [length_cons] at hfuel
      rw [map_cons, exporters, flatMap_cons, findSome?_append]
      dsimp only
      by_cases hmet : uri ∈ seen
      · have hold := findSome?_unfolding_eq_none hsettled.1.2 hnone (List.Subset.refl above) hmet
        rw [if_pos hmet, hold, Option.none_or]
        exact ih (hsettled.skip hmet) hnone (by omega)
      · have hfresh : uri ∉ above := fun h => hmet (hsettled.1.1 h)
        rw [if_neg hmet]
        cases hl : ls.find? uri with
        | none =>
          have hless := pendingExports_cons_le ls seen uri
          rw [unfolding_unknown hl, findSome?_nil, Option.none_or]
          refine ih (hsettled.leave hl) (forall_mem_cons.mpr ⟨?_, hnone⟩) (by omega)
          exact fun m hm => nomatch hl.symm.trans hm
        | some l =>
          have hless := pendingExports_cons_add_le hmet hl
          rw [unfolding_fresh hfresh hl]
          simp only [findSome?_cons]
          cases hf : f l with
          | some b => rfl
          | none =>
            have hvisited : ∀ m, ls.find? uri = some m → f m = none := fun m hm => by
              cases hl.symm.trans hm
              exact hf
            have hrest := ih (hsettled.visit hl) (forall_mem_cons.mpr ⟨hvisited, hnone⟩)
              (by rw [length_append, length_map]; omega)
            rw [map_append, map_map, flatMap_append, findSome?_append,
              flatMap_map] at hrest
            simpa [Function.comp_def] using hrest

theorem findSome?_exporters_enough (ls : Libraries) (uri : String) (f : Library → Option β) :
    (ls.exporters (ls.exportCount + 2) [] [uri]).findSome? f =
      (ls.unfolding [] uri).findSome? f := by
  have hcount := ls.pendingExports_le_exportCount []
  have hsettled : ls.Settled [] [] [([], uri)] := by simp [Settled, Passed]
  have hfuel : [(([] : List String), uri)].length + ls.pendingExports [] ≤ ls.exportCount + 2 := by
    rw [length_singleton]
    omega
  simpa using findSome?_exporters (f := f) hsettled (by simp) hfuel

/-! ## What can be reached -/

def Exports (ls : Libraries) (l m : Library) : Prop :=
  ∃ uri ∈ l.exports, ls.find? uri = some m

theorem reaches_of_mem_unfolding (hm : m ∈ ls.unfolding above uri) :
    ∃ l, ls.find? uri = some l ∧ Relation.ReflTransGen ls.Exports l m := by
  induction above, uri using unfolding.induct ls with
  | case1 above uri hdone =>
    rw [unfolding_above hdone] at hm
    cases hm
  | case2 above uri hfresh hl =>
    rw [unfolding_unknown hl] at hm
    cases hm
  | case3 above uri hfresh l hl ih =>
    refine ⟨l, hl, ?_⟩
    rw [unfolding_fresh hfresh hl] at hm
    rcases mem_cons.mp hm with rfl | hrest
    · exact .refl
    · obtain ⟨target, htarget, hunfolding⟩ := mem_flatMap.mp hrest
      obtain ⟨next, hnext, hreach⟩ := ih target hunfolding
      exact .head ⟨target, htarget, hnext⟩ hreach

theorem mem_unfolding_of_exports {n : Library} (hm : m ∈ ls.unfolding above uri)
    (hexports : ls.Exports m n) : n.uri ∈ above ∨ n ∈ ls.unfolding above uri := by
  obtain ⟨target, htarget, hn⟩ := hexports
  have huri : n.uri = target := by simpa using find?_some hn
  induction above, uri using unfolding.induct ls with
  | case1 above uri hdone =>
    rw [unfolding_above hdone] at hm
    cases hm
  | case2 above uri hfresh hl =>
    rw [unfolding_unknown hl] at hm
    cases hm
  | case3 above uri hfresh l hl ih =>
    rw [unfolding_fresh hfresh hl] at hm ⊢
    -- A way that would come back to its start has met what is there.
    have hback : n.uri ∈ uri :: above →
        n.uri ∈ above ∨ n ∈ l :: l.exports.flatMap (ls.unfolding (uri :: above)) := by
      intro hmet
      rcases mem_cons.mp hmet with heq | hmet
      · obtain rfl : l = n := by
          rw [← huri, heq, hl] at hn
          exact Option.some.inj hn
        exact .inr mem_cons_self
      · exact .inl hmet
    rcases mem_cons.mp hm with rfl | hrest
    · by_cases hmet : target ∈ uri :: above
      · exact hback (huri ▸ hmet)
      · refine .inr (mem_cons_of_mem _ (mem_flatMap.mpr ⟨target, htarget, ?_⟩))
        rw [unfolding_fresh hmet hn]
        exact mem_cons_self
    · obtain ⟨next, hnext, hunfolding⟩ := mem_flatMap.mp hrest
      rcases ih next hunfolding with hmet | hfound
      · exact hback hmet
      · exact .inr (mem_cons_of_mem _ (mem_flatMap.mpr ⟨next, hnext, hfound⟩))

theorem mem_unfolding_iff (hl : ls.find? uri = some l) :
    m ∈ ls.unfolding [] uri ↔ Relation.ReflTransGen ls.Exports l m := by
  constructor
  · intro hm
    obtain ⟨l', hl', hreach⟩ := reaches_of_mem_unfolding hm
    cases hl.symm.trans hl'
    exact hreach
  · intro hreach
    induction hreach with
    | refl =>
      rw [unfolding_fresh not_mem_nil hl]
      exact mem_cons_self
    | tail _ hexports ih =>
      exact (mem_unfolding_of_exports ih hexports).resolve_left not_mem_nil

end

/-! ## Namespaces -/

theorem lookup_foldl_unknown (new old : Names) (name : String) :
    (new.foldl (fun names entry =>
        if (names.lookup entry.1).isSome then names else names ++ [entry]) old).lookup name =
      (old.lookup name).or (new.lookup name) := by
  induction new generalizing old with
  | nil => simp
  | cons entry new ih =>
    obtain ⟨key, e⟩ := entry
    rw [foldl_cons, ih, lookup_cons]
    split
    next hknown =>
      by_cases hname : name = key
      · subst hname
        obtain ⟨e', he'⟩ := Option.isSome_iff_exists.mp hknown
        rw [he']
        rfl
      · rw [beq_false_of_ne hname]
    next =>
      rw [lookup_append, Option.or_assoc, lookup_cons]
      by_cases hname : name = key
      · simp [hname]
      · simp [beq_false_of_ne hname]

theorem lookup_namespaceOf (ls : Libraries) (uri name : String) :
    (ls.namespaceOf uri).lookup name =
      (ls.unfolding [] uri).findSome? fun l => l.publicScope.lookup name := by
  have hfold : ∀ (libraries : List Library) (names : Names),
      (libraries.foldl (fun names l => l.publicScope.foldl (fun names entry =>
        if (names.lookup entry.1).isSome then names else names ++ [entry]) names) names).lookup
          name =
        (names.lookup name).or (libraries.findSome? fun l => l.publicScope.lookup name) := by
    intro libraries
    induction libraries with
    | nil => simp
    | cons l libraries ih =>
      intro names
      rw [foldl_cons, ih, lookup_foldl_unknown, Option.or_assoc, findSome?_cons]
      cases l.publicScope.lookup name <;> rfl
  rw [namespaceOf, hfold, lookup_nil, Option.none_or, findSome?_exporters_enough]

theorem mem_keys_iff {names : Names} :
    name ∈ names.map Prod.fst ↔ ∃ e, names.lookup name = some e := by
  constructor
  · intro hmem
    cases hlookup : names.lookup name with
    | some e => exact ⟨e, rfl⟩
    | none =>
      obtain ⟨entry, hentry, heq⟩ := mem_map.mp hmem
      simpa [heq] using lookup_eq_none_iff.mp hlookup entry hentry
  · rintro ⟨e, he⟩
    exact mem_map_of_mem (mem_of_lookup he)

theorem nodup_namespaceOf (ls : Libraries) (uri : String) :
    ((ls.namespaceOf uri).map Prod.fst).Nodup := by
  refine List.foldlRecOn (motive := fun (names : Names) => (names.map Prod.fst).Nodup) _ _ nodup_nil
    fun names hnames l _ => ?_
  refine List.foldlRecOn (motive := fun (names : Names) => (names.map Prod.fst).Nodup) _ _ hnames
    fun names hnames entry _ => ?_
  split
  next => exact hnames
  next hunknown =>
    have hnew : entry.1 ∉ names.map Prod.fst := by
      rwa [mem_keys_iff, ← Option.isSome_iff_exists]
    rw [map_append, map_singleton, ← concat_eq_append]
    exact hnames.concat hnew

end Libraries

namespace Library

def Publishes (l : Library) (name : String) (e : Element) : Prop :=
  name.startsWith "_" = false ∧ l.scope.lookup name = some e

theorem lookup_publicScope_eq_some_iff {e : Element} :
    l.publicScope.lookup name = some e ↔ l.Publishes name e := by
  unfold publicScope Publishes
  induction l.scope with
  | nil => simp
  | cons entry scope ih =>
    obtain ⟨key, e'⟩ := entry
    by_cases hname : name = key
    · subst hname
      cases hprivate : name.startsWith "_" with
      | false => simp [hprivate]
      | true => simpa [filter_cons, hprivate] using ih
    · rw [lookup_cons, beq_false_of_ne hname, ← ih, filter_cons]
      split
      · rw [lookup_cons, beq_false_of_ne hname]
      · rfl

end Library

namespace Libraries

theorem lookup_namespaceOf_eq_some_iff {ls : Libraries} {uri : String} {e : Element} :
    (ls.namespaceOf uri).lookup name = some e ↔
      ∃ before m after, ls.unfolding [] uri = before ++ m :: after ∧ m.Publishes name e ∧
        ∀ m' ∈ before, ∀ e', ¬m'.Publishes name e' := by
  rw [lookup_namespaceOf, findSome?_eq_some_iff]
  simp only [Library.lookup_publicScope_eq_some_iff, Option.eq_none_iff_forall_ne_some, ne_eq]

theorem typeNamed?_eq_some_iff {ls : Libraries} {uri : String} (hl : ls.find? uri = some l)
    {ty : TypeId} :
    ls.typeNamed? uri name = some ty ↔
      ∃ before i after, uri :: l.imports ++ l.exports = before ++ i :: after ∧
        (∃ c, (ls.namespaceOf i).lookup name = some (.class c) ∧ c.type = ty) ∧
        ∀ j ∈ before, ∀ c, (ls.namespaceOf j).lookup name ≠ some (.class c) := by
  have htype : ∀ i ty, (((ls.namespaceOf i).lookup name).bind fun e =>
      e.toClass?.map ClassElement.type) = some ty ↔
        ∃ c, (ls.namespaceOf i).lookup name = some (.class c) ∧ c.type = ty := by
    intro i ty
    cases (ls.namespaceOf i).lookup name with
    | none => simp
    | some e => cases e <;> simp [Element.toClass?]
  have hnone : ∀ i, (((ls.namespaceOf i).lookup name).bind fun e =>
      e.toClass?.map ClassElement.type) = none ↔
        ∀ c, (ls.namespaceOf i).lookup name ≠ some (.class c) := by
    intro i
    simp only [Option.eq_none_iff_forall_ne_some, ne_eq, htype, not_exists, not_and]
    exact ⟨fun h c hc => h c.type c hc rfl, fun h _ c hc _ => h c hc⟩
  unfold typeNamed?
  rw [hl]
  simp only [findSome?_eq_some_iff, htype, hnone]

end Libraries

/-- Following the exports of a library ends.  It hands on no private name, and just
the public names of the libraries that can be reached from it, each with its meaning
in the first of them by depth.  A type is the first class of its name that the
library hands on, or an import of it, or an export. -/
theorem namespaceOf_exact (units : List CompilationUnit) {l : Library}
    (hl : l ∈ (Workspace.ofUnits units).libraries) :
    let ls := (Workspace.ofUnits units).libraries
    let names := ls.namespaceOf l.uri
    (∀ fuel, ls.exportCount + 2 ≤ fuel →
      ls.exporters fuel [] [l.uri] = ls.exporters (ls.exportCount + 2) [] [l.uri]) ∧
    (names.map Prod.fst).Nodup ∧
    (∀ name ∈ names.map Prod.fst, name.startsWith "_" = false) ∧
    (∀ name, name ∈ names.map Prod.fst ↔
      ∃ m e, Relation.ReflTransGen ls.Exports l m ∧ m.Publishes name e) ∧
    (∀ name e, names.lookup name = some e ↔
      ∃ before m after, ls.unfolding [] l.uri = before ++ m :: after ∧ m.Publishes name e ∧
        ∀ m' ∈ before, ∀ e', ¬m'.Publishes name e') ∧
    (∀ name ty, ls.typeNamed? l.uri name = some ty ↔
      ∃ before i after, l.uri :: l.imports ++ l.exports = before ++ i :: after ∧
        (∃ c, (ls.namespaceOf i).lookup name = some (.class c) ∧ c.type = ty) ∧
        ∀ j ∈ before, ∀ c, (ls.namespaceOf j).lookup name ≠ some (.class c)) := by
  intro ls names
  have hfind : ls.find? l.uri = some l := (Workspace.counted_ofUnits units).find?_uri hl
  have hcount := ls.pendingExports_le_exportCount []
  have hmeaning : ∀ name e, names.lookup name = some e ↔
      ∃ before m after, ls.unfolding [] l.uri = before ++ m :: after ∧ m.Publishes name e ∧
        ∀ m' ∈ before, ∀ e', ¬m'.Publishes name e' :=
    fun name e => Libraries.lookup_namespaceOf_eq_some_iff
  refine ⟨?_, ls.nodup_namespaceOf l.uri, ?_, ?_, hmeaning, ?_⟩
  · intro fuel hfuel
    exact ls.exporters_congr_fuel (by rw [length_singleton]; omega)
      (by rw [length_singleton]; omega)
  · intro name hname
    obtain ⟨e, he⟩ := Libraries.mem_keys_iff.mp hname
    obtain ⟨_, m, _, _, hpublishes, _⟩ := (hmeaning name e).mp he
    exact hpublishes.1
  · intro name
    rw [Libraries.mem_keys_iff, ← Option.isSome_iff_exists, Libraries.lookup_namespaceOf,
      findSome?_isSome_iff]
    simp only [Option.isSome_iff_exists, Library.lookup_publicScope_eq_some_iff,
      Libraries.mem_unfolding_iff hfind, exists_and_left]
  · exact fun name ty => Libraries.typeNamed?_eq_some_iff hfind

/-! A library exports two others.  The first exports it back, and then a third one: this
comes before the second by depth, though it is farther away. -/

namespace ExportCircle

def exporting (id : NodeId) (uri : String) (targets : List String)
    (declarations : List Declaration) : CompilationUnit where
  id := id
  extent := none
  uri := uri
  directives := targets.map fun target => ⟨.bare (id + 1), .exports, Text.ofString target⟩
  declarations := declarations
  comments := []

def classDecl (id : NodeId) (name : String) : Declaration :=
  .class ⟨.bare id, name, [], none, [], false, []⟩

def units : List CompilationUnit := [
  exporting 1 "a.dart" ["b.dart", "c.dart"] [],
  exporting 11 "b.dart" ["a.dart", "d.dart"] [classDecl 13 "_X"],
  exporting 21 "c.dart" [] [classDecl 23 "X"],
  exporting 31 "d.dart" [] [classDecl 33 "X"]]

theorem met_first_by_depth :
    ∃ l ∈ (Workspace.ofUnits units).libraries, l.uri = "a.dart" ∧
      ∃ e before m after, e.library = "d.dart" ∧
        (Workspace.ofUnits units).libraries.unfolding [] "a.dart" = before ++ m :: after ∧
        m.Publishes "X" e ∧ ∀ m' ∈ before, ∀ e', ¬m'.Publishes "X" e' := by
  have hlookup : (((Workspace.ofUnits units).libraries.namespaceOf "a.dart").lookup "X").map
      Element.library = some "d.dart" := by
    cbv
  have hknown : ((Workspace.ofUnits units).libraries.find? "a.dart").isSome = true := by
    cbv
  obtain ⟨l, hfind⟩ := Option.isSome_iff_exists.mp hknown
  have hl : l ∈ (Workspace.ofUnits units).libraries := mem_of_find?_eq_some hfind
  have huri : l.uri = "a.dart" := by simpa using find?_some hfind
  obtain ⟨-, -, -, -, hmeaning, -⟩ := namespaceOf_exact units hl
  rw [huri] at hmeaning
  obtain ⟨e, he, hlibrary⟩ := Option.map_eq_some_iff.mp hlookup
  obtain ⟨before, m, after, hmet⟩ := (hmeaning "X" e).mp he
  exact ⟨l, hl, huri, e, before, m, after, hlibrary, hmet⟩

end ExportCircle

end CheckedThrows
