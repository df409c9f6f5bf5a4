import CheckedThrows.Proofs.Escape
import Mathlib.Data.List.Flatten
import Mathlib.Data.List.Induction

/-!
# Findings site by site

The findings of a unit can be had by asking at one site after the other what is
unhandled there and what an assignment hides.  All candidates of a site have the
same code, so disabling codes only leaves findings out.
-/

namespace CheckedThrows

open List

variable (keep : Node → Bool) (n : Node)

/-! ## Walks in pre-order -/

namespace Place

def preorder (keep : Node → Bool) (p : Place) : List Place :=
  p :: p.children.attach.flatMap fun c => if keep c.1.node then preorder keep c.1 else []
termination_by p.node.weight
decreasing_by exact weight_lt_of_mem_children c.2

theorem preorder_eq (p : Place) :
    preorder keep p =
      p :: p.children.flatMap fun c => if keep c.node then preorder keep c else [] := by
  rw [preorder]
  congr 1
  rw [flatMap_subtype (g := fun c => if keep c.node then preorder keep c else [])
    (fun _ _ => rfl), unattach_attach]

theorem flatMap_filter_preorder (ps : List Place) :
    (ps.filter fun c => keep c.node).flatMap (preorder keep) =
      ps.flatMap fun c => if keep c.node then preorder keep c else [] := by
  induction ps with
  | nil => rfl
  | cons p ps ih =>
    rw [flatMap_cons, ← ih, filter_cons]
    by_cases hkeep : keep p.node = true
    · simp [hkeep]
    · simp [hkeep]

theorem walkFrom_eq_flatMap_preorder (stack : List Place) :
    walkFrom keep stack = stack.flatMap (preorder keep) := by
  induction stack using walkFrom.induct keep with
  | case1 => simp [walkFrom]
  | case2 p stack ih =>
    rw [walkFrom, ih, flatMap_append, flatMap_filter_preorder, flatMap_cons,
      preorder_eq keep p]
    rfl

theorem walk_eq_preorder (root : Node) : walk root = preorder (fun _ => true) (.root root) := by
  rw [walk, walkFrom_eq_flatMap_preorder]
  simp

theorem walkCode_eq_preorder (root : Node) :
    walkCode root = preorder (fun n => !n.isMetadatum) (.root root) := by
  rw [walkCode, walkFrom_eq_flatMap_preorder]
  simp

theorem preorder_sublist_walk (keep : Node → Bool) (p : Place) :
    (preorder keep p).Sublist (preorder (fun _ => true) p) := by
  rw [preorder_eq keep, preorder_eq fun _ => true]
  apply List.Sublist.cons_cons
  apply List.Sublist.flatMap_right
  intro c hc
  by_cases hkeep : keep c.node = true
  · rw [if_pos hkeep, if_pos rfl]
    exact preorder_sublist_walk keep c
  · rw [if_neg hkeep]
    exact nil_sublist _
termination_by p.node.weight
decreasing_by exact weight_lt_of_mem_children hc

theorem nodup_walkCode_ids (u : CompilationUnit) (start : NodeId) :
    ((walkCode (.unit (u.number start).1)).map fun p => p.node.id).Nodup := by
  have hsub : (walkCode (.unit (u.number start).1)).Sublist (walk (.unit (u.number start).1)) := by
    rw [walkCode_eq_preorder, walk_eq_preorder]
    exact preorder_sublist_walk _ _
  have hnodup := u.nodup_numbers start
  rw [← walk_numbers] at hnodup
  exact hnodup.sublist (hsub.map _)

end Place

namespace Node

def unhandledCode : Node → LintCode
  | .expr (.throw ..) | .expr (.rethrow _) => .unhandledThrow
  | _ => .unhandledCall

def isAssignment : Node → Bool
  | .expr (.assign ..) | .stmt (.variable _) => true
  | _ => false

theorem unhandledCode_mem_all : n.unhandledCode ∈ LintCode.all := by
  unfold unhandledCode
  split <;> simp [LintCode.all]

theorem unhandledCode_ne_lostInAssignment : n.unhandledCode ≠ .lostInAssignment := by
  unfold unhandledCode
  split <;> simp

end Node

def Finding.key (f : Finding) : NodeId × LintCode × TypeId :=
  (f.site.id, f.code, f.type)

namespace EffectModel

/-! ## What is unhandled at a site -/

section
variable {m : EffectModel} {place : Place} {c : Candidate}

theorem code_of_mem_calls (hmem : c ∈ m.calls place) : c.origin.code = .unhandledCall := by
  obtain ⟨e, _, hc⟩ := mem_flatMap.mp hmem
  obtain ⟨type, _, rfl⟩ := mem_map.mp hc
  rfl

theorem code_of_mem_valueCalls {callee : Expr} (hmem : c ∈ m.valueCalls callee) :
    c.origin.code = .unhandledCall := by
  unfold valueCalls at hmem
  split at hmem
  · obtain ⟨type, _, rfl⟩ := mem_map.mp hmem
    rfl
  · obtain ⟨type, _, rfl⟩ := mem_map.mp hmem
    rfl
  · simp at hmem

theorem code_of_mem_candidates (hmem : c ∈ m.candidates place) :
    c.origin.code = place.node.unhandledCode := by
  unfold candidates at hmem
  split at hmem
  next hnode =>
    obtain ⟨type, _, rfl⟩ := mem_map.mp hmem
    rw [hnode]
    rfl
  next hnode =>
    obtain ⟨type, _, rfl⟩ := mem_map.mp hmem
    rw [hnode]
    rfl
  next hnode =>
    have hcode : c.origin.code = .unhandledCall := by
      rcases mem_append.mp hmem with hcall | hvalue
      · exact code_of_mem_calls hcall
      · exact code_of_mem_valueCalls hvalue
    rw [hcode, hnode]
    rfl
  next hthrow hrethrow _ =>
    have hcall : place.node.unhandledCode = .unhandledCall := by
      unfold Node.unhandledCode
      split
      next hnode => exact absurd hnode (hthrow _ _)
      next hnode => exact absurd hnode (hrethrow _)
      next => rfl
    rw [hcall]
    exact code_of_mem_calls hmem

end

section
variable (m : EffectModel) (place : Place)

theorem escaping_concat (cs : List Candidate) (c : Candidate) :
    m.escaping place (cs ++ [c]) =
      if ((m.escaping place cs).any fun k => k.type = c.type) || !m.escapes place c.type then
        m.escaping place cs
      else m.escaping place cs ++ [c] := by
  rw [escaping, foldl_append]
  rfl

theorem nodup_types_escaping (cs : List Candidate) :
    ((m.escaping place cs).map Candidate.type).Nodup := by
  induction cs using List.reverseRecOn with
  | nil => simp [escaping]
  | append_singleton cs c ih =>
    rw [escaping_concat]
    split
    next => exact ih
    next hadd =>
      have hfresh : c.type ∉ (m.escaping place cs).map Candidate.type := by
        intro hold
        obtain ⟨k, hk, hkind⟩ := mem_map.mp hold
        apply hadd
        rw [Bool.or_eq_true, any_eq_true]
        exact .inl ⟨k, hk, by simpa using hkind⟩
      rw [map_append, nodup_append]
      refine ⟨ih, nodup_singleton _, ?_⟩
      intro type htype type' htype' heq
      obtain rfl := mem_singleton.mp htype'
      exact hfresh (heq ▸ htype)

theorem find?_of_mem_escaping {cs : List Candidate} {k : Candidate}
    (hmem : k ∈ m.escaping place cs) : (cs.find? fun c => c.type = k.type) = some k := by
  induction cs using List.reverseRecOn with
  | nil => simp [escaping] at hmem
  | append_singleton cs c ih =>
    have hold : k ∈ m.escaping place cs →
        ((cs ++ [c]).find? fun c => c.type = k.type) = some k := by
      intro hk
      rw [find?_append, ih hk]
      rfl
    rw [escaping_concat] at hmem
    split at hmem
    next => exact hold hmem
    next hadd =>
      rcases mem_append.mp hmem with hk | hk
      · exact hold hk
      · obtain rfl := mem_singleton.mp hk
        -- an earlier candidate of the type would have been kept
        have hnone : (cs.find? fun c => c.type = k.type) = none := by
          rw [find?_eq_none]
          intro c hc htype
          have hescapes : m.escapes place k.type = true := by
            rw [Bool.or_eq_true, not_or] at hadd
            simpa using hadd.2
          have hkept := (mem_types_escaping_iff m place cs k.type).mpr
            ⟨mem_map.mpr ⟨c, hc, by simpa using htype⟩, hescapes⟩
          obtain ⟨c', hc', htype'⟩ := mem_map.mp hkept
          apply hadd
          rw [Bool.or_eq_true, any_eq_true]
          exact .inl ⟨c', hc', by simpa using htype'⟩
        rw [find?_append, hnone]
        simp

theorem nodup_unhandled : (m.unhandled place).Nodup :=
  m.nodup_types_escaping place (m.candidates place)

end

/-! ## Reports of a site -/

def report? (m : EffectModel) (uri : String) (place : Place) (type : TypeId) : Option Finding :=
  ((m.candidates place).find? fun c => c.type = type).map (m.unhandledFinding uri place.node)

def reports (m : EffectModel) (uri : String) (place : Place) : List Finding :=
  (m.unhandled place).filterMap (m.report? uri place)

/-- What there is to report at a place with the codes that are enabled, by the
questions that can be asked there. -/
def siteFindings (m : EffectModel) (enabled : List LintCode) (uri : String) (place : Place) :
    List Finding :=
  ((m.reports uri place).filter fun f => f.code ∈ enabled) ++
    if place.node.isAssignment ∧ .lostInAssignment ∈ enabled then
      (m.lost place.node).map (m.lostFinding uri place.node)
    else []

section
variable (m : EffectModel) (uri : String) (place : Place)
variable (enabled : List LintCode)

theorem reports_eq_map_escaping :
    m.reports uri place =
      (m.escaping place (m.candidates place)).map (m.unhandledFinding uri place.node) := by
  have hreport : ∀ c ∈ m.escaping place (m.candidates place),
      m.report? uri place c.type = some (m.unhandledFinding uri place.node c) := by
    intro c hc
    rw [report?, find?_of_mem_escaping m place hc]
    rfl
  rw [reports, unhandled, filterMap_map, ← filterMap_eq_map]
  exact filterMap_congr hreport

theorem map_type_reports : (m.reports uri place).map Finding.type = m.unhandled place := by
  rw [reports_eq_map_escaping, map_map]
  rfl

theorem site_and_code_of_mem_reports {f : Finding} (hmem : f ∈ m.reports uri place) :
    f.site = place.node ∧ f.code = place.node.unhandledCode := by
  rw [reports_eq_map_escaping] at hmem
  obtain ⟨c, hc, rfl⟩ := mem_map.mp hmem
  have hcandidate := mem_of_find?_eq_some (find?_of_mem_escaping m place hc)
  exact ⟨rfl, code_of_mem_candidates hcandidate⟩

theorem filter_reports :
    ((m.reports uri place).filter fun f => f.code ∈ enabled) =
      if place.node.unhandledCode ∈ enabled then m.reports uri place else [] := by
  by_cases henabled : place.node.unhandledCode ∈ enabled
  · rw [if_pos henabled, filter_eq_self]
    intro f hf
    rw [(m.site_and_code_of_mem_reports uri place hf).2]
    simpa using henabled
  · rw [if_neg henabled, filter_eq_nil_iff]
    intro f hf
    rw [(m.site_and_code_of_mem_reports uri place hf).2]
    simpa using henabled

theorem lost_eq_nil {n : Node} (hnode : n.isAssignment = false) : m.lost n = [] := by
  have hvalue : storedValue? n = none := by
    unfold storedValue?
    split
    · simp [Node.isAssignment] at hnode
    · simp [Node.isAssignment] at hnode
    · rfl
  simp [lost, hvalue]

theorem escaping_filter_enabled :
    m.escaping place ((m.candidates place).filter fun c => c.origin.code ∈ enabled) =
      if place.node.unhandledCode ∈ enabled then m.escaping place (m.candidates place) else [] := by
  by_cases henabled : place.node.unhandledCode ∈ enabled
  · have hall : ((m.candidates place).filter fun c => c.origin.code ∈ enabled) =
        m.candidates place := by
      rw [filter_eq_self]
      intro c hc
      simpa [code_of_mem_candidates hc] using henabled
    rw [hall, if_pos henabled]
  · have hnone : ((m.candidates place).filter fun c => c.origin.code ∈ enabled) = [] := by
      rw [filter_eq_nil_iff]
      intro c hc
      simpa [code_of_mem_candidates hc] using henabled
    rw [hnone, if_neg henabled]
    rfl

theorem findingsAt_eq_siteFindings :
    m.findingsAt enabled uri place = m.siteFindings enabled uri place := by
  have hunhandled :
      (m.escaping place ((m.candidates place).filter fun c => c.origin.code ∈ enabled)).map
          (m.unhandledFinding uri place.node) =
        (m.reports uri place).filter fun f => f.code ∈ enabled := by
    rw [escaping_filter_enabled, filter_reports, reports_eq_map_escaping]
    split <;> rfl
  have hlost :
      (if .lostInAssignment ∈ enabled then m.lost place.node else []).map
          (m.lostFinding uri place.node) =
        if place.node.isAssignment ∧ .lostInAssignment ∈ enabled then
          (m.lost place.node).map (m.lostFinding uri place.node)
        else [] := by
    cases hnode : place.node.isAssignment with
    | true => by_cases henabled : LintCode.lostInAssignment ∈ enabled <;> simp [henabled]
    | false => simp [m.lost_eq_nil hnode]
  rw [findingsAt, siteFindings, hunhandled, hlost]

/-! ## Disabled codes -/

theorem filter_siteFindings :
    ((m.siteFindings LintCode.all uri place).filter fun f => f.code ∈ enabled) =
      m.siteFindings enabled uri place := by
  have hreports :
      (((m.reports uri place).filter fun f => f.code ∈ LintCode.all).filter
          fun f => f.code ∈ enabled) =
        (m.reports uri place).filter fun f => f.code ∈ enabled := by
    rw [filter_reports m uri place LintCode.all, if_pos (Node.unhandledCode_mem_all _)]
  have hlost :
      ((m.lost place.node).map (m.lostFinding uri place.node)).filter
          (fun f => f.code ∈ enabled) =
        if .lostInAssignment ∈ enabled then
          (m.lost place.node).map (m.lostFinding uri place.node)
        else [] := by
    by_cases henabled : LintCode.lostInAssignment ∈ enabled <;> simp [lostFinding, henabled]
  rw [siteFindings, siteFindings, filter_append, hreports]
  congr 1
  by_cases hnode : place.node.isAssignment = true
  · simpa [hnode, LintCode.all] using hlost
  · simp [hnode]

theorem findings_eq_filter (u : CompilationUnit) :
    m.findings enabled u = (m.findings LintCode.all u).filter fun f => f.code ∈ enabled := by
  rw [findings, findings, filter_flatMap]
  apply flatMap_congr
  intro place _
  rw [findingsAt_eq_siteFindings, findingsAt_eq_siteFindings]
  exact (m.filter_siteFindings u.uri place enabled).symm

end

/-! ## No finding is repeated -/

theorem nodup_addTypes {old : List TypeId} (hold : old.Nodup) (new : List TypeId) :
    (addTypes old new).Nodup := by
  unfold addTypes
  induction new generalizing old with
  | nil => exact hold
  | cons t new ih =>
    rw [foldl_cons]
    by_cases hmem : t ∈ old
    · rw [if_pos hmem]
      exact ih hold
    · rw [if_neg hmem]
      apply ih
      rw [nodup_append]
      refine ⟨hold, nodup_singleton t, ?_⟩
      intro a ha b hb heq
      obtain rfl := mem_singleton.mp hb
      exact hmem (heq ▸ ha)

theorem nodup_carried (m : EffectModel) (e : Expr) : (m.carried e).Nodup := by
  unfold carried
  split
  · split
    · exact nodup_addTypes nodup_nil _
    · exact nodup_nil
  · exact nodup_nil

theorem nodup_lost (m : EffectModel) (n : Node) : (m.lost n).Nodup := by
  unfold lost
  split
  · exact (m.nodup_carried _).filter _
  · exact nodup_nil

section
variable (m : EffectModel) (enabled : List LintCode) (uri : String) (place : Place)

theorem nodup_keys_siteFindings : ((m.siteFindings enabled uri place).map Finding.key).Nodup := by
  have hreports : ((m.reports uri place).map Finding.key).Nodup := by
    have hnodup := m.nodup_unhandled place
    rw [← m.map_type_reports uri place] at hnodup
    apply List.Nodup.of_map (fun key => key.2.2)
    rw [map_map]
    exact hnodup
  have hlost : (((m.lost place.node).map (m.lostFinding uri place.node)).map
      Finding.key).Nodup := by
    apply List.Nodup.of_map (fun key => key.2.2)
    simpa [Function.comp_def, Finding.key, lostFinding] using m.nodup_lost place.node
  rw [siteFindings, map_append, nodup_append]
  refine ⟨hreports.sublist (filter_sublist.map _), ?_, ?_⟩
  · split
    · exact hlost
    · exact nodup_nil
  · -- the code tells a report from what is said about an assignment
    intro key hkey key' hkey' heq
    obtain ⟨f, hf, rfl⟩ := mem_map.mp hkey
    obtain ⟨f', hf', rfl⟩ := mem_map.mp hkey'
    have hcode := (m.site_and_code_of_mem_reports uri place (mem_of_mem_filter hf)).2
    have hcode' : f'.code = .lostInAssignment := by
      split at hf'
      · obtain ⟨type, _, rfl⟩ := mem_map.mp hf'
        rfl
      · simp at hf'
    have hsame : f.code = f'.code := congrArg (fun key => key.2.1) heq
    rw [hcode, hcode'] at hsame
    exact Node.unhandledCode_ne_lostInAssignment _ hsame

end

theorem nodup_keys_findings (m : EffectModel) (enabled : List LintCode) (u : CompilationUnit)
    (start : NodeId) : ((m.findings enabled (u.number start).1).map Finding.key).Nodup := by
  rw [findings, map_flatMap, nodup_flatMap]
  constructor
  · intro place _
    rw [findingsAt_eq_siteFindings]
    exact m.nodup_keys_siteFindings enabled _ place
  · have hids := Place.nodup_walkCode_ids u start
    rw [List.Nodup, pairwise_map] at hids
    refine hids.imp ?_
    intro p q hne key hp hq
    obtain ⟨f, hf, rfl⟩ := mem_map.mp hp
    obtain ⟨f', hf', heq⟩ := mem_map.mp hq
    have hid : f'.site.id = f.site.id := congrArg Prod.fst heq
    rw [site_of_mem_findingsAt hf, site_of_mem_findingsAt hf'] at hid
    exact hne hid.symm

/-- The findings of a unit are, for one place outside of metadata after the
other, one report of each type that is unhandled there and enabled, and then one
of each type that an assignment there hides.  So codes that are not enabled are
only left out, and no finding is repeated. -/
theorem findings_eq_flatMap_siteFindings
    (m : EffectModel) (u : CompilationUnit) (start : NodeId) (enabled : List LintCode) :
    let unit := (u.number start).1
    m.findings enabled unit =
        (Place.preorder (fun n => !n.isMetadatum) (.root (.unit unit))).flatMap
          (m.siteFindings enabled unit.uri) ∧
      (∀ place, (m.reports unit.uri place).map Finding.type = m.unhandled place ∧
        ∀ f ∈ m.reports unit.uri place, f.site = place.node ∧ f.code = place.node.unhandledCode) ∧
      m.findings enabled unit = ((m.findings LintCode.all unit).filter fun f => f.code ∈ enabled) ∧
      ((m.findings enabled unit).map Finding.key).Nodup := by
  intro unit
  refine ⟨?_, ?_, m.findings_eq_filter enabled unit, m.nodup_keys_findings enabled u start⟩
  · rw [findings, Place.walkCode_eq_preorder]
    apply flatMap_congr
    intro place _
    exact m.findingsAt_eq_siteFindings unit.uri place enabled
  · intro place
    exact ⟨m.map_type_reports unit.uri place,
      fun f hf => m.site_and_code_of_mem_reports unit.uri place hf⟩

end EffectModel

end CheckedThrows
