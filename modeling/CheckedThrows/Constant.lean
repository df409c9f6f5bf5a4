import CheckedThrows.Resolution.Program

/-!
# Constants

The constants that metadata is made of: calls of constant constructors, whose
field formals become fields; constant variables; lists; classes; and literals.
A variable whose value is being found has no value, so cycles end.  An item of
a list that is no constant is kept as one of which nothing is known.
-/

namespace CheckedThrows

/-- A constant; the type of an expression is that which was found for it. -/
inductive Constant
  | unknown
  | literal (type : Option TypeId) (value : Value)
  | list (type : Option TypeId) (items : List Constant)
  /-- A class that stands as a value. -/
  | classValue (type : Option TypeId) (denoted : TypeId)
  | object (type : TypeId) (fields : List (String × Constant))

namespace Constant

def type? : Constant → Option TypeId
  | .unknown => none
  | .literal type _ | .list type _ | .classValue type _ => type
  | .object type _ => some type

def field? (c : Constant) (name : String) : Option Constant :=
  match c with
  | .object _ fields => fields.lookup name
  | _ => none

def items? : Constant → Option (List Constant)
  | .list _ items => some items
  | _ => none

def denoted? : Constant → Option TypeId
  | .classValue _ denoted => some denoted
  | _ => none

end Constant

namespace Program

def constClass? (e : ExecutableElement) : Option ClassElement :=
  if e.kind = .constructor ∧ e.isConst then e.owner else none

abbrev MeantVariable (p : Program) :=
  { v : VariableElement // ∃ node, p.meaning? node = some (.variable v) }

def meantVariable? (p : Program) (node : NodeId) : Option p.MeantVariable :=
  match h : p.meaning? node with
  | some (.variable v) => some ⟨v, node, h⟩
  | _ => none

theorem meantVariable?_eq_some {p : Program} {node : NodeId} {v : VariableElement}
    (meaning : p.meaning? node = some (.variable v)) :
    p.meantVariable? node = some ⟨v, node, meaning⟩ := by
  unfold meantVariable?
  split
  next v' found =>
    obtain rfl := Element.variable.inj (Option.some.inj (meaning.symm.trans found))
    rfl
  next other => exact absurd meaning (other v)

theorem meantVariable?_eq_none {p : Program} {node : NodeId}
    (other : ∀ v, p.meaning? node ≠ some (.variable v)) : p.meantVariable? node = none := by
  unfold meantVariable?
  split
  next v found => exact absurd found (other v)
  next => rfl

/-- The variables that nodes mean, without those in `active`. -/
def inactive (p : Program) (active : List NodeId) : List NodeId :=
  (p.facts.meanings.keys.filterMap fun node =>
    (p.meantVariable? node).map fun v => v.1.id.node).filter fun n => n ∉ active

theorem inactive_cons_lt (p : Program) {active : List NodeId} (v : p.MeantVariable)
    (fresh : v.1.id.node ∉ active) :
    (p.inactive (v.1.id.node :: active)).length < (p.inactive active).length := by
  obtain ⟨v, node, meaning⟩ := v
  have known : node ∈ p.facts.meanings.keys := by
    rw [Std.TreeMap.mem_keys, Std.TreeMap.mem_iff_isSome_getElem?]
    exact Option.isSome_of_eq_some meaning
  have split : p.inactive (v.id.node :: active) =
      (p.inactive active).filter fun n => n ≠ v.id.node := by
    simp [inactive, List.filter_filter, not_or]
  rw [split, List.length_filter_lt_length_iff_exists]
  refine ⟨v.id.node, List.mem_filter.mpr ⟨List.mem_filterMap.mpr ⟨node, known, ?_⟩, ?_⟩, by simp⟩
  · rw [meantVariable?_eq_some meaning]
    rfl
  · simpa using fresh

/-! ## Evaluation

What an expression stands for, in any monad in which the values of variables can
be found: `enter` finds them. -/

section
variable {m : Type → Type} [Monad m]

def objectWith (e : ExecutableElement) (fields : m (NameTable Constant)) : m (Option Constant) :=
  match constClass? e with
  | some c => return some (.object c.type (← fields))
  | none => return none

mutual

def constantWith (p : Program) (enter : p.MeantVariable → m (Option Constant)) :
    Expr → m (Option Constant)
  | .literal info value => return some (.literal (p.staticType? info.id) value.value)
  | .list info items => do
    return some (.list (p.staticType? info.id) (← p.itemsWith enter items))
  | .name info _ =>
    match p.meantVariable? info.id with
    | some v => enter v
    | none =>
      return ((p.meaning? info.id).bind Element.toClass?).map fun c =>
        .classValue (p.staticType? info.id) c.type
  | .call info _ args _ =>
    match p.meaning? info.id with
    | some (.executable e) => objectWith e (p.fieldsWith enter [] (p.facts.paramsOf e) args)
    | _ => return none
  | _ => return none

def itemsWith (p : Program) (enter : p.MeantVariable → m (Option Constant)) :
    List Expr → m (List Constant)
  | [] => return []
  | e :: rest => do
    let first ← p.constantWith enter e
    return first.getD .unknown :: (← p.itemsWith enter rest)

def fieldsWith (p : Program) (enter : p.MeantVariable → m (Option Constant))
    (fields : NameTable Constant) : List ParameterElement → List Expr → m (NameTable Constant)
  | param :: params, arg :: args => do
    let value ← if param.isFieldFormal then p.constantWith enter arg else pure none
    p.fieldsWith enter (value.elim fields (NameTable.insert param.name · fields)) params args
  | _, _ => return fields

end

/-- The constant that a metadata entry stands for: an object, if it has
arguments, and else the value of a variable. -/
def entryWith (p : Program) (enter : p.MeantVariable → m (Option Constant)) (entry : Metadatum) :
    m (Option Constant) :=
  match p.meaning? entry.id, entry.args with
  | some (.executable e), some args =>
    objectWith e (p.fieldsWith enter [] (p.facts.paramsOf e) args)
  | _, none =>
    match p.meantVariable? entry.id with
    | some v => enter v
    | none => return none
  | _, _ => return none

end

/-- The value of a variable; the values of the variables in `active` are being
found. -/
def constantVariable? (p : Program) (active : List NodeId) (v : p.MeantVariable) :
    Option Constant :=
  match v.1.constantInit? with
  | none => none
  | some init =>
    if h : v.1.id.node ∈ active then none
    else
      have := p.inactive_cons_lt v h
      Id.run (p.constantWith (p.constantVariable? (v.1.id.node :: active)) init)
termination_by (p.inactive active).length

def constant? (p : Program) (active : List NodeId) (e : Expr) : Option Constant :=
  Id.run (p.constantWith (p.constantVariable? active) e)

def entryConstant? (p : Program) (entry : Metadatum) : Option Constant :=
  Id.run (p.entryWith (p.constantVariable? []) entry)

end Program

end CheckedThrows
