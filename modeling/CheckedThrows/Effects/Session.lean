import CheckedThrows.Effects.Finding
import CheckedThrows.Evaluation

/-!
# Sessions

Whoever asks many questions about one program comes back to the same
declarations again and again.  A session remembers the constants of the
metadata entries and the effects of the elements that it has met, each under
its number, and looks there first.  Constants are evaluated under one guard for
the whole session.  What a session remembers is only what it would find anew, so
in whatever order questions are asked, each has the answer that
`EffectModel.answer` gives to it alone.
-/

namespace CheckedThrows

/-- What has been found so far, and the variables whose values are being
found. -/
structure Memo where
  constants : List (NodeId × Option Constant) := []
  effects : List (ElementId × List TypeId) := []
  active : List NodeId := []

abbrev Session := StateM Memo

namespace Session

def entryConstant? (m : EffectModel) (entry : Metadatum) : Session (Option Constant) := do
  let memo ← get
  match memo.constants.lookup entry.id with
  | some known => return known
  | none =>
    let found := m.program.evaluateEntry memo.active entry
    set { memo with
      constants := (entry.id, found.value) :: memo.constants
      active := found.guard }
    return found.value

def declaredEffects (m : EffectModel) (e : Element) : Session (List TypeId) := do
  let constants ← e.metadata.mapM (entryConstant? m)
  return addTypes [] (constants.flatMap fun c => (c.map m.thrownBy).getD [])

def effects (m : EffectModel) (e : Element) : Session (List TypeId) := do
  match (← get).effects.lookup e.id with
  | some known => return known
  | none =>
    let declared ← declaredEffects m e
    let found := if declared.isEmpty then m.intrinsicEffects e else declared
    modify fun memo => { memo with effects := (e.id, found) :: memo.effects }
    return found

def effects? (m : EffectModel) : Option Element → Session (List TypeId)
  | none => return []
  | some e => effects m e

def isDeclaredByParameter (m : EffectModel) (place : Place) (type : TypeId) : Session Bool := do
  match place.enclosingLambda?.bind m.program.parameterFor? with
  | some p => return m.covers (← effects m (.parameter p)) type
  | none => return false

def isDeclaredByFunction (m : EffectModel) (place : Place) (type : TypeId) : Session Bool := do
  match place.enclosingFunction? with
  | some d => return m.covers (← effects? m (m.program.declared? d.id)) type
  | none => return false

def isDeclared (m : EffectModel) (place : Place) (type : TypeId) : Session Bool := do
  if ← isDeclaredByParameter m place type then return true
  else isDeclaredByFunction m place type

def escapes (m : EffectModel) (place : Place) (type : TypeId) : Session Bool := do
  if m.program.isHandled place type then return false
  else return !(← isDeclared m place type)

def candidatesOf (m : EffectModel) (callee : Element) (origin : Origin) :
    Session (List Candidate) := do
  return (← effects m callee).map fun type => ⟨type, origin⟩

def calls (m : EffectModel) (place : Place) : Session (List Candidate) := do
  return (← (m.program.invoked place).mapM fun e =>
    candidatesOf m (.executable e) (.call e)).flatten

def valueCalls (m : EffectModel) (callee : Expr) : Session (List Candidate) :=
  match m.program.meaning? callee.id with
  | some (.parameter p) => candidatesOf m (.parameter p) (.parameterCall p)
  | some (.variable v) => candidatesOf m (.variable v) (.variableCall v)
  | _ => return []

def candidates (m : EffectModel) (place : Place) : Session (List Candidate) :=
  match place.node with
  | .expr (.throw ..) | .expr (.rethrow _) => return m.candidates place
  | .expr (.call _ callee _ _) => do
    let own ← calls m place
    return own ++ (← valueCalls m callee)
  | _ => calls m place

def escaping (m : EffectModel) (place : Place) (cs : List Candidate) :
    Session (List Candidate) :=
  cs.foldlM (fun kept c => do
    if kept.any fun k => k.type = c.type then return kept
    else if ← escapes m place c.type then return kept ++ [c]
    else return kept) []

def unhandled (m : EffectModel) (place : Place) : Session (List TypeId) := do
  return (← escaping m place (← candidates m place)).map Candidate.type

def carried (m : EffectModel) (e : Expr) : Session (List TypeId) :=
  if e.isNamed then
    match (m.program.meaning? e.id).filter Element.carriesEffects with
    | some element => return addTypes [] (← effects m element)
    | none => return []
  else return []

/-- Where the value carries nothing, nothing is asked about what it is stored
in. -/
def lost (m : EffectModel) (n : Node) : Session (List TypeId) := do
  match EffectModel.storedValue? n with
  | some value =>
    let types ← carried m value
    if types.isEmpty then return []
    else
      let declared ← effects? m (m.storedIn? n)
      return types.filter fun type => !m.covers declared type
  | none => return []

def findingsAt (m : EffectModel) (enabled : List LintCode) (uri : String) (place : Place) :
    Session (List Finding) := do
  let own := (← candidates m place).filter fun c => c.origin.code ∈ enabled
  let escaped ← escaping m place own
  let types ← if .lostInAssignment ∈ enabled then lost m place.node else pure []
  return escaped.map (m.unhandledFinding uri place.node) ++
    types.map (m.lostFinding uri place.node)

def findings (m : EffectModel) (enabled : List LintCode) (u : CompilationUnit) :
    Session (List Finding) := do
  return (← (Place.walkCode (.unit u)).mapM (findingsAt m enabled u.uri)).flatten

end Session

inductive Question
  | constant (entry : Metadatum)
  | effects (element : Option Element)
  | unhandled (place : Place)
  | lost (node : Node)
  | findings (enabled : List LintCode) (unit : CompilationUnit)

inductive Answer
  | constant (value : Option Constant)
  | types (types : List TypeId)
  | findings (findings : List Finding)

def EffectModel.answer (m : EffectModel) : Question → Answer
  | .constant entry => .constant (m.program.entryConstant? entry)
  | .effects e => .types (m.effects? e)
  | .unhandled place => .types (m.unhandled place)
  | .lost n => .types (m.lost n)
  | .findings enabled u => .findings (m.findings enabled u)

namespace Session

def ask (m : EffectModel) : Question → Session Answer
  | .constant entry => return .constant (← entryConstant? m entry)
  | .effects e => return .types (← effects? m e)
  | .unhandled place => return .types (← unhandled m place)
  | .lost n => return .types (← lost m n)
  | .findings enabled u => return .findings (← findings m enabled u)

def askAll (m : EffectModel) (questions : List Question) : List Answer :=
  ((questions.mapM (ask m)).run {}).1

end Session

end CheckedThrows
