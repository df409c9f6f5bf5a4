import CheckedThrows.Proofs.Descent
import CheckedThrows.Resolution.Program

/-!
# What a name is bound to

Going outward from a place, blocks, functions, function literals and clauses bind
names for what stands inside them.  This is a matter of the tree alone.  While a
body is gone through, the names of the scope at hand are to be those that are bound
around the place at hand.
-/

namespace CheckedThrows

open List

inductive Binder
  | variable (decl : VarDecl)
  | function (decl : FunctionDecl)
  | param (param : Param)
  | exception (clause : CatchClause) (name : String)
  | stackTrace (clause : CatchClause) (name : String)

namespace Binder

/-- The elements that a binder of a library brings about.  The types that parameters
and exceptions get, and the position of a parameter, are left open. -/
def IsFor (uri : String) : Binder → Element → Prop
  | .variable d, e => e = .variable ⟨.declared d, uri, none⟩
  | .function d, e => e = .executable ⟨.declared d, uri, none⟩
  | .param p, e => ∃ index type, e = .parameter ⟨p, uri, index, type⟩
  | .exception c name, e => ∃ type, e = .variable ⟨.exception c name type, uri, none⟩
  | .stackTrace c name, e => ∃ type, e = .variable ⟨.stackTrace c name type, uri, none⟩

def ofStmt? (name : String) : Stmt → Option Binder
  | .variable d => if d.name = name then some (.variable d) else none
  | .function d => if d.name = name then some (.function d) else none
  | _ => none

def ofFunction? (name : String) : Stmt → Option Binder
  | .function d => ofStmt? name (.function d)
  | _ => none

def ofStmts? (name : String) (statements : List Stmt) : Option Binder :=
  statements.reverse.findSome? (ofStmt? name)

def ofParams? (name : String) (params : List Param) : Option Binder :=
  (params.reverse.find? fun p => p.name = name ∧ p.isFieldFormal = false).map .param

def ofClause? (name : String) (c : CatchClause) : Option Binder :=
  if c.stackBinder = some name then some (.stackTrace c name)
  else if c.binder = some name then some (.exception c name)
  else none

theorem ofStmts?_concat (name : String) (before : List Stmt) (s : Stmt) :
    ofStmts? name (before ++ [s]) = (ofStmt? name s).or (ofStmts? name before) := by
  rw [ofStmts?, reverse_append, reverse_singleton, singleton_append,
    findSome?_cons]
  cases ofStmt? name s <;> rfl

theorem ofParams?_cons (name : String) (p : Param) (params : List Param) :
    ofParams? name (p :: params) = (ofParams? name params).or
      (if p.name = name ∧ p.isFieldFormal = false then some (.param p) else none) := by
  rw [ofParams?, reverse_cons, find?_append, Option.map_or]
  by_cases hp : p.name = name ∧ p.isFieldFormal = false
  · rw [if_pos hp, find?_singleton, if_pos (decide_eq_true hp)]
    rfl
  · rw [if_neg hp, find?_singleton, if_neg (by simpa using hp)]
    rfl

end Binder

namespace Node

def isBody : Node → Bool
  | .stmt _ | .expr _ => true
  | _ => false

def toStmt? : Node → Option Stmt
  | .stmt s => some s
  | _ => none

/-- What a node binds a name to for one of its children.  In a block these are the
statements before the child, and the child itself if it is a function. -/
def binder? (parent : Node) (name : String) (child : Node) : Option Binder :=
  match parent with
  | .block b =>
    (child.toStmt?.bind (Binder.ofFunction? name)).or
      (Binder.ofStmts? name (b.statements.takeWhile fun s => stmtId s ≠ child.id))
  | .functionDecl d => if child.isBody then Binder.ofParams? name d.params else none
  | .clause c => if child.isBody then Binder.ofClause? name c else none
  | .expr (.lambda _ params _) => if child.isBody then Binder.ofParams? name params else none
  | _ => none

def isStatic : Node → Bool
  | .functionDecl d => d.modifiers.isStatic
  | .varDecl d => d.modifiers.isStatic
  | _ => false

end Node

namespace Place

def binder? (name : String) : Place → Option Binder
  | .root _ => none
  | .child parent _ node => (parent.node.binder? name node).or (parent.binder? name)

def member? : Place → Option (ClassDecl × Node)
  | .root _ => none
  | .child parent _ node =>
    match parent.node with
    | .class d => some (d, node)
    | _ => parent.member?

end Place

/-- Where a place stands, as far as it matters for names that are bound by no code
around it. -/
def Facts.contextAt (f : Facts) (w : Workspace) (uri : String) (p : Place) : BodyContext where
  workspace := w
  library := uri
  owner := p.member?.bind fun m => (f.declared[m.1.id]?).bind Element.toClass?
  isStatic := p.member?.any fun m => m.2.isStatic

/-! ## Scopes -/

/-- Each name of a scope means an element of what it is bound to. -/
def Names.Shows (uri : String) (scope : Names) (bound : String → Option Binder) : Prop :=
  ∀ name, Option.Rel (fun e b => b.IsFor uri e) (scope.lookup name) (bound name)

namespace Names

def ofStmt (uri : String) : Stmt → Names
  | .variable d => [(d.name, .variable ⟨.declared d, uri, none⟩)]
  | .function d => [(d.name, .executable ⟨.declared d, uri, none⟩)]
  | _ => []

def ofFunction (uri : String) : Stmt → Names
  | .function d => ofStmt uri (.function d)
  | _ => []

variable {uri : String} {scope names : Names} {bound inner : String → Option Binder}

theorem shows_nil (uri : String) : Shows uri [] fun _ => none :=
  fun _ => .none

theorem Shows.append (hnames : names.Shows uri inner) (hscope : scope.Shows uri bound) :
    (names ++ scope).Shows uri fun name => (inner name).or (bound name) := by
  intro name
  have hfirst := hnames name
  simp only [lookup_append]
  generalize names.lookup name = found, inner name = binder at hfirst ⊢
  cases hfirst with
  | some hfor => exact .some hfor
  | none => exact hscope name

theorem shows_singleton {name : String} {e : Element} {b : Binder} (hfor : b.IsFor uri e) :
    Shows uri [(name, e)] fun n => if name = n then some b else none := by
  intro n
  by_cases hname : name = n
  · subst hname
    simpa using Option.Rel.some hfor
  · simp only [hname, if_false, lookup_cons, lookup_nil, beq_false_of_ne (Ne.symm hname)]
    exact .none

theorem shows_ofStmt (uri : String) (s : Stmt) :
    (ofStmt uri s).Shows uri fun name => Binder.ofStmt? name s := by
  cases s with
  | «variable» d => exact shows_singleton (b := .variable d) rfl
  | function d => exact shows_singleton (b := .function d) rfl
  | _ => exact shows_nil uri

theorem shows_ofFunction (uri : String) (s : Stmt) :
    (ofFunction uri s).Shows uri fun name => Binder.ofFunction? name s := by
  cases s with
  | function d => exact shows_ofStmt uri (.function d)
  | _ => exact shows_nil uri

theorem shows_params {elements : List ParameterElement}
    (hlibrary : ∀ p ∈ elements, p.library = uri) :
    Shows uri ((elements.filter fun p => !p.isFieldFormal).map fun p =>
        (p.name, Element.parameter p)).reverse
      fun name => Binder.ofParams? name (elements.map ParameterElement.param) := by
  induction elements with
  | nil => exact shows_nil uri
  | cons p rest ih =>
    obtain ⟨rfl, hrest⟩ := forall_mem_cons.mp hlibrary
    have hfirst : (Binder.param p.param).IsFor p.library (.parameter p) := ⟨p.index, p.type, rfl⟩
    simp only [map_cons, Binder.ofParams?_cons]
    cases hformal : p.isFieldFormal with
    | true =>
      have hhidden : p.param.isFieldFormal = true := hformal
      simpa [filter_cons, hformal, hhidden] using ih hrest
    | false =>
      have hseen : p.param.isFieldFormal = false := hformal
      simp only [filter_cons, hformal, Bool.not_false, if_true, map_cons,
        reverse_cons, hseen, and_true]
      exact (ih hrest).append (shows_singleton hfirst)

theorem shows_option (x : Option String) {e : String → Element} {b : String → Binder}
    (hfor : ∀ name, (b name).IsFor uri (e name)) :
    Shows uri (x.map fun name => (name, e name)).toList
      fun name => if x = some name then some (b name) else none := by
  cases x with
  | none => exact shows_nil uri
  | some x =>
    intro name
    by_cases hname : x = name
    · subst hname
      simpa using Option.Rel.some (hfor x)
    · have hsingle : Shows uri [(x, e x)] fun n => if x = n then some (b x) else none :=
        shows_singleton (hfor x)
      simpa [hname] using hsingle name

theorem shows_clause (ctx : BodyContext) (f : Facts) (c : CatchClause) (type : TypeId) :
    Shows ctx.library (clauseNames ctx f c type) fun name => Binder.ofClause? name c := by
  have hstack : ∀ name, (Binder.stackTrace c name).IsFor ctx.library
      (.variable ⟨.stackTrace c name (f.coreType "StackTrace"), ctx.library, none⟩) :=
    fun _ => ⟨_, rfl⟩
  have hexception : ∀ name, (Binder.exception c name).IsFor ctx.library
      (.variable ⟨.exception c name type, ctx.library, none⟩) := fun _ => ⟨_, rfl⟩
  have hboth := (shows_option c.stackBinder hstack).append (shows_option c.binder hexception)
  intro name
  have hname := hboth name
  simp only [Binder.ofClause?]
  by_cases hstack : c.stackBinder = some name
  · simpa [clauseNames, hstack] using hname
  · simpa [clauseNames, hstack] using hname

end Names

/-! ## Looking up from a place -/

namespace BodyContext

/-- What is found for a name at a place is what it is bound to there, or else what it
means outside of all code. -/
def Finds (ctx : BodyContext) (p : Place) (name : String) (found : Option Element) : Prop :=
  match p.binder? name with
  | some b => ∃ e, found = some e ∧ b.IsFor ctx.library e
  | none => found = ctx.lookupRead [] name

theorem finds_lookupRead {ctx : BodyContext} {p : Place} {scope : Names}
    (hscope : scope.Shows ctx.library fun name => p.binder? name) (name : String) :
    ctx.Finds p name (ctx.lookupRead scope name) := by
  have hname : Option.Rel _ (scope.lookup name) (p.binder? name) := hscope name
  simp only [Finds, lookupRead]
  generalize scope.lookup name = found, p.binder? name = binder at hname ⊢
  cases hname with
  | some hfor => exact ⟨_, rfl, hfor⟩
  | none => rfl

theorem Finds.isSome_eq {ctx : BodyContext} {p : Place} {name : String} {found found' : Option Element}
    (hfound : ctx.Finds p name found) (hfound' : ctx.Finds p name found') :
    found.isSome = found'.isSome := by
  unfold Finds at hfound hfound'
  split at hfound
  next b hb =>
    obtain ⟨e, rfl, -⟩ := hfound
    rw [hb] at hfound'
    obtain ⟨e', rfl, -⟩ := hfound'
    rfl
  next hb =>
    rw [hb] at hfound'
    rw [hfound, hfound']

end BodyContext

end CheckedThrows
