import CheckedThrows.Ast.Basic

/-!
# Numbering the nodes of a tree

Nodes are numbered in pre-order: a node comes before its children, and these
come in the order of `Node.children`.  The numbers of a tree are consecutive,
so trees numbered one after the other have no number in common.
-/

namespace CheckedThrows

/-- Gives out numbers in increasing order; the state is the next one. -/
abbrev Numbering := StateM NodeId

def NodeInfo.number (info : NodeInfo) : Numbering NodeInfo := fun next =>
  ({ info with id := next }, next + 1)

def TypeName.number (t : TypeName) : Numbering TypeName := do
  return { t with info := ← t.info.number }

mutual

def TypeRef.number : TypeRef → Numbering TypeRef
  | .named type => return .named (← type.number)
  | .function info returns params nullable => do
    let info ← info.number
    let returns ← numberType? returns
    return .function info returns (← numberTypes params) nullable

def numberType? : Option TypeRef → Numbering (Option TypeRef)
  | none => return none
  | some type => return some (← type.number)

def numberTypes : List TypeRef → Numbering (List TypeRef)
  | [] => return []
  | type :: types => return (← type.number) :: (← numberTypes types)

end

mutual

def Expr.number : Expr → Numbering Expr
  | .name info name => return .name (← info.number) name
  | .literal info value => return .literal (← info.number) value
  | .list info items => return .list (← info.number) (← numberExprs items)
  | .self info => return .self (← info.number)
  | .member info target name => return .member (← info.number) (← target.number) name
  | .call info callee args creation =>
    return .call (← info.number) (← callee.number) (← numberExprs args) creation
  | .index info target index =>
    return .index (← info.number) (← target.number) (← index.number)
  | .binary info op left right =>
    return .binary (← info.number) op (← left.number) (← right.number)
  | .unary info op operand => return .unary (← info.number) op (← operand.number)
  | .step info op form operand => return .step (← info.number) op form (← operand.number)
  | .assign info op target value =>
    return .assign (← info.number) op (← target.number) (← value.number)
  | .throw info value => return .throw (← info.number) (← value.number)
  | .rethrow info => return .rethrow (← info.number)
  | .lambda info params body =>
    return .lambda (← info.number) (← numberParams params) (← body.number)

def numberExprs : List Expr → Numbering (List Expr)
  | [] => return []
  | e :: es => return (← e.number) :: (← numberExprs es)

def numberExpr? : Option Expr → Numbering (Option Expr)
  | none => return none
  | some e => return some (← e.number)

def Body.number : Body → Numbering Body
  | .block b => return .block (← b.number)
  | .value e => return .value (← e.number)

def numberBody? : Option Body → Numbering (Option Body)
  | none => return none
  | some body => return some (← body.number)

def Param.number : Param → Numbering Param
  | ⟨info, name, type, isFieldFormal, entries⟩ =>
    return ⟨← info.number, name, ← numberType? type, isFieldFormal,
      ← numberMetadata entries⟩

def numberParams : List Param → Numbering (List Param)
  | [] => return []
  | p :: ps => return (← p.number) :: (← numberParams ps)

def Metadatum.number : Metadatum → Numbering Metadatum
  | ⟨info, name, none⟩ => return ⟨← info.number, name, none⟩
  | ⟨info, name, some args⟩ => return ⟨← info.number, name, some (← numberExprs args)⟩

def numberMetadata : List Metadatum → Numbering (List Metadatum)
  | [] => return []
  | m :: ms => return (← m.number) :: (← numberMetadata ms)

def Block.number : Block → Numbering Block
  | ⟨info, statements⟩ => return ⟨← info.number, ← numberStmts statements⟩

def numberBlock? : Option Block → Numbering (Option Block)
  | none => return none
  | some b => return some (← b.number)

def numberStmts : List Stmt → Numbering (List Stmt)
  | [] => return []
  | s :: ss => return (← s.number) :: (← numberStmts ss)

def Stmt.number : Stmt → Numbering Stmt
  | .block b => return .block (← b.number)
  | .expr info e => return .expr (← info.number) (← e.number)
  | .ret info value => return .ret (← info.number) (← numberExpr? value)
  | .branch info cond thenBlock elseBlock =>
    return .branch (← info.number) (← cond.number) (← thenBlock.number)
      (← numberBlock? elseBlock)
  | .loop info cond body => return .loop (← info.number) (← cond.number) (← body.number)
  | .leave info => return .leave (← info.number)
  | .next info => return .next (← info.number)
  | .guarded info body catches finallyBlock =>
    return .guarded (← info.number) (← body.number) (← numberCatches catches)
      (← numberBlock? finallyBlock)
  | .variable d => return .variable (← d.number)
  | .function d => return .function (← d.number)

def CatchClause.number : CatchClause → Numbering CatchClause
  | ⟨info, type, binder, stackBinder, body⟩ =>
    return ⟨← info.number, ← numberType? type, binder, stackBinder, ← body.number⟩

def numberCatches : List CatchClause → Numbering (List CatchClause)
  | [] => return []
  | c :: cs => return (← c.number) :: (← numberCatches cs)

def VarDecl.number : VarDecl → Numbering VarDecl
  | ⟨info, name, kind, type, init, modifiers, entries⟩ =>
    return ⟨← info.number, name, kind, ← numberType? type, ← numberExpr? init, modifiers,
      ← numberMetadata entries⟩

def FunctionDecl.number : FunctionDecl → Numbering FunctionDecl
  | ⟨info, name, kind, qualifier, params, returns, body, modifiers, entries⟩ =>
    return ⟨← info.number, name, kind, qualifier, ← numberParams params,
      ← numberType? returns, ← numberBody? body, modifiers, ← numberMetadata entries⟩

end

def Member.number : Member → Numbering Member
  | .variable d => return .variable (← d.number)
  | .function d => return .function (← d.number)

def ClassDecl.number (d : ClassDecl) : Numbering ClassDecl := do
  let info ← d.info.number
  let members ← d.members.mapM Member.number
  let superclass ← d.superclass.mapM TypeName.number
  let interfaces ← d.interfaces.mapM TypeName.number
  let metadata ← numberMetadata d.metadata
  return { d with info, members, superclass, interfaces, metadata }

def Declaration.number : Declaration → Numbering Declaration
  | .class d => return .class (← d.number)
  | .function d => return .function (← d.number)
  | .variable d => return .variable (← d.number)

def Directive.number (d : Directive) : Numbering Directive := do
  return { d with info := ← d.info.number }

def CompilationUnit.number (u : CompilationUnit) (start : NodeId) :
    CompilationUnit × NodeId :=
  let rest : Numbering CompilationUnit := do
    let directives ← u.directives.mapM Directive.number
    let declarations ← u.declarations.mapM Declaration.number
    return { u with id := start, directives, declarations }
  rest.run (start + 1)

end CheckedThrows
