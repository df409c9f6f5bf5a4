import CheckedThrows.Ast.Node

/-!
# Finding nodes

The first node of a kind from some place down, in pre-order and the place
itself included, and the nearest one around a place.
-/

namespace CheckedThrows.Place

def first? (start : Place) (test : Node → Bool) : Option Place :=
  (walkFrom (fun _ => true) [start]).find? fun p => test p.node

def function? (start : Place) (name : String) : Option Place :=
  start.first? fun
    | .stmt (.function d) => d.name = name
    | _ => false

def call? (start : Place) (callee : String) : Option Place :=
  start.first? fun
    | .expr (.call _ (.name _ name) _ _) => name = callee
    | .expr (.call _ (.member _ _ name) _ _) => name = callee
    | _ => false

def enclosing? (p : Place) (test : Node → Bool) : Option Node :=
  p.ancestors.find? test

end CheckedThrows.Place
