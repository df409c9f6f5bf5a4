/-!
# Tables by name

Entries under names, in the order in which the names came.  An entry put under
a name that is there takes the place of the old one.
-/

namespace CheckedThrows

abbrev NameTable (α : Type) := List (String × α)

def NameTable.insert {α : Type} (name : String) (value : α) : NameTable α → NameTable α
  | [] => [(name, value)]
  | (n, old) :: rest =>
    if n = name then (n, value) :: rest else (n, old) :: insert name value rest

end CheckedThrows
