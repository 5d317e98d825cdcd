/-!
Records whose fields are given by name. A field may have several names, no name belongs to two fields, names that no
field has are passed over, and a field may be given once.
-/

namespace ImportHarvest

/-- the fields of a record, each with the names it may be given by -/
abbrev Fields := List (List String)

namespace Fields

/-- where the field that has a name stands among the fields -/
def find? (fields : Fields) (name : String) : Option Nat := fields.findIdx? fun names => names.contains name

/-- no field given yet -/
def blank {α : Type} (fields : Fields) : List (Option α) := fields.map fun _ => none

/-- puts one value to the field that its name belongs to -/
def putOne? {α : Type} (fields : Fields) (name : String) (value : α) (values : List (Option α)) :
    Option (List (Option α)) :=
  match fields.find? name with
  | none => some values
  | some i => if (values.getD i none).isSome then none else some (values.set i (some value))

/-- the values of the fields, in their order -/
def place? {α : Type} (fields : Fields) (given : List (String × α)) : Option (List (Option α)) :=
  given.foldlM (fun values (name, value) => fields.putOne? name value values) fields.blank

end Fields

/-- a field that has to be there -/
def required? {α β : Type} (read : α → Option β) (value : Option α) : Option β := value.bind read

/-- a field that stands for `otherwise` when it is not there -/
def default? {α β : Type} (otherwise : β) (read : α → Option β) : Option α → Option β
  | none => some otherwise
  | some a => read a

end ImportHarvest
