import ImportHarvest.Text.Blank
import ImportHarvest.Text.Pieces
/-!
The two list settings, allowed extensions and exclude globs, in normal form.

Both are given as items, often written in one string with commas between them. A glob loses the blanks around it and
counts only when something is left. An extension gains a leading dot as well, and counts once.
-/

namespace ImportHarvest.Settings

open Text

/-- an extension in its dotted form, or nothing when the text is blank -/
def normalizeExtension (ext : String) : Option String :=
  match trim ext.toList with
  | [] => none
  | '.' :: cs => some (String.ofList ('.' :: cs))
  | cs => some (String.ofList ('.' :: cs))

/-- a list without its later repeats -/
def firstSeen : List String → List String :=
  List.foldl (fun seen x => if seen.contains x then seen else seen ++ [x]) []

/-- the extensions that a list of items stands for -/
def extensionsOf (items : List String) : List String := firstSeen (items.filterMap normalizeExtension)

/-- the globs that a list of items stands for -/
def globsOf (items : List String) : List String := (items.map trimmed).filter (· ≠ "")

/-- the items written in one string -/
def itemsOf (written : String) : List String := splitOn ',' written

end ImportHarvest.Settings
