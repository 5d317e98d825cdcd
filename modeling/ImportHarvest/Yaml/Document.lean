import ImportHarvest.Settings.Value
import ImportHarvest.Text.Decimal
import ImportHarvest.Yaml.Node
/-!
YAML documents as values.

A plain scalar is null, a truth value or a number when it is written as one, and a text otherwise, as every quoted
scalar is; a tag of the core schema asks for one of these kinds. The document is a mapping whose keys are scalars, taken
as they are written, and of a key that repeats the last value counts.
-/

namespace ImportHarvest.Yaml

open Text Settings

/-! ## Scalars -/

def isNull (s : String) : Bool := ["~", "null", "Null", "NULL"].contains s

def truth? (s : String) : Option Bool :=
  if ["true", "True", "TRUE"].contains s then some true
  else if ["false", "False", "FALSE"].contains s then some false
  else none

/-- at least one digit to a base and nothing else -/
def digitsIn? (radix : Nat) (cs : List Char) : Option Nat :=
  if cs ≠ [] && cs.all (fun c => (hexValue? c).any (· < radix)) then some (natOfDigitsIn radix cs) else none

/-- a whole number without a sign; with a prefix its base is two, eight or sixteen, and a leading zero makes no
number -/
def natural? (cs : List Char) : Option Nat :=
  match cs with
  | '0' :: 'x' :: ds => digitsIn? 16 ds
  | '0' :: 'o' :: ds => digitsIn? 8 ds
  | '0' :: 'b' :: ds => digitsIn? 2 ds
  | '0' :: _ :: _ => none
  | ds => digitsIn? 10 ds

/-- a whole number -/
def integer? (cs : List Char) : Option Int :=
  let (negative, cs) := splitSign cs
  (natural? cs).map fun n => if negative then -(n : Int) else n

/-- digits that start with a zero -/
def isPadded (cs : List Char) : Bool :=
  match (splitSign cs).2 with
  | '0' :: d :: ds => (d :: ds).all Char.isDigit
  | _ => false

/-- whether the text is written as a fraction, an infinity or no number -/
def isFloat (cs : List Char) : Bool :=
  let s := String.ofList cs
  [".inf", ".Inf", ".INF", "+.inf", "+.Inf", "+.INF", "-.inf", "-.Inf", "-.INF", ".nan", ".NaN", ".NAN"].contains s
    || (floatLiteral? cs).any FloatLiteral.isFinite

/-- the value of a plain scalar without a tag -/
def plainValue (s : String) : Value :=
  if s = "" || isNull s then .null
  else match truth? s, integer? s.toList with
    | some b, _ => .truth b
    | none, some n => .whole n
    | none, none => if !isPadded s.toList && isFloat s.toList then .other else .text s

/-- how the tags of the core schema start -/
def coreStart : String := "tag:yaml.org,2002:"

/-- the value of a scalar; no setting takes one with a tag of its own -/
def scalarValue? (tag : Option String) (plain : Bool) (s : String) : Option Value :=
  match tag with
  | none => some (if plain then plainValue s else .text s)
  | some t =>
    if startsWith "!" t then none
    else if t = coreStart ++ "bool" then (truth? s).map .truth
    else if t = coreStart ++ "int" then (integer? s.toList).map .whole
    else if t = coreStart ++ "float" then if isFloat s.toList then some .other else none
    else if t = coreStart ++ "null" then if isNull s then some .null else none
    else some (.text s)

/-! ## Nodes -/

/-- whether no setting takes a node with this tag -/
def isOwnTag (tag : Option String) : Bool := tag.any (startsWith "!")

/-- the table with the pairs put in one after the other -/
def tableOf (pairs : List (String × Value)) : Table :=
  pairs.foldl (fun t (name, v) => t.filter (fun (other, _) => other ≠ name) ++ [(name, v)]) []

/-- reading may fail; it counts the aliases that may still be followed -/
abbrev Reading := StateT Nat Option

/-- the node itself, or the one that it stands for -/
def real (anchored : List Anchored) (n : Node) : Reading Node := do
  match n with
  | .alias number =>
    let left ← get
    if left = 0 then failure
    set (left - 1)
    match (anchored.filter fun a => a.number = number).foldl
        (fun best a => if best.any fun b : Anchored => a.position < b.position then best else some a) none with
    | some a => return a.node
    | none => failure
  | n => return n

/-- the text of a key -/
def keyText (anchored : List Anchored) (n : Node) : Reading String := do
  match ← real anchored n with
  | .scalar _ _ text => return text
  | _ => failure

/-- the value of a node, in which so many levels of collections may nest -/
def nodeValue (anchored : List Anchored) (room : Nat) (n : Node) : Reading Value := do
  match ← real anchored n, room with
  | .scalar tag plain text, _ => (scalarValue? tag plain text).elim failure pure
  | .sequence tag items, room + 1 =>
    if isOwnTag tag then failure
    return .list (← items.mapM (nodeValue anchored room))
  | .mapping tag pairs, room + 1 =>
    if isOwnTag tag then failure
    let entries ← pairs.mapM fun (k, v) => do return (← keyText anchored k, ← nodeValue anchored room v)
    return .table (tableOf entries)
  | _, _ => failure

/-! ## Documents -/

/-- how many levels of collections may nest -/
def maxDepth : Nat := 128

/-- the table of a whole document: a mapping, or nothing at all -/
def documentTable (anchored : List Anchored) (document : Node) : Reading Table := do
  match document with
  | .mapping _ pairs =>
    let entries ← pairs.mapM fun (k, v) => do return (← keyText anchored k, ← nodeValue anchored (maxDepth - 1) v)
    return tableOf entries
  | .scalar _ true "" => return []
  | _ => failure

/-- the table that a text gives; of the aliases in it, a hundred for each part of the document may be followed -/
def parse? (text : List Char) : Option Table := do
  let (document, anchored, count) ← compose? (← tokens? text)
  let (table, _) ← (documentTable anchored document).run (100 * count)
  return table

end ImportHarvest.Yaml
