import ImportHarvest.Toml.Scalar
import ImportHarvest.Toml.Table
/-!
TOML documents: a line is empty, a header, or a key with its value, and the names that the lines define make a table.

Values nest in lists, which may go over several lines, and in inline tables, which may not. Their readers count down
from a number of steps that the length of the text bounds.
-/

namespace ImportHarvest.Toml

open Text Settings

/-! ## Values -/

mutual
/-- a value of any kind, inside so many lists and inline tables -/
def value (depth : Nat) : Nat → List Char → Option (Value × List Char)
  | 0, _ => none
  | steps + 1, cs =>
    match cs with
    | '[' :: rest =>
      if maxDepth ≤ depth + 1 then none
      else (listItems (depth + 1) steps (skipFiller rest)).map fun (vs, rest) => (.list vs, rest)
    | '\x7b' :: rest =>
      if maxDepth ≤ depth + 1 then none
      else match skipSpaces rest with
        | '\x7d' :: rest => some (.table [], rest)
        | rest => (inlinePairs (depth + 1) steps [] rest).map fun (es, rest) => (.table (tableOf es), rest)
    | cs => scalar cs
/-- the items of a list, up to its closing bracket; a comma may follow the last one -/
def listItems (depth : Nat) : Nat → List Char → Option (List Value × List Char)
  | 0, _ => none
  | steps + 1, cs =>
    match cs with
    | ']' :: rest => some ([], rest)
    | cs =>
      match value depth steps cs with
      | none => none
      | some (v, rest) =>
        match skipFiller rest with
        | ',' :: rest => (listItems depth steps (skipFiller rest)).map fun (vs, rest) => (v :: vs, rest)
        | ']' :: rest => some ([v], rest)
        | _ => none
/-- the pairs of an inline table, up to its closing brace; no comma may follow the last one -/
def inlinePairs (depth : Nat) : Nat → Entries → List Char → Option (Entries × List Char)
  | 0, _, _ => none
  | steps + 1, es, cs =>
    match key cs with
    | none => none
    | some (names, rest) =>
      match skipSpaces rest with
      | '=' :: rest =>
        match value depth steps (skipSpaces rest) with
        | none => none
        | some (v, rest) =>
          match setDotted false false v names es with
          | none => none
          | some es =>
            match skipSpaces rest with
            | ',' :: rest => inlinePairs depth steps es (skipSpaces rest)
            | '\x7d' :: rest => some (es, rest)
            | _ => none
      | _ => none
end

/-- a value at the start of a text -/
def valueAt (cs : List Char) : Option (Value × List Char) := value 0 (2 * cs.length + 2) cs

/-! ## Lines -/

/-- what a line says -/
inductive Line where
  | empty
  /-- a key with its value -/
  | pair (names : List String) (v : Value)
  /-- the header of a table -/
  | table (names : List String)
  /-- the header of an element of a list of tables -/
  | element (names : List String)

/-- the names of a header, up to its closing bracket -/
def header (cs : List Char) : Option (List String × List Char) := do
  let (names, rest) ← key (skipSpaces cs)
  return (names, ← expect? ']' (skipSpaces rest))

/-- one line, up to what may end it -/
def lineStart (cs : List Char) : Option (Line × List Char) :=
  match cs with
  | '[' :: '[' :: rest => do
    let (names, rest) ← header rest
    return (.element names, ← expect? ']' rest)
  | '[' :: rest => (header rest).map fun (names, rest) => (.table names, rest)
  | cs =>
    if (endOfLine? cs).isSome then some (.empty, cs)
    else do
      let (names, rest) ← key cs
      let rest ← expect? '=' (skipSpaces rest)
      let (v, rest) ← valueAt (skipSpaces rest)
      return (.pair names v, rest)

/-- one line with its end -/
def line (cs : List Char) : Option (Line × List Char) := do
  let (l, rest) ← lineStart (skipSpaces cs)
  return (l, ← endOfLine? rest)

/-- the lines of a text -/
def lines (steps : Nat) (cs : List Char) : Option (List Line) :=
  match steps, cs with
  | _, [] => some []
  | 0, _ => none
  | steps + 1, cs =>
    match line cs with
    | none => none
    | some (l, rest) => (lines steps rest).map (l :: ·)

/-! ## Documents -/

/-- what the lines so far define, and the names of the table that the next one adds to -/
structure Draft where
  entries : Entries
  current : List String

/-- what one more line defines -/
def define (d : Draft) : Line → Option Draft
  | .empty => some d
  | .pair names v => (within (setDotted false false v names) d.current d.entries).map fun es => { d with entries := es }
  | .table names => do
    let name ← names.getLast?
    return ⟨← within (defineTable name) names.dropLast d.entries, names⟩
  | .element names => do
    let name ← names.getLast?
    return ⟨← within (defineElement name) names.dropLast d.entries, names⟩

/-- the table that a text defines; a byte order mark may stand in front -/
def parse? (text : List Char) : Option Table := do
  let text := match text with
    | '\uFEFF' :: cs => cs
    | cs => cs
  let ls ← lines (text.length + 1) text
  let d ← ls.foldlM define ⟨[], []⟩
  return tableOf d.entries

end ImportHarvest.Toml
