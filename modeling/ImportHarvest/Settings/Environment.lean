import ImportHarvest.Settings.Value
import ImportHarvest.Text.Decimal
import ImportHarvest.Text.Escape
/-!
Settings from environment variables.

A variable's name with a fixed start names a setting, in either case and with or without blanks around it, and dots in it
nest; a name with an empty part names nothing. Its value is read by a small grammar: truth values, numbers, `"…"`, `'c'`,
lists in brackets and tables in braces; a value that the grammar does not take as a whole is the text as it is, blanks and
all. So a mistake in a list gives a text, never a failure.
-/

namespace ImportHarvest.Settings

open Text

/-! ## Values -/

/-- the blanks that may stand around a value -/
def isEnvSpace (c : Char) : Bool := c = ' ' || c = '\t' || c = '\n' || c = '\x0c' || c = '\r'

def skipEnvSpaces (cs : List Char) : List Char := cs.dropWhile isEnvSpace

/-- the characters that end a bare text -/
def isEnvMark (c : Char) : Bool := c = ',' || c = '[' || c = ']' || c = '\x7b' || c = '\x7d'

/-- a bare text: a number when it is written as one, else itself. A fraction counts as a number when it has a point, a
whole number when it fits 64 bits with or without sign -/
def bareValue (cs : List Char) : Value :=
  if cs.contains '.' && (floatLiteral? cs).isSome then .other
  else match (natLiteral? cs).filter (· < UInt64.size) with
    | some n => .whole n
    | none => match (intLiteral? cs).filter isSigned64 with
      | some n => .whole n
      | none => .text (String.ofList cs)

/-- a value that holds no other values, at the start of a text -/
def envScalar (cs : List Char) : Option (Value × List Char) :=
  match dropStart? "true".toList cs, dropStart? "false".toList cs with
  | some rest, _ => some (.truth true, rest)
  | none, some rest => some (.truth false, rest)
  | none, none =>
    match cs with
    | '"' :: rest => (quotedBody rest).map fun (s, rest) => (.text (String.ofList s), rest)
    | '\'' :: c :: '\'' :: rest => some (.char c, rest)
    | '\'' :: _ => none
    | cs => some (bareValue (trim (cs.takeWhile fun c => !isEnvMark c)), cs.dropWhile fun c => !isEnvMark c)

def isEnvKey (c : Char) : Bool := c.isAlphanum || c = '_' || c = '-'

/-- a key of a table, up to the equals sign after it -/
def envKey (cs : List Char) : Option (String × List Char) := do
  let (key, rest) ← match cs with
    | '"' :: rest => quotedBody rest
    | cs => match cs.takeWhile isEnvKey with
      | [] => none
      | key => some (key, cs.drop key.length)
  match skipEnvSpaces rest with
  | '=' :: rest => some (String.ofList key, rest)
  | _ => none

mutual
/-- a value with the blanks around it -/
def envValue : Nat → List Char → Option (Value × List Char)
  | 0, _ => none
  | steps + 1, cs => do
    let (v, rest) ← match skipEnvSpaces cs with
      | '[' :: rest => (envItems steps rest).map fun (vs, rest) => (.list vs, rest)
      | '\x7b' :: rest => (envPairs steps rest).map fun (es, rest) => (.table es, rest)
      | cs => envScalar cs
    return (v, skipEnvSpaces rest)
/-- the items of a list up to its closing bracket; a comma may follow the last one, and an item may be empty -/
def envItems : Nat → List Char → Option (List Value × List Char)
  | 0, _ => none
  | steps + 1, cs =>
    match cs with
    | ']' :: rest => some ([], rest)
    | cs => do
      let (v, rest) ← envValue steps cs
      match rest with
      | ',' :: rest => (envItems steps rest).map fun (vs, rest) => (v :: vs, rest)
      | ']' :: rest => some ([v], rest)
      | _ => none
/-- the pairs of a table up to its closing brace; a comma may follow the last one -/
def envPairs : Nat → List Char → Option (Table × List Char)
  | 0, _ => none
  | steps + 1, cs =>
    match cs with
    | '\x7d' :: rest => some ([], rest)
    | cs => do
      let (key, rest) ← envKey (skipEnvSpaces cs)
      let (v, rest) ← envValue steps rest
      match rest with
      | ',' :: rest => (envPairs steps rest).map fun (es, rest) => ((key, v) :: es, rest)
      | '\x7d' :: rest => some ([(key, v)], rest)
      | _ => none
end

/-- the value that a variable holds -/
def Value.ofVariable (raw : String) : Value :=
  match envValue (2 * raw.length + 2) raw.toList with
  | some (v, []) => v
  | _ => .text raw

/-! ## Variables -/

/-- environment variables by name -/
abbrev Environment := List (String × String)

/-- the text with its ASCII letters in lower case -/
def lowerAscii (s : String) : String := String.ofList (s.toList.map Char.toLower)

/-- how the names of the variables that hold settings start -/
def variableStart : String := "pipmyride_"

/-- the variable that holds the token -/
def tokenVariable : String := "github_token"

/-- a variable's name as settings go by it: without the blanks around it, and in either case the same -/
def variableKey (name : String) : String := lowerAscii (trimmed name)

/-- a value under names that nest -/
def nestValue (v : Value) : List String → Value
  | [] => v
  | name :: names => .table [(name, nestValue v names)]

/-- the entry that a variable is: none when its name does not start right, or when one of the names in it is empty -/
def variableEntry? (name raw : String) : Option (String × Value) := do
  let rest ← dropStart? variableStart.toList (variableKey name).toList
  let names := splitOn '.' (String.ofList (trim rest))
  match names with
  | [] => none
  | key :: inner => if "" ∈ names then none else some (key, nestValue (Value.ofVariable raw) inner)

/-- the settings that the variables give by their names -/
def Environment.settings (env : Environment) : Table := env.filterMap fun (name, raw) => variableEntry? name raw

/-- the token that a variable of its own gives -/
def Environment.token (env : Environment) : Table :=
  env.filterMap fun (name, raw) => if variableKey name = tokenVariable then some ("token", Value.ofVariable raw) else none

end ImportHarvest.Settings
