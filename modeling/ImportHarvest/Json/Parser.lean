import ImportHarvest.Json.Basic
import ImportHarvest.Text.Escape
import ImportHarvest.Text.Pieces
/-!
Reading JSON text. Only the four JSON blanks may stand between tokens, a number has no leading zero, a string holds no
raw control character, and nothing but blanks may follow the value. Nesting has no limit.

The leaves come first: each takes what it needs from the start of the text and gives the rest back. Values nest, so
`value` counts down from a number of steps that the length of the text bounds.
-/

namespace ImportHarvest.Json

open Text

/-! ## Leaves -/

def isSpace (c : Char) : Bool := c = ' ' || c = '\t' || c = '\n' || c = '\r'

def skipSpaces (cs : List Char) : List Char := cs.dropWhile isSpace

/-- what stands between the quotes of a string: a character as it is, or a unit of UTF-16 written as an escape -/
inductive Code where
  | char (c : Char)
  | unit (u : Nat)
  deriving DecidableEq, Repr

/-- what a backslash and one more character stand for -/
def escaped? : Char → Option Char
  | '"' => some '"'
  | '\\' => some '\\'
  | '/' => some '/'
  | 'b' => some '\x08'
  | 'f' => some '\x0c'
  | 'n' => some '\n'
  | 'r' => some '\r'
  | 't' => some '\t'
  | _ => none

/-- the codes of a string up to its closing quote -/
def codes : List Char → Option (List Code × List Char)
  | '"' :: rest => some ([], rest)
  | '\\' :: 'u' :: a :: b :: c :: d :: rest =>
    match hexValue? a, hexValue? b, hexValue? c, hexValue? d with
    | some a, some b, some c, some d =>
      (codes rest).map fun (cs, rest) => (.unit (((a * 16 + b) * 16 + c) * 16 + d) :: cs, rest)
    | _, _, _, _ => none
  | '\\' :: e :: rest =>
    match escaped? e with
    | some c => (codes rest).map fun (cs, rest) => (.char c :: cs, rest)
    | none => none
  | c :: rest =>
    if c.toNat < 0x20 || c = '\\' then none else (codes rest).map fun (cs, rest) => (.char c :: cs, rest)
  | [] => none

/-- the text of codes: two surrogates in the right order are a character, any other surrogate leaves no text -/
def textOfCodes : List Code → Option (List Char)
  | [] => some []
  | .char c :: rest => (textOfCodes rest).map (c :: ·)
  | .unit u :: .unit v :: rest =>
    if 0xD800 ≤ u && u < 0xDC00 then
      if 0xDC00 ≤ v && v < 0xE000 then
        (textOfCodes rest).map (Char.ofNat (0x10000 + (u - 0xD800) * 0x400 + (v - 0xDC00)) :: ·)
      else none
    else if 0xDC00 ≤ u && u < 0xE000 then none
    else (textOfCodes (.unit v :: rest)).map (Char.ofNat u :: ·)
  | .unit u :: rest =>
    if 0xD800 ≤ u && u < 0xE000 then none else (textOfCodes rest).map (Char.ofNat u :: ·)

/-- a string after its opening quote -/
def stringBody (cs : List Char) : Option (Option String × List Char) :=
  (codes cs).map fun (cs, rest) => ((textOfCodes cs).map String.ofList, rest)

/-- at least one digit -/
def someDigits (cs : List Char) : Option (List Char × List Char) :=
  match cs.takeWhile Char.isDigit with
  | [] => none
  | ds => some (ds, cs.dropWhile Char.isDigit)

/-- digits without a leading zero -/
def wholeDigits : List Char → Option (List Char × List Char)
  | '0' :: rest => some (['0'], rest)
  | cs => someDigits cs

def fractionPart : List Char → Option (Option (List Char) × List Char)
  | '.' :: rest => (someDigits rest).map fun (ds, rest) => (some ds, rest)
  | cs => some (none, cs)

def exponentPart : List Char → Option (Option (Bool × List Char) × List Char)
  | c :: rest =>
    if c = 'e' || c = 'E' then
      match rest with
      | '-' :: rest => (someDigits rest).map fun (ds, rest) => (some (true, ds), rest)
      | '+' :: rest => (someDigits rest).map fun (ds, rest) => (some (false, ds), rest)
      | rest => (someDigits rest).map fun (ds, rest) => (some (false, ds), rest)
    else some (none, c :: rest)
  | [] => some (none, [])

def numberFrom (negative : Bool) (cs : List Char) : Option (Number × List Char) := do
  let (whole, cs) ← wholeDigits cs
  let (fraction, cs) ← fractionPart cs
  let (exponent, cs) ← exponentPart cs
  return (⟨negative, whole, fraction, exponent⟩, cs)

def numeral : List Char → Option (Number × List Char)
  | '-' :: rest => numberFrom true rest
  | cs => numberFrom false cs

/-- the three names that are values -/
def word (cs : List Char) : Option (Json × List Char) :=
  [("null".toList, Json.null), ("true".toList, .bool true), ("false".toList, .bool false)].findSome?
    fun (name, j) => (dropStart? name cs).map fun rest => (j, rest)

/-! ## Values -/

mutual
/-- a value and the text after it -/
def value : Nat → List Char → Option (Json × List Char)
  | 0, _ => none
  | steps + 1, cs =>
    match skipSpaces cs with
    | '"' :: rest => (stringBody rest).map fun (text, rest) => (.string text, rest)
    | '[' :: rest =>
      match skipSpaces rest with
      | ']' :: rest => some (.list [], rest)
      | rest => (items steps rest).map fun (js, rest) => (.list js, rest)
    | '\x7b' :: rest =>
      match skipSpaces rest with
      | '\x7d' :: rest => some (.object [], rest)
      | rest => (members steps rest).map fun (ms, rest) => (.object ms, rest)
    | c :: rest =>
      if c = '-' || c.isDigit then (numeral (c :: rest)).map fun (n, rest) => (.number n, rest)
      else word (c :: rest)
    | [] => none
/-- the items of a list, up to its closing bracket -/
def items : Nat → List Char → Option (List Json × List Char)
  | 0, _ => none
  | steps + 1, cs =>
    match value steps cs with
    | none => none
    | some (j, rest) =>
      match skipSpaces rest with
      | ',' :: rest => (items steps rest).map fun (js, rest) => (j :: js, rest)
      | ']' :: rest => some ([j], rest)
      | _ => none
/-- the members of an object, up to its closing brace -/
def members : Nat → List Char → Option (List (Option String × Json) × List Char)
  | 0, _ => none
  | steps + 1, cs =>
    match skipSpaces cs with
    | '"' :: rest =>
      match stringBody rest with
      | none => none
      | some (name, rest) =>
        match skipSpaces rest with
        | ':' :: rest =>
          match value steps rest with
          | none => none
          | some (j, rest) =>
            match skipSpaces rest with
            | ',' :: rest => (members steps rest).map fun (ms, rest) => ((name, j) :: ms, rest)
            | '\x7d' :: rest => some ([(name, j)], rest)
            | _ => none
        | _ => none
    | _ => none
end

/-- the value that a text is, blanks around it apart -/
def parse? (text : List Char) : Option Json :=
  match value (2 * text.length + 2) text with
  | some (j, rest) => if skipSpaces rest = [] then some j else none
  | none => none

/-- the value that a string is -/
def ofString? (s : String) : Option Json := parse? s.toList

end ImportHarvest.Json
