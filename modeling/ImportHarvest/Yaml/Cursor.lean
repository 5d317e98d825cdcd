import ImportHarvest.Text.Pieces
/-!
A place in a YAML text: what is still to be read, and how far the place is from the start of the text and of its line.

Text that may not stand in a YAML stream at all is sorted out first; `isAllowed` says which characters may.
-/

namespace ImportHarvest.Yaml

open Text

/-! ## Characters -/

/-- the characters that a stream may hold -/
def isAllowed (c : Char) : Bool :=
  let n := c.toNat
  n = 9 || n = 0xA || n = 0xD || (0x20 ≤ n && n ≤ 0x7E) || n = 0x85 || (0xA0 ≤ n && n ≤ 0xD7FF)
    || (0xE000 ≤ n && n ≤ 0xFFFD) || 0x10000 ≤ n

def isBlank (c : Char) : Bool := c = ' ' || c = '\t'

/-- the characters that end a line -/
def isBreak (c : Char) : Bool := c = '\n' || c = '\r' || c = '\x85' || c = '\u2028' || c = '\u2029'

/-- a character of a name -/
def isNameChar (c : Char) : Bool := c.isAlphanum || c = '_' || c = '-'

/-- whether a blank, the end of the line or the end of the text comes next -/
def atBlank : List Char → Bool
  | [] => true
  | c :: _ => isBlank c || isBreak c

/-- whether the end of the line or of the text comes next -/
def atBreak : List Char → Bool
  | [] => true
  | c :: _ => isBreak c

/-- the line break that comes next: the character it counts as, and how many characters it has -/
def lineBreak? : List Char → Option (Char × Nat)
  | '\r' :: '\n' :: _ => some ('\n', 2)
  | c :: _ =>
    if c = '\u2028' || c = '\u2029' then some (c, 1)
    else if isBreak c then some ('\n', 1)
    else none
  | [] => none

/-- the text without blanks and a comment at its start -/
def skipComment (cs : List Char) : List Char :=
  match cs.dropWhile isBlank with
  | '#' :: rest => rest.dropWhile fun c => !isBreak c
  | cs => cs

/-! ## Places -/

/-- a place in a text -/
structure Cursor where
  rest : List Char
  index : Nat
  line : Nat
  column : Nat
  deriving Repr, Inhabited

namespace Cursor

/-- the first place of a text -/
def start (cs : List Char) : Cursor := ⟨cs, 0, 0, 0⟩

/-- so many characters further on the same line -/
def skip (n : Nat) (c : Cursor) : Cursor :=
  { c with rest := c.rest.drop n, index := c.index + n, column := c.column + n }

/-- at a later rest of the same line -/
def goTo (rest : List Char) (c : Cursor) : Cursor := c.skip (c.rest.length - rest.length)

/-- after a line break of so many characters -/
def skipBreak (n : Nat) (c : Cursor) : Cursor := ⟨c.rest.drop n, c.index + n, c.line + 1, 0⟩

/-- after the line break that comes next, if one does -/
def nextLine (c : Cursor) : Cursor :=
  match lineBreak? c.rest with
  | some (_, n) => c.skipBreak n
  | none => c

/-- whether a line starts here with three such characters and nothing more -/
def atMarker (mark : List Char) (c : Cursor) : Bool :=
  c.column = 0 && (dropStart? mark c.rest).any atBlank

/-- whether a document starts or ends here -/
def atDocument (c : Cursor) : Bool := c.atMarker "---".toList || c.atMarker "...".toList

end Cursor

end ImportHarvest.Yaml
