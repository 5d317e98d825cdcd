import ImportHarvest.Text.Escape
import ImportHarvest.Yaml.Cursor
/-!
The tokens of a YAML stream, and the readers of those that lie on one line: directives, anchors, aliases and tags.

Each reader starts behind the character that announces the token, and gives the token and the text after it.
-/

namespace ImportHarvest.Yaml

open Text

/-- the pieces that a stream is made of -/
inductive Token where
  | version (major minor : Nat)
  | tagHandle (handle start : String)
  | documentStart
  | documentEnd
  | blockSequence
  | blockMapping
  | blockEnd
  | flowSequence
  | flowSequenceEnd
  | flowMapping
  | flowMappingEnd
  | flowEntry
  | entry
  | key
  | value
  | alias (name : String)
  | anchor (name : String)
  | tag (handle suffix : String)
  | scalar (plain : Bool) (text : String)
  | streamEnd
  deriving DecidableEq, Repr, Inhabited

/-! ## Anchors -/

/-- the name of an anchor or of an alias -/
def anchorName (cs : List Char) : Option (String × List Char) :=
  match cs.takeWhile isNameChar with
  | [] => none
  | name =>
    let rest := cs.drop name.length
    if atBlank rest || (rest.head?.any fun c => "?:,]\x7d%@`".toList.contains c) then some (String.ofList name, rest)
    else none

/-! ## Tags -/

/-- a handle after its exclamation mark: a name between two of them, or what there is of it -/
def handle (cs : List Char) : List Char × List Char :=
  let name := cs.takeWhile isNameChar
  match cs.drop name.length with
  | '!' :: rest => ('!' :: name ++ ['!'], rest)
  | rest => ('!' :: name, rest)

/-- an octet written as a percent sign and two digits -/
def escapedOctet? : List Char → Option Nat
  | '%' :: a :: b :: _ => do return (← hexValue? a) * 16 + (← hexValue? b)
  | _ => none

/-- how many octets a character has that starts with this one -/
def sequenceLength? (octet : Nat) : Option Nat :=
  if octet < 0x80 then some 1
  else if 0xC0 ≤ octet && octet < 0xE0 then some 2
  else if 0xE0 ≤ octet && octet < 0xF0 then some 3
  else if 0xF0 ≤ octet && octet < 0xF8 then some 4
  else none

/-- how many characters the escapes of one character take, and its code -/
def escapedCharacter? (cs : List Char) : Option (Nat × Nat) := do
  let first ← escapedOctet? cs
  let count ← sequenceLength? first
  let tails ← ((List.range count).drop 1).mapM fun i => (escapedOctet? (cs.drop (3 * i))).filter fun o => o / 64 = 2
  let start := if count = 1 then first else first % Nat.pow 2 (7 - count)
  return (3 * count, tails.foldl (fun n o => n * 64 + o % 64) start)

/-- a character of a tag; commas and brackets belong to one only between angle brackets -/
def isTagChar (verbatim : Bool) (c : Char) : Bool :=
  isNameChar c || ";/?:@&=+$.!~*'()%".toList.contains c || (verbatim && ",[]".toList.contains c)

/-- the characters of a tag -/
def tagRun (verbatim : Bool) : List Char → Option (List Char × List Char)
  | [] => some ([], [])
  | '%' :: cs =>
    match escapedCharacter? ('%' :: cs) with
    | none => none
    | some (count, code) => (tagRun verbatim (cs.drop (count - 1))).map fun (s, rest) => (Char.ofNat code :: s, rest)
  | c :: cs =>
    if isTagChar verbatim c then (tagRun verbatim cs).map fun (s, rest) => (c :: s, rest) else some ([], c :: cs)
termination_by cs => cs.length
decreasing_by all_goals simp only [List.length_drop, List.length_cons]; omega

/-- the characters of a tag that is not empty -/
def tagText (verbatim : Bool) (cs : List Char) : Option (List Char × List Char) :=
  (tagRun verbatim cs).filter fun (s, _) => s ≠ []

/-- a tag after its exclamation mark, as a handle and what is added to what the handle stands for -/
def tagParts (cs : List Char) : Option (List Char × List Char × List Char) :=
  match cs with
  | '<' :: cs => do
    let (text, rest) ← tagText true cs
    match rest with
    | '>' :: rest => some ([], text, rest)
    | _ => none
  | cs =>
    let (h, rest) := handle cs
    if 1 < h.length && h.getLast? = some '!' then (tagText false rest).map fun (s, rest) => (h, s, rest)
    else (tagRun false rest).map fun (s, rest) =>
      match h.drop 1 ++ s with
      | [] => ([], ['!'], rest)
      | s => (['!'], s, rest)

/-- a tag after its exclamation mark -/
def tag (flow : Bool) (cs : List Char) : Option (Token × List Char) := do
  let (handle, suffix, rest) ← tagParts cs
  if atBlank rest || (flow && rest.head? = some ',') then
    some (.tag (String.ofList handle) (String.ofList suffix), rest)
  else none

/-! ## Directives -/

/-- a part of a version: at most nine digits -/
def versionPart (cs : List Char) : Option (Nat × List Char) :=
  match cs.takeWhile Char.isDigit with
  | [] => none
  | ds => if ds.length ≤ 9 then some (natOfDigitsIn 10 ds, cs.drop ds.length) else none

/-- the version that a stream is written in -/
def version (cs : List Char) : Option (Token × List Char) := do
  let (major, rest) ← versionPart (cs.dropWhile isBlank)
  match rest with
  | '.' :: rest =>
    let (minor, rest) ← versionPart rest
    return (.version major minor, rest)
  | _ => none

/-- a handle and what it stands for -/
def tagDirective (cs : List Char) : Option (Token × List Char) := do
  match cs.dropWhile isBlank with
  | '!' :: cs =>
    let (h, rest) := handle cs
    if h.length ≠ 1 && h.getLast? ≠ some '!' then none
    if !rest.head?.any isBlank then none
    let (start, rest) ← tagText true (rest.dropWhile isBlank)
    if atBlank rest then some (.tagHandle (String.ofList h) (String.ofList start), rest) else none
  | _ => none

/-- a directive after its percent sign, up to the end of its line -/
def directive (cs : List Char) : Option (Token × List Char) := do
  let name := cs.takeWhile isNameChar
  let rest := cs.drop name.length
  if !atBlank rest then none
  let (token, rest) ← if name = "YAML".toList then version rest
    else if name = "TAG".toList then tagDirective rest
    else none
  let rest := skipComment rest
  if atBreak rest then some (token, rest) else none

end ImportHarvest.Yaml
