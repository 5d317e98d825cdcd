import ImportHarvest.Yaml.Folded
import ImportHarvest.Yaml.Token
/-!
The tokens of a YAML text, with those that its layout stands for.

Indentation opens and closes blocks. What stands before a colon on one line is a key even though nothing announces it:
whatever may turn out to be a key is remembered with its place among the tokens, and when the colon comes, the token
that announces a key is put there, and with it the one that opens a block, if the key is indented further than the block
it stands in. A key has to end on its line, within 1024 characters.
-/

namespace ImportHarvest.Yaml

open Text

/-- what may turn out to be a key: how many tokens are in front of it, whether it has to be one, and where it starts -/
structure KeyMark where
  number : Nat
  required : Bool
  index : Nat
  line : Nat
  column : Nat
  deriving DecidableEq, Repr

/-- how far the tokens are read -/
structure Layout where
  cursor : Cursor
  /-- the tokens so far, the last in front -/
  tokens : List Token
  /-- what may be a key outside flow collections and in each of those that are open, the innermost in front -/
  marks : List (Option KeyMark)
  /-- whether a key may start here -/
  keyAllowed : Bool
  /-- the column of the innermost block, -1 outside all blocks -/
  indent : Int
  /-- the columns of the blocks around it, the innermost in front -/
  outer : List Int
  deriving Repr

namespace Layout

/-- nothing read yet -/
def start (cs : List Char) : Layout := ⟨.start cs, [], [none], true, -1, []⟩

/-- whether a flow collection is open -/
def inFlow (l : Layout) : Bool := 1 < l.marks.length

def push (t : Token) (l : Layout) : Layout := { l with tokens := t :: l.tokens }

def moveTo (c : Cursor) (l : Layout) : Layout := { l with cursor := c }

def allowKey (allowed : Bool) (l : Layout) : Layout := { l with keyAllowed := allowed }

/-- the tokens with one put in behind the first `number` -/
def insert (number : Nat) (t : Token) (l : Layout) : Layout :=
  { l with tokens := l.tokens.insertIdx (l.tokens.length - number) t }

/-! ## Keys -/

/-- forgets what may be a key; it fails when that has to be one -/
def dropMark (l : Layout) : Option Layout :=
  match l.marks with
  | some m :: rest => if m.required then none else some { l with marks := none :: rest }
  | _ => some l

/-- remembers that what comes next may be a key -/
def setMark (l : Layout) : Option Layout :=
  if !l.keyAllowed then some l
  else
    let c := l.cursor
    let m : KeyMark := ⟨l.tokens.length, !l.inFlow && l.indent = c.column, c.index, c.line, c.column⟩
    l.dropMark.map fun l => { l with marks := some m :: l.marks.drop 1 }

/-- whether a key that starts there can still go on here -/
def isCurrent (c : Cursor) (m : KeyMark) : Bool := m.line = c.line && c.index ≤ m.index + 1024

/-- forgets all that cannot be keys any more; it fails when one of them has to be one -/
def dropStale (l : Layout) : Option Layout :=
  if l.marks.any fun m => m.any fun m => m.required && !isCurrent l.cursor m then none
  else some { l with marks := l.marks.map fun m => m.filter (isCurrent l.cursor) }

/-! ## Indentation -/

/-- opens a block at a column that is further in, behind the first `number` tokens -/
def indentTo (column number : Nat) (opening : Token) (l : Layout) : Layout :=
  if l.inFlow || l.indent ≥ column then l
  else { l.insert number opening with indent := column, outer := l.indent :: l.outer }

/-- closes the blocks that are further in than a column -/
def closeTo (column : Int) : List Int → Layout → Layout
  | [], l => l
  | indent :: outer, l =>
    if l.indent ≤ column then l else closeTo column outer { l.push .blockEnd with indent := indent, outer := outer }

/-- closes the blocks that end at a column; none ends inside a flow collection -/
def unindent (column : Int) (l : Layout) : Layout := if l.inFlow then l else closeTo column l.outer l

/-! ## Tokens -/

/-- a token of so many characters -/
def mark (length : Nat) (t : Token) (l : Layout) : Layout := (l.push t).moveTo (l.cursor.skip length)

/-- a token that stands outside all blocks -/
def topLevel (l : Layout) : Option Layout := ((l.unindent (-1)).dropMark).map (allowKey false)

/-- the start of a flow collection -/
def openFlow (t : Token) (l : Layout) : Option Layout :=
  l.setMark.map fun l => (({ l with marks := none :: l.marks }).allowKey true).mark 1 t

/-- the end of a flow collection -/
def closeFlow (t : Token) (l : Layout) : Option Layout :=
  l.dropMark.map fun l =>
    (({ l with marks := if l.inFlow then l.marks.drop 1 else l.marks }).allowKey false).mark 1 t

/-- the start of an entry in a block -/
def entry (l : Layout) : Option Layout :=
  if !l.inFlow && !l.keyAllowed then none
  else (l.indentTo l.cursor.column l.tokens.length .blockSequence).dropMark.map fun l => (l.allowKey true).mark 1 .entry

/-- an announced key -/
def key (l : Layout) : Option Layout :=
  if !l.inFlow && !l.keyAllowed then none
  else (l.indentTo l.cursor.column l.tokens.length .blockMapping).dropMark.map fun l =>
    (l.allowKey (!l.inFlow)).mark 1 .key

/-- a colon: the value of the key in front of it, if there is one -/
def value (l : Layout) : Option Layout :=
  match l.marks with
  | some m :: rest =>
    let l := (l.insert m.number .key).indentTo m.column m.number .blockMapping
    some ((({ l with marks := none :: rest }).allowKey false).mark 1 .value)
  | _ =>
    if !l.inFlow && !l.keyAllowed then none
    else some (((l.indentTo l.cursor.column l.tokens.length .blockMapping).allowKey (!l.inFlow)).mark 1 .value)

/-- a token on one line that may belong to a key, read behind its first character -/
def inLine (read : List Char → Option (Token × List Char)) (l : Layout) : Option Layout := do
  let l ← l.setMark
  let (t, rest) ← read (l.cursor.rest.drop 1)
  return ((l.allowKey false).push t).moveTo (l.cursor.goTo rest)

/-- a quoted text -/
def quoted (quote : Char) (l : Layout) : Option Layout := do
  let l ← l.setMark
  let (text, c) ← quotedText quote (l.cursor.skip 1)
  return ((l.allowKey false).push (.scalar false (String.ofList text))).moveTo c

/-- a plain text; a key may follow it when it ends behind a line break -/
def plain (l : Layout) : Option Layout := do
  let l ← l.setMark
  let (text, broken, c) ← plainText l.inFlow (l.indent + 1) l.cursor
  return ((l.allowKey broken).push (.scalar true (String.ofList text))).moveTo c

/-- a block of lines -/
def block (literal : Bool) (l : Layout) : Option Layout := do
  let l ← l.dropMark
  let (text, c) ← blockText literal l.indent (l.cursor.skip 1)
  return ((l.allowKey true).push (.scalar false (String.ofList text))).moveTo c

/-- whether a plain text may start like this -/
def startsPlain (flow : Bool) (c : Char) (cs : List Char) : Bool :=
  !(isBlank c || isBreak c || "-?:,[]\x7b\x7d#&*!|>'\"%@`".toList.contains c)
    || (c = '-' && !cs.head?.any isBlank) || (!flow && (c = '?' || c = ':') && !atBlank cs)

/-- the next token, behind all blanks -/
def token (l : Layout) : Option Layout :=
  match l.cursor.rest with
  | [] => l.topLevel.map (push .streamEnd)
  | c :: cs =>
    let flow := l.inFlow
    if l.cursor.column = 0 && c = '%' then do
      let l ← l.topLevel
      let (t, rest) ← directive cs
      return (l.push t).moveTo (l.cursor.goTo rest).nextLine
    else if l.cursor.atMarker "---".toList then l.topLevel.map (mark 3 .documentStart)
    else if l.cursor.atMarker "...".toList then l.topLevel.map (mark 3 .documentEnd)
    else if c = '[' then l.openFlow .flowSequence
    else if c = '\x7b' then l.openFlow .flowMapping
    else if c = ']' then l.closeFlow .flowSequenceEnd
    else if c = '\x7d' then l.closeFlow .flowMappingEnd
    else if c = ',' then l.dropMark.map fun l => (l.allowKey true).mark 1 .flowEntry
    else if c = '-' && atBlank cs then l.entry
    else if c = '?' && (flow || atBlank cs) then l.key
    else if c = ':' && (flow || atBlank cs) then l.value
    else if c = '*' then l.inLine fun cs => (anchorName cs).map fun (name, rest) => (.alias name, rest)
    else if c = '&' then l.inLine fun cs => (anchorName cs).map fun (name, rest) => (.anchor name, rest)
    else if c = '!' then l.inLine (tag flow)
    else if c = '|' && !flow then l.block true
    else if c = '>' && !flow then l.block false
    else if c = '\'' || c = '"' then l.quoted c
    else if startsPlain flow c cs then l.plain
    else none

/-! ## Streams -/

/-- the place without the blanks, comments and line breaks in front of a token. A tab is a blank only where no key may
start or inside a flow collection, and outside those a key may start on a new line -/
def skipFiller (steps : Nat) (l : Layout) : Layout :=
  match steps with
  | 0 => l
  | steps + 1 =>
    let c := if l.cursor.column = 0 && l.cursor.rest.head? = some '\uFEFF' then l.cursor.skip 1 else l.cursor
    let blanks := c.rest.takeWhile fun d => d = ' ' || (d = '\t' && (l.inFlow || !l.keyAllowed))
    let c := c.skip blanks.length
    let comment := if c.rest.head? = some '#' then c.rest.takeWhile fun d => !isBreak d else []
    let c := c.skip comment.length
    match lineBreak? c.rest with
    | some (_, n) => skipFiller steps { l with cursor := c.skipBreak n, keyAllowed := !l.inFlow || l.keyAllowed }
    | none => l.moveTo c

/-- one token more, with the ends of the blocks in front of it -/
def step (l : Layout) : Option Layout := do
  let l ← (l.skipFiller (l.cursor.rest.length + 1)).dropStale
  (l.unindent l.cursor.column).token

/-- reads up to the end of the text -/
def readAll : Nat → Layout → Option Layout
  | 0, _ => none
  | steps + 1, l =>
    match l.step with
    | none => none
    | some l => if l.tokens.head? = some .streamEnd then some l else readAll steps l

end Layout

/-- the tokens of a text; a byte order mark may stand in front -/
def tokens? (text : List Char) : Option (List Token) :=
  let text := match text with
    | '\uFEFF' :: cs => cs
    | cs => cs
  if text.all isAllowed then (Layout.readAll (text.length + 2) (.start text)).map fun l => l.tokens.reverse else none

end ImportHarvest.Yaml
