import ImportHarvest.Text.Escape
import ImportHarvest.Yaml.Cursor
/-!
The texts of YAML scalars: plain ones, quoted ones, and blocks of lines.

Where a plain or quoted text goes on to the next line, the blanks around the line break do not count: a single break is
a space, and of several breaks the first does not count. A block keeps its lines, or folds them in the same way unless
they start with a blank.

The readers count down from a number of steps that the length of the text bounds.
-/

namespace ImportHarvest.Yaml

open Text

/-! ## Blanks inside a text -/

/-- the blanks and breaks between two parts of a text: those of the first line, its break, and the breaks after it -/
structure Gap where
  blanks : List Char
  broken : Bool
  first : List Char
  later : List Char
  deriving Repr

def Gap.none : Gap := ⟨[], false, [], []⟩

/-- breaks as they count between two lines: a line feed first is dropped, and is a space when nothing follows -/
def foldBreaks (first later : List Char) : List Char :=
  if first = ['\n'] then (if later = [] then [' '] else later) else first ++ later

/-- what a gap counts as -/
def Gap.text (g : Gap) : List Char := if g.broken then foldBreaks g.first g.later else g.blanks

/-- takes the blanks and breaks up to the next character that is neither; no tab may stand in a new line before the
column `indent` -/
def takeGap (indent : Int) (steps : Nat) (g : Gap) (c : Cursor) : Option (Gap × Cursor) :=
  match steps with
  | 0 => none
  | steps + 1 =>
    match lineBreak? c.rest with
    | some (b, n) =>
      let g := if g.broken then { g with later := g.later ++ [b] } else ⟨[], true, [b], []⟩
      takeGap indent steps g (c.skipBreak n)
    | none =>
      match c.rest with
      | ' ' :: _ => takeGap indent steps (if g.broken then g else { g with blanks := g.blanks ++ [' '] }) (c.skip 1)
      | '\t' :: _ =>
        if g.broken && c.column < indent then none
        else takeGap indent steps (if g.broken then g else { g with blanks := g.blanks ++ ['\t'] }) (c.skip 1)
      | _ => some (g, c)

/-! ## Plain texts -/

/-- the marks that end a plain text in a flow collection -/
def isFlowMark (c : Char) : Bool := ",[]\x7b\x7d".toList.contains c

/-- a run of a plain text without blanks; in a flow collection a colon may not stand before a mark -/
def plainRun (flow : Bool) : List Char → Option (List Char)
  | [] => some []
  | c :: cs =>
    if isBlank c || isBreak c then some []
    else if flow && c = ':' && (cs.head?.any fun d => d = '?' || isFlowMark d) then none
    else if (c = ':' && atBlank cs) || (flow && isFlowMark c) then some []
    else (plainRun flow cs).map (c :: ·)

/-- a plain text from here on, after the text so far and a gap, and whether it ends behind a line break -/
def plainFrom (flow : Bool) (indent : Int) (steps : Nat) (text : List Char) (g : Gap) (c : Cursor) :
    Option (List Char × Bool × Cursor) :=
  match steps with
  | 0 => none
  | steps + 1 =>
    if c.atDocument || c.rest.head? = some '#' then some (text, g.broken, c)
    else match plainRun flow c.rest with
      | none => none
      | some run =>
        let text := if run = [] then text else text ++ g.text ++ run
        let g := if run = [] then g else .none
        let c := c.skip run.length
        if !(c.rest.head?.any fun d => isBlank d || isBreak d) then some (text, g.broken, c)
        else match takeGap indent (c.rest.length + 1) g c with
          | none => none
          | some (g, c) =>
            if !flow && c.column < indent then some (text, g.broken, c) else plainFrom flow indent steps text g c

/-- a plain text in a block of which the indentation is `indent - 1`, and whether it ends behind a line break -/
def plainText (flow : Bool) (indent : Int) (c : Cursor) : Option (List Char × Bool × Cursor) :=
  plainFrom flow indent (c.rest.length + 1) [] .none c

/-! ## Quoted texts -/

/-- what a backslash and the text after it stand for, and how much of that text belongs to it -/
def quotedEscape? : List Char → Option (Char × Nat)
  | '0' :: _ => some ('\x00', 1)
  | 'a' :: _ => some ('\x07', 1)
  | 'b' :: _ => some ('\x08', 1)
  | 't' :: _ => some ('\t', 1)
  | '\t' :: _ => some ('\t', 1)
  | 'n' :: _ => some ('\n', 1)
  | 'v' :: _ => some ('\x0b', 1)
  | 'f' :: _ => some ('\x0c', 1)
  | 'r' :: _ => some ('\r', 1)
  | 'e' :: _ => some ('\x1b', 1)
  | ' ' :: _ => some (' ', 1)
  | '"' :: _ => some ('"', 1)
  | '/' :: _ => some ('/', 1)
  | '\\' :: _ => some ('\\', 1)
  | 'N' :: _ => some ('\x85', 1)
  | '_' :: _ => some ('\xa0', 1)
  | 'L' :: _ => some ('\u2028', 1)
  | 'P' :: _ => some ('\u2029', 1)
  | 'x' :: cs => (codePoint? 2 cs).map fun c => (c, 3)
  | 'u' :: cs => (codePoint? 4 cs).map fun c => (c, 5)
  | 'U' :: cs => (codePoint? 8 cs).map fun c => (c, 9)
  | _ => none

/-- a quoted text from here on; a line in it may not start a document -/
def quotedFrom (quote : Char) (steps : Nat) (c : Cursor) : Option (List Char × Cursor) :=
  match steps with
  | 0 => none
  | steps + 1 =>
    let after (start : List Char) (c : Cursor) := (quotedFrom quote steps c).map fun (text, c) => (start ++ text, c)
    let afterGap (g : Gap) (c : Cursor) := match takeGap 0 (c.rest.length + 1) g c with
      | some (g, c) => if c.atDocument then none else after g.text c
      | none => none
    match c.rest with
    | [] => none
    | d :: cs =>
      if isBlank d || isBreak d then afterGap .none c
      else if d = quote then
        if quote = '\'' && cs.head? = some '\'' then after ['\''] (c.skip 2) else some ([], c.skip 1)
      else if quote = '"' && d = '\\' then
        match lineBreak? cs with
        | some (_, n) => afterGap ⟨[], true, [], []⟩ ((c.skip 1).skipBreak n)
        | none => match quotedEscape? cs with
          | some (e, n) => after [e] (c.skip (n + 1))
          | none => none
      else after [d] (c.skip 1)

/-- a quoted text behind its opening quote -/
def quotedText (quote : Char) (c : Cursor) : Option (List Char × Cursor) := quotedFrom quote (c.rest.length + 1) c

/-! ## Blocks -/

/-- what becomes of the line breaks at the end of a block -/
inductive Chomping where
  | strip
  | clip
  | keep
  deriving DecidableEq, Repr

def chomping? : List Char → Option (Chomping × List Char)
  | '-' :: cs => some (.strip, cs)
  | '+' :: cs => some (.keep, cs)
  | _ => none

/-- how far the lines of a block are indented, as a digit from 1 on -/
def indentation? : List Char → Option (Nat × List Char)
  | c :: cs => if c.isDigit then some (c.toNat - 48, cs) else none
  | [] => none

/-- the indicators of a block in either order, up to the end of their line; no indentation is 0 -/
def blockHeader (cs : List Char) : Option (Chomping × Nat × List Char) :=
  let (chomping, increment, rest) := match chomping? cs with
    | some (k, cs) => match indentation? cs with
      | some (n, cs) => (k, some n, cs)
      | none => (k, none, cs)
    | none => match indentation? cs with
      | some (n, cs) => match chomping? cs with
        | some (k, cs) => (k, some n, cs)
        | none => (.clip, some n, cs)
      | none => (.clip, none, cs)
  let rest := skipComment rest
  if increment = some 0 || !atBreak rest then none else some (chomping, increment.getD 0, rest)

/-- takes empty lines and the indentation of the next line; while `indent` is 0 all spaces are indentation, and the
deepest column is noted -/
def blockBreaks (indent steps deepest : Nat) (breaks : List Char) (c : Cursor) : Option (Nat × List Char × Cursor) :=
  match steps with
  | 0 => none
  | steps + 1 =>
    let spaces := c.rest.takeWhile (· = ' ')
    let c := c.skip (if indent = 0 then spaces.length else min spaces.length (indent - c.column))
    let deepest := max deepest c.column
    if (indent = 0 || c.column < indent) && c.rest.head? = some '\t' then none
    else match lineBreak? c.rest with
      | some (b, n) => blockBreaks indent steps deepest (breaks ++ [b]) (c.skipBreak n)
      | none => some (deepest, breaks, c)

/-- how the lines of a block hang together -/
structure BlockLines where
  text : List Char
  /-- the break behind the last line -/
  last : List Char
  /-- the breaks of the empty lines after it -/
  empty : List Char
  /-- whether the last line starts with a blank -/
  blankStart : Bool

/-- the lines of a block with this indentation, each joined to those before -/
def blockLines (literal : Bool) (indent steps : Nat) (b : BlockLines) (c : Cursor) : Option (BlockLines × Cursor) :=
  match steps with
  | 0 => none
  | steps + 1 =>
    if c.column ≠ indent || c.rest = [] then some (b, c)
    else
      let blankStart := c.rest.head?.any isBlank
      let joint :=
        if !literal && b.last = ['\n'] && !b.blankStart && !blankStart then foldBreaks b.last b.empty
        else b.last ++ b.empty
      let content := c.rest.takeWhile fun d => !isBreak d
      let c := c.skip content.length
      let last := match lineBreak? c.rest with
        | some (d, _) => [d]
        | none => []
      match blockBreaks indent (c.rest.length + 1) 0 [] c.nextLine with
      | none => none
      | some (_, empty, c) =>
        blockLines literal indent steps ⟨b.text ++ joint ++ content, last, empty, blankStart⟩ c

/-- a block behind its indicator, in a block of which the indentation is `outer` -/
def blockText (literal : Bool) (outer : Int) (c : Cursor) : Option (List Char × Cursor) := do
  let (chomping, increment, rest) ← blockHeader c.rest
  let c := (c.goTo rest).nextLine
  let given := if increment = 0 then 0 else (max outer 0).toNat + increment
  let (deepest, breaks, c) ← blockBreaks given (c.rest.length + 1) 0 [] c
  let indent := if given = 0 then max (max deepest (outer + 1).toNat) 1 else given
  let (b, c) ← blockLines literal indent (c.rest.length + 1) ⟨[], [], breaks, false⟩ c
  let tail := match chomping with
    | .strip => []
    | .clip => b.last
    | .keep => b.last ++ b.empty
  return (b.text ++ tail, c)

end ImportHarvest.Yaml
