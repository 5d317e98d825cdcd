import ImportHarvest.Settings.Value
import ImportHarvest.Text.Decimal
import ImportHarvest.Text.Escape
/-!
The leaves of TOML text: blanks, comments, keys, strings, numbers, truth values and dates.

Each reader takes what it needs from the start of the text and gives the rest back, or nothing when the text does not
start that way. Dates and fractions are read in full but come out as `Value.other`, since no setting takes them.
-/

namespace ImportHarvest.Toml

open Text Settings

/-! ## Blanks -/

def isSpace (c : Char) : Bool := c = ' ' || c = '\t'

def skipSpaces (cs : List Char) : List Char := cs.dropWhile isSpace

/-- the text after a line break -/
def lineBreak? : List Char → Option (List Char)
  | '\n' :: cs => some cs
  | '\r' :: '\n' :: cs => some cs
  | _ => none

/-- the text without a comment at its start -/
def skipComment : List Char → List Char
  | '#' :: cs => cs.dropWhile isPrintable
  | cs => cs

/-- the text after the rest of a line that holds nothing more than blanks and a comment -/
def endOfLine? (cs : List Char) : Option (List Char) :=
  match skipComment (skipSpaces cs) with
  | [] => some []
  | cs => lineBreak? cs

/-- the text without the blanks, comments and line breaks at its start -/
def skipLines (steps : Nat) (cs : List Char) : List Char :=
  match steps with
  | 0 => cs
  | steps + 1 =>
    let cs := skipSpaces cs
    match lineBreak? (skipComment cs) with
    | some rest => skipLines steps rest
    | none => cs

/-- all the blanks, comments and line breaks at the start of the text left out -/
def skipFiller (cs : List Char) : List Char := skipLines cs.length cs

/-! ## Strings -/

/-- a string without escapes on one line after its opening quote -/
def literalBody : List Char → Option (List Char × List Char)
  | [] => none
  | '\'' :: cs => some ([], cs)
  | c :: cs => if isPrintable c then (literalBody cs).map fun (s, rest) => (c :: s, rest) else none

/-- how many quotes the text starts with, up to five -/
def quotes (quote : Char) (cs : List Char) : Nat := ((cs.take 5).takeWhile (· = quote)).length

/-- blanks and line breaks -/
def skipBreaks (cs : List Char) : List Char :=
  cs.dropWhile fun c => isSpace c || c = '\n' || c = '\r'

/-- the text after a backslash at the end of a line, with the blanks and line breaks there -/
def continuation? (cs : List Char) : Option (List Char) :=
  (lineBreak? (skipSpaces cs)).map skipBreaks

/-- a string over several lines after its opening quotes: three quotes end it, and up to two more in front of them
belong to it. A line break is a line feed, however it is written -/
def multiLineBody (quote : Char) (steps : Nat) (cs : List Char) : Option (List Char × List Char) :=
  match steps with
  | 0 => none
  | steps + 1 =>
    let go (s : List Char) (rest : List Char) := (multiLineBody quote steps rest).map fun (t, rest) => (s ++ t, rest)
    match cs with
    | [] => none
    | c :: rest =>
      if c = quote then
        let n := quotes quote (c :: rest)
        if n < 3 then go (List.replicate n quote) ((c :: rest).drop n)
        else some (List.replicate (n - 3) quote, (c :: rest).drop n)
      else if c = '\\' && quote = '"' then
        match continuation? rest with
        | some rest => go [] rest
        | none => match escape? rest with
          | some (e, taken) => go [e] (rest.drop taken)
          | none => none
      else match lineBreak? (c :: rest) with
        | some rest => go ['\n'] rest
        | none => if isPrintable c then go [c] rest else none

/-- a string over several lines, whose first line break does not count -/
def multiLine (quote : Char) (cs : List Char) : Option (List Char × List Char) :=
  multiLineBody quote (cs.length + 1) ((lineBreak? cs).getD cs)

/-- a string of any of the four kinds -/
def string : List Char → Option (String × List Char)
  | '"' :: '"' :: '"' :: cs => (multiLine '"' cs).map fun (s, rest) => (String.ofList s, rest)
  | '\'' :: '\'' :: '\'' :: cs => (multiLine '\'' cs).map fun (s, rest) => (String.ofList s, rest)
  | '"' :: cs => (quotedBody cs).map fun (s, rest) => (String.ofList s, rest)
  | '\'' :: cs => (literalBody cs).map fun (s, rest) => (String.ofList s, rest)
  | _ => none

/-! ## Keys -/

def isBareKey (c : Char) : Bool := c.isAlphanum || c = '_' || c = '-'

/-- one key, bare or quoted on one line -/
def simpleKey : List Char → Option (String × List Char)
  | '"' :: cs => (quotedBody cs).map fun (s, rest) => (String.ofList s, rest)
  | '\'' :: cs => (literalBody cs).map fun (s, rest) => (String.ofList s, rest)
  | cs => match cs.takeWhile isBareKey with
    | [] => none
    | key => some (String.ofList key, cs.drop key.length)

/-- keys with dots between them, and blanks around the dots -/
def dottedKey (steps : Nat) (cs : List Char) : Option (List String × List Char) :=
  match steps with
  | 0 => none
  | steps + 1 =>
    match simpleKey cs with
    | none => none
    | some (key, rest) =>
      match skipSpaces rest with
      | '.' :: rest => (dottedKey steps (skipSpaces rest)).map fun (keys, rest) => (key :: keys, rest)
      | _ => some ([key], rest)

/-- lists, inline tables and the keys of a dotted key nest less deep than this -/
def maxDepth : Nat := 80

/-- the keys at the start of a text -/
def key (cs : List Char) : Option (List String × List Char) :=
  (dottedKey (cs.length + 1) cs).filter fun (keys, _) => keys.length < maxDepth

/-! ## Numbers -/

/-- digits with single underscores between them -/
def digitRun (isDigit : Char → Bool) : List Char → Option (List Char × List Char)
  | [] => none
  | c :: cs =>
    if !isDigit c then none
    else match cs with
      | '_' :: d :: rest =>
        if isDigit d then (digitRun isDigit (d :: rest)).map fun (ds, rest) => (c :: ds, rest) else some ([c], cs)
      | d :: rest =>
        if isDigit d then (digitRun isDigit (d :: rest)).map fun (ds, rest) => (c :: ds, rest) else some ([c], cs)
      | [] => some ([c], [])

/-- a decimal number without leading zeros -/
def decimalRun : List Char → Option (List Char × List Char)
  | '0' :: cs => some (['0'], cs)
  | cs => digitRun Char.isDigit cs

/-- a whole number of 64 bits -/
def wholeValue? (n : Int) : Option Value := if isSigned64 n then some (.whole n) else none

/-- a number to a base of two, eight or sixteen after its prefix -/
def basedNumber (radix : Nat) (cs : List Char) : Option (Value × List Char) := do
  let isDigit (c : Char) : Bool := (hexValue? c).any (· < radix)
  let (ds, rest) ← digitRun isDigit cs
  return (← wholeValue? (natOfDigitsIn radix ds), rest)

/-- an exponent after its letter, and its power of ten -/
def exponentRun (cs : List Char) : Option (Int × List Char) := do
  let (negative, cs) := splitSign cs
  let (ds, rest) ← digitRun Char.isDigit cs
  return (exponentOf negative ds, rest)

/-- a number with a fraction or an exponent after its whole part; it may not be above every double -/
def fractionRun (negative : Bool) (whole : List Char) (cs : List Char) : Option (Value × List Char) := do
  let (fraction, cs) ← match cs with
    | '.' :: cs => digitRun Char.isDigit cs
    | cs => some ([], cs)
  let (e, cs) ← match cs with
    | 'e' :: cs => exponentRun cs
    | 'E' :: cs => exponentRun cs
    | cs => some (0, cs)
  if negative || roundsToFinite (whole ++ fraction) (e - fraction.length) then some (.other, cs) else none

/-- a number with an optional sign -/
def number (cs : List Char) : Option (Value × List Char) :=
  match cs with
  | '0' :: 'x' :: rest => basedNumber 16 rest
  | '0' :: 'o' :: rest => basedNumber 8 rest
  | '0' :: 'b' :: rest => basedNumber 2 rest
  | cs =>
    let (negative, unsigned) := splitSign cs
    match dropStart? "inf".toList unsigned, dropStart? "nan".toList unsigned with
    | some rest, _ => some (.other, rest)
    | _, some rest => some (.other, rest)
    | none, none => do
      let (ds, rest) ← decimalRun unsigned
      match rest with
      | '.' :: _ => fractionRun negative ds rest
      | 'e' :: _ => fractionRun negative ds rest
      | 'E' :: _ => fractionRun negative ds rest
      | _ => return (← wholeValue? (exponentOf negative ds), rest)

/-! ## Dates -/

/-- a number of exactly so many digits -/
def fixedDigits (count : Nat) (cs : List Char) : Option (Nat × List Char) :=
  (allDigits? (cs.take count)).bind fun ds =>
    if ds.length = count then some (natOfDigits ds, cs.drop count) else none

/-- the text after a character that has to be there -/
def expect? (c : Char) : List Char → Option (List Char)
  | d :: cs => if c = d then some cs else none
  | [] => none

def daysIn (year month : Nat) : Nat :=
  if month = 2 then (if year % 4 = 0 && (year % 100 ≠ 0 || year % 400 = 0) then 29 else 28)
  else if [4, 6, 9, 11].contains month then 30
  else 31

/-- a day that is in the calendar -/
def date? (cs : List Char) : Option (List Char) := do
  let (year, cs) ← fixedDigits 4 cs
  let (month, cs) ← fixedDigits 2 (← expect? '-' cs)
  let (day, cs) ← fixedDigits 2 (← expect? '-' cs)
  if 1 ≤ month && month ≤ 12 && 1 ≤ day && day ≤ daysIn year month then some cs else none

/-- a time of day, with a leap second and a fraction of seconds -/
def time? (cs : List Char) : Option (List Char) := do
  let (hour, cs) ← fixedDigits 2 cs
  let (minute, cs) ← fixedDigits 2 (← expect? ':' cs)
  let (second, cs) ← fixedDigits 2 (← expect? ':' cs)
  if !(hour ≤ 23 && minute ≤ 59 && second ≤ 60) then none
  match cs with
  | '.' :: rest => match rest.takeWhile Char.isDigit with
    | [] => none
    | ds => some (rest.drop ds.length)
  | cs => some cs

/-- the text after the distance from universal time, if it is given -/
def offset? (cs : List Char) : Option (List Char) :=
  match cs with
  | [] => some []
  | c :: rest =>
    if c = 'Z' || c = 'z' then some rest
    else if c = '+' || c = '-' then do
      let (hour, rest) ← fixedDigits 2 rest
      let (minute, rest) ← fixedDigits 2 (← expect? ':' rest)
      if hour ≤ 23 && minute ≤ 59 then some rest else none
    else some cs

/-- a date, a time, or both -/
def dateTime? (cs : List Char) : Option (List Char) :=
  match date? cs with
  | none => time? cs
  | some rest =>
    match rest with
    | c :: clock =>
      if (c = 'T' || c = 't' || c = ' ') && (fixedDigits 2 clock).isSome then (time? clock).bind offset? else some rest
    | [] => some []

/-- whether the text starts as a date or a time does -/
def looksLikeDate (cs : List Char) : Bool :=
  ((fixedDigits 4 cs).bind fun (_, rest) => expect? '-' rest).isSome
    || ((fixedDigits 2 cs).bind fun (_, rest) => expect? ':' rest).isSome

/-- a truth value -/
def truth (cs : List Char) : Option (Value × List Char) :=
  match dropStart? "true".toList cs, dropStart? "false".toList cs with
  | some rest, _ => some (.truth true, rest)
  | none, some rest => some (.truth false, rest)
  | none, none => none

/-- a value that holds no other values -/
def scalar (cs : List Char) : Option (Value × List Char) :=
  match cs with
  | [] => none
  | c :: _ =>
    if c = '"' || c = '\'' then (string cs).map fun (s, rest) => (.text s, rest)
    else if c = 't' || c = 'f' then truth cs
    else if looksLikeDate cs then (dateTime? cs).map fun rest => (.other, rest)
    else number cs

end ImportHarvest.Toml
