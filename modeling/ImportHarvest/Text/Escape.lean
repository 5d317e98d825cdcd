/-!
Escapes in quoted text: hexadecimal digits, the code points they name, and what a backslash stands for in text between
double quotes on one line.

`quotedBody` reads such a text up to its closing quote. A control character other than the tab has to be escaped.
-/

namespace ImportHarvest.Text

/-- the value of a hexadecimal digit -/
def hexValue? (c : Char) : Option Nat :=
  if '0' ≤ c && c ≤ '9' then some (c.toNat - 48)
  else if 'a' ≤ c && c ≤ 'f' then some (c.toNat - 87)
  else if 'A' ≤ c && c ≤ 'F' then some (c.toNat - 55)
  else none

/-- the number that digits are to a base -/
def natOfDigitsIn (radix : Nat) (ds : List Char) : Nat := ds.foldl (fun n d => n * radix + (hexValue? d).getD 0) 0

/-- the character of a code point, unless it is a surrogate or too large -/
def charOf? (n : Nat) : Option Char := if n.isValidChar then some (Char.ofNat n) else none

/-- the character that so many hexadecimal digits name -/
def codePoint? (count : Nat) (cs : List Char) : Option Char :=
  let ds := cs.take count
  if ds.length = count && ds.all fun c => (hexValue? c).isSome then charOf? (natOfDigitsIn 16 ds) else none

/-- a character that may stand in quoted text as it is -/
def isPrintable (c : Char) : Bool := c = '\t' || (0x20 ≤ c.toNat && c.toNat ≠ 0x7F)

/-- what a backslash and the text after it stand for, and how much of that text belongs to it -/
def escape? : List Char → Option (Char × Nat)
  | 'b' :: _ => some ('\x08', 1)
  | 't' :: _ => some ('\t', 1)
  | 'n' :: _ => some ('\n', 1)
  | 'f' :: _ => some ('\x0c', 1)
  | 'r' :: _ => some ('\r', 1)
  | '"' :: _ => some ('"', 1)
  | '\\' :: _ => some ('\\', 1)
  | 'u' :: cs => (codePoint? 4 cs).map fun c => (c, 5)
  | 'U' :: cs => (codePoint? 8 cs).map fun c => (c, 9)
  | _ => none

/-- a text after its opening double quote, and what follows its closing one -/
def quotedBody : List Char → Option (List Char × List Char)
  | [] => none
  | '"' :: cs => some ([], cs)
  | '\\' :: cs =>
    match escape? cs with
    | none => none
    | some (c, taken) => (quotedBody (cs.drop taken)).map fun (s, rest) => (c :: s, rest)
  | c :: cs => if isPrintable c then (quotedBody cs).map fun (s, rest) => (c :: s, rest) else none
termination_by cs => cs.length
decreasing_by all_goals simp only [List.length_drop, List.length_cons]; omega

end ImportHarvest.Text
