import ImportHarvest.Text.Pieces
import ImportHarvest.Text.Utf8
/-!
Glob patterns and the paths they match.

A pattern is a list of tokens and a path a run of octets; the pattern matches when its tokens, one after the other, take
up the whole path. `?` and a class take one octet, so a character beyond ASCII takes several. No token stops at a slash
except the ones for `**`. A token can take up a path in several ways: `rests` lists what each of them leaves.
-/

namespace ImportHarvest

open Text

/-- one piece of a pattern -/
inductive Glob.Token where
  /-- the character itself -/
  | literal (c : Char)
  /-- any octet -/
  | any
  /-- any octets, also none -/
  | anyRun
  /-- directories at the start: nothing, or anything up to a slash -/
  | leading
  /-- whatever is below: a slash and anything -/
  | beneath
  /-- directories in between: one slash, or anything between two -/
  | between
  /-- one octet that the ranges hold, or that they do not -/
  | class (negated : Bool) (ranges : List (Char × Char))
  /-- one of the branches -/
  | alternates (branches : List (List Glob.Token))
  deriving Repr, Inhabited

/-- a pattern -/
structure Glob where
  tokens : List Glob.Token
  deriving Repr, Inhabited

namespace Glob

def slash : UInt8 := 0x2F

/-- every text that is left after taking some octets, also none -/
def suffixes : Octets → List Octets
  | [] => [[]]
  | b :: bs => (b :: bs) :: suffixes bs

/-- what is left after taking a slash, or anything that ends in a slash -/
def afterSlashes (bs : Octets) : List Octets := (suffixes bs).filterMap fun
  | b :: rest => if b = slash then some rest else none
  | [] => none

/-- what is left after taking one slash -/
def afterSlash : Octets → List Octets
  | b :: rest => if b = slash then [rest] else []
  | [] => []

/-- the octets that a range of characters stands for: the ends are ranges of octets of their own when they have more
than one, since only the last octet of the low end and the first of the high end face each other -/
def octetRanges : Char × Char → List (UInt8 × UInt8)
  | (low, high) =>
    if low = high then (String.utf8EncodeChar low).map fun b => (b, b)
    else
      let lows := String.utf8EncodeChar low
      let highs := String.utf8EncodeChar high
      (lows.dropLast.map fun b => (b, b)) ++ [(lows.getLastD 0, highs.headD 0)] ++ (highs.drop 1).map fun b => (b, b)

/-- whether a class holds an octet -/
def classHolds (negated : Bool) (ranges : List (Char × Char)) (b : UInt8) : Bool :=
  negated != (ranges.flatMap octetRanges).any fun (low, high) => low ≤ b && b ≤ high

mutual
/-- what is left of a path after a token took a start of it, in every way it can -/
def Token.rests : Token → Octets → List Octets
  | .literal c, bs => (dropStart? (String.utf8EncodeChar c) bs).toList
  | .any, bs => match bs with | _ :: rest => [rest] | [] => []
  | .anyRun, bs => suffixes bs
  | .leading, bs => (bs :: afterSlashes bs)
  | .beneath, bs => (afterSlash bs).flatMap suffixes
  | .between, bs => afterSlash bs ++ (afterSlash bs).flatMap afterSlashes
  | .class negated ranges, bs =>
    match bs with
    | b :: rest => if classHolds negated ranges b then [rest] else []
    | [] => []
  | .alternates branches, bs => if branches.isEmpty then [bs] else restsOfAny branches bs
/-- what is left of any of some texts after all the tokens of a list -/
def restsOfAll : List Token → List Octets → List Octets
  | [], texts => texts
  | t :: ts, texts => restsOfAll ts (texts.flatMap t.rests).eraseDups
/-- what is left after the tokens of one of the branches -/
def restsOfAny : List (List Token) → Octets → List Octets
  | [], _ => []
  | b :: rest, bs => restsOfAll b [bs] ++ restsOfAny rest bs
end

/-! ## Deciding by the file name

A path that ends in a dot has no file name and no extension. A pattern that ends in a dot after something that is not
literal is looked up by one of the two, so it matches nothing; a pattern that is literal, but for stars and directories
in front, is compared with the path itself.
-/

def Token.isLiteral : Token → Bool
  | .literal _ => true
  | _ => false

/-- literal text that has no slash -/
def isPlainName (ts : List Token) : Bool := ts.all fun
  | .literal c => c ≠ '/'
  | _ => false

/-- the literal text at the end of a pattern of the form `**/` text, `*` text or `**/*` text -/
def literalTail? : List Token → Option (List Token)
  | .leading :: .anyRun :: ts => if ts.all Token.isLiteral then some ts else none
  | .anyRun :: ts => if ts.all Token.isLiteral then some ts else none
  | .leading :: ts => if ts.all Token.isLiteral && !isPlainName ts then some ts else none
  | _ => none

/-- whether the pattern ends in a dot that is looked up in the file name -/
def endsInNameDot (ts : List Token) : Bool :=
  match ts.getLast? with
  | some (.literal '.') =>
    !ts.all Token.isLiteral && match literalTail? ts with
      | some tail => tail.length == 1 && !(ts.length == 2 && ts.head?.any fun | .leading => true | _ => false)
      | none => true
  | _ => false

/-- whether the pattern matches a path -/
def isMatch (g : Glob) (path : Octets) : Bool :=
  match g.tokens with
  | [.leading] => true
  | ts => !endsInNameDot ts && (restsOfAll ts [path]).contains []

end Glob

end ImportHarvest
