/-!
Decimal numbers: the digits of a number, the number that digits are, the literals that name a floating-point number,
and whether the number they name rounds to a finite double.

The last is decided exactly, from the digits and the power of ten of the last one.
-/

namespace ImportHarvest.Text

/-- the decimal digits of a number, most significant first, without leading zeros -/
def digits (n : Nat) : List Char := Nat.toDigits 10 n

/-- the number in decimal -/
def decimal (n : Nat) : String := String.ofList (digits n)

/-- the value of decimal digits -/
def natOfDigits (ds : List Char) : Nat := ds.foldl (fun n d => n * 10 + (d.toNat - 48)) 0

/-- the digits of a number have its value -/
theorem natOfDigits_digits (n : Nat) : natOfDigits (digits n) = n := by
  have hzero : '0'.toNat = 48 := rfl
  have h := Nat.ofDigitChars_toDigits (b := 10) (n := n) (by decide) (by decide)
  rw [Nat.ofDigitChars_eq_foldl, hzero] at h
  rw [natOfDigits, digits]
  simpa only [Nat.mul_comm 10] using h

/-- the least magnitude that rounds to no finite double: halfway from the largest one to 2 ^ 1024 -/
def firstTooLarge : Nat := Nat.pow 2 1024 - Nat.pow 2 970

/-- whether digits, the last of which counts 10 ^ `scale`, round to a finite double -/
def roundsToFinite (digits : List Char) (scale : Int) : Bool :=
  let ds := digits.dropWhile (· = '0')
  let top : Int := ds.length + scale
  if ds = [] || top < 300 then true
  else if top > 400 then false
  else if scale < 0 then natOfDigits ds < firstTooLarge * Nat.pow 10 scale.natAbs
  else natOfDigits ds * Nat.pow 10 scale.natAbs < firstTooLarge

/-- the power of ten that an exponent's digits give, with its sign -/
def exponentOf (negative : Bool) (ds : List Char) : Int :=
  if negative then -(natOfDigits ds : Int) else natOfDigits ds

/-! ## Literals -/

/-- what a floating-point literal names -/
inductive FloatLiteral where
  /-- an infinity, or no number -/
  | special
  /-- digits, and the power of ten of the last one -/
  | decimal (digits : List Char) (scale : Int)
  deriving DecidableEq, Repr

/-- whether the literal rounds to a finite double -/
def FloatLiteral.isFinite : FloatLiteral → Bool
  | special => false
  | decimal digits scale => roundsToFinite digits scale

/-- digits and nothing else, but at least one -/
def allDigits? (cs : List Char) : Option (List Char) := if cs ≠ [] && cs.all Char.isDigit then some cs else none

/-- a sign, if there is one, and what follows -/
def splitSign : List Char → Bool × List Char
  | '-' :: cs => (true, cs)
  | '+' :: cs => (false, cs)
  | cs => (false, cs)

/-- whether a whole number fits 64 bits with a sign -/
def isSigned64 (n : Int) : Bool := -9223372036854775808 ≤ n && n ≤ 9223372036854775807

/-- an exponent after its letter -/
def exponent? (cs : List Char) : Option Int :=
  let (negative, ds) := splitSign cs
  (allDigits? ds).map (exponentOf negative)

/-- digits with a point among them or at either end, or none, and an exponent -/
def decimalLiteral? (cs : List Char) : Option FloatLiteral := do
  let mantissa := cs.takeWhile fun c => c ≠ 'e' && c ≠ 'E'
  let e ← match cs.drop mantissa.length with
    | [] => some 0
    | _ :: rest => exponent? rest
  let whole := mantissa.takeWhile (· ≠ '.')
  let fraction := mantissa.drop (whole.length + 1)
  let ds ← allDigits? (whole ++ fraction)
  return .decimal ds (e - fraction.length)

/-- a floating-point literal with an optional sign; the special names may be written in either case -/
def floatLiteral? (cs : List Char) : Option FloatLiteral :=
  let (_, cs) := splitSign cs
  if ["inf", "infinity", "nan"].contains (String.ofList (cs.map Char.toLower)) then some .special
  else decimalLiteral? cs

/-- a whole number with an optional plus sign -/
def natLiteral? (cs : List Char) : Option Nat :=
  match cs with
  | '+' :: ds => (allDigits? ds).map natOfDigits
  | ds => (allDigits? ds).map natOfDigits

/-- a whole number with an optional sign -/
def intLiteral? (cs : List Char) : Option Int :=
  let (negative, ds) := splitSign cs
  (allDigits? ds).map (exponentOf negative)

end ImportHarvest.Text
