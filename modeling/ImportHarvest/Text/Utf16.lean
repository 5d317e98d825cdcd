import ImportHarvest.Text.Utf8
/-!
UTF-16 in either byte order: the octets of a text, and the text that octets hold.

Two octets are a unit, two surrogate units in the right order are a character, and an unpaired surrogate reads as
U+FFFD. One octet too many at the end reads as U+FFFD as well; together with a high surrogate that stands unpaired
just before it, it reads as one U+FFFD.
-/

namespace ImportHarvest.Text

/-- the order of the two octets of a unit -/
inductive ByteOrder where
  | little
  | big
  deriving DecidableEq, Repr

/-- the unit that two octets make -/
def ByteOrder.unit (order : ByteOrder) (first second : UInt8) : Nat :=
  match order with
  | .little => second.toNat * 0x100 + first.toNat
  | .big => first.toNat * 0x100 + second.toNat

/-- the two octets of a unit -/
def ByteOrder.octets (order : ByteOrder) (unit : Nat) : Octets :=
  match order with
  | .little => [UInt8.ofNat unit, UInt8.ofNat (unit / 0x100)]
  | .big => [UInt8.ofNat (unit / 0x100), UInt8.ofNat unit]

/-- the one or two units of a character -/
def units (c : Char) : List Nat :=
  let n := c.toNat
  if n < 0x10000 then [n] else [0xD800 + (n - 0x10000) / 0x400, 0xDC00 + (n - 0x10000) % 0x400]

/-- the octets of a text -/
def utf16 (order : ByteOrder) (cs : List Char) : Octets := cs.flatMap fun c => (units c).flatMap order.octets

/-- the units of a run of octets, and whether one octet is left over -/
def unitsOf (order : ByteOrder) : Octets → List Nat × Bool
  | [] => ([], false)
  | [_] => ([], true)
  | a :: b :: rest => let (us, odd) := unitsOf order rest; (order.unit a b :: us, odd)

def isHighSurrogate (u : Nat) : Bool := 0xD800 ≤ u && u < 0xDC00
def isLowSurrogate (u : Nat) : Bool := 0xDC00 ≤ u && u < 0xE000

/-- the text of units; `odd` tells of one octet after the last of them -/
def textOfUnits (odd : Bool) : List Nat → List Char
  | [] => if odd then ['\uFFFD'] else []
  | [u] =>
    if isHighSurrogate u then ['\uFFFD']
    else (if isLowSurrogate u then '\uFFFD' else Char.ofNat u) :: textOfUnits odd []
  | u :: v :: rest =>
    if isHighSurrogate u then
      if isLowSurrogate v then Char.ofNat (0x10000 + (u - 0xD800) * 0x400 + (v - 0xDC00)) :: textOfUnits odd rest
      else '\uFFFD' :: textOfUnits odd (v :: rest)
    else (if isLowSurrogate u then '\uFFFD' else Char.ofNat u) :: textOfUnits odd (v :: rest)

/-- the text of a run of octets -/
def utf16Marking (order : ByteOrder) (bs : Octets) : List Char :=
  let (us, odd) := unitsOf order bs
  textOfUnits odd us

end ImportHarvest.Text
