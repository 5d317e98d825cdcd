/-!
UTF-8: the octets of a text, and the text that octets hold when some of them are ill-formed.

Reading splits the octets into parts. A part is either the octets of one character or a maximal ill-formed subpart: the
longest start of a well-formed sequence that breaks off, or else one octet that starts none. A reader that drops the
ill-formed parts and one that puts U+FFFD for each are two views of the same parts.
-/

namespace ImportHarvest.Text

/-- a run of octets -/
abbrev Octets := List UInt8

/-- the octets of a text -/
def utf8 (cs : List Char) : Octets := cs.flatMap String.utf8EncodeChar

/-- the octets of a string -/
def utf8Of (s : String) : Octets := utf8 s.toList

@[simp] theorem utf8_append (a b : List Char) : utf8 (a ++ b) = utf8 a ++ utf8 b := List.flatMap_append

@[simp] theorem utf8Of_append (s t : String) : utf8Of (s ++ t) = utf8Of s ++ utf8Of t := by
  rw [utf8Of, String.toList_append, utf8_append]
  rfl

theorem utf8Of_join (texts : List String) : utf8Of (String.join texts) = texts.flatMap utf8Of := by
  rw [utf8Of, utf8, String.toList_join, List.flatMap_assoc]
  rfl

/-- an octet that may continue a sequence -/
def isTail (b : UInt8) : Bool := 0x80 ≤ b && b ≤ 0xBF

/-- the lead octets, each with what may follow it directly: the three- and four-octet forms leave out the sequences that
would be overlong, a surrogate, or above U+10FFFF -/
inductive Lead where
  | one
  | two
  | three (low high : UInt8)
  | four (low high : UInt8)
  | none
  deriving DecidableEq, Repr

/-- what an octet starts -/
def Lead.of (b : UInt8) : Lead :=
  if b < 0x80 then .one
  else if b < 0xC2 then .none
  else if b < 0xE0 then .two
  else if b = 0xE0 then .three 0xA0 0xBF
  else if b = 0xED then .three 0x80 0x9F
  else if b < 0xF0 then .three 0x80 0xBF
  else if b = 0xF0 then .four 0x90 0xBF
  else if b < 0xF4 then .four 0x80 0xBF
  else if b = 0xF4 then .four 0x80 0x8F
  else .none

/-- the six payload bits of a continuation octet -/
def tailBits (b : UInt8) : Nat := b.toNat % 0x40

/-- one part: a character, or nothing for an ill-formed subpart -/
abbrev Part := Option Char

/-- the part that starts with octet `b`, and how many octets after `b` belong to it -/
def partAt (b : UInt8) (rest : Octets) : Part × Nat :=
  match Lead.of b with
  | .one => (some (Char.ofNat b.toNat), 0)
  | .none => (none, 0)
  | .two =>
    match rest with
    | c :: _ => if isTail c then (some (Char.ofNat (b.toNat % 0x20 * 0x40 + tailBits c)), 1) else (none, 0)
    | [] => (none, 0)
  | .three low high =>
    match rest with
    | c :: d :: _ =>
      if !(low ≤ c && c ≤ high) then (none, 0)
      else if !isTail d then (none, 1)
      else (some (Char.ofNat ((b.toNat % 0x10 * 0x40 + tailBits c) * 0x40 + tailBits d)), 2)
    | [c] => (none, if low ≤ c && c ≤ high then 1 else 0)
    | [] => (none, 0)
  | .four low high =>
    match rest with
    | c :: d :: e :: _ =>
      if !(low ≤ c && c ≤ high) then (none, 0)
      else if !isTail d then (none, 1)
      else if !isTail e then (none, 2)
      else (some (Char.ofNat (((b.toNat % 8 * 0x40 + tailBits c) * 0x40 + tailBits d) * 0x40 + tailBits e)), 3)
    | [c, d] => (none, if !(low ≤ c && c ≤ high) then 0 else if !isTail d then 1 else 2)
    | [c] => (none, if low ≤ c && c ≤ high then 1 else 0)
    | [] => (none, 0)

/-- the parts of a run of octets, in order -/
def utf8Parts : Octets → List Part
  | [] => []
  | b :: rest => (partAt b rest).1 :: utf8Parts (rest.drop (partAt b rest).2)
termination_by bs => bs.length
decreasing_by simp only [List.length_drop, List.length_cons]; omega

/-- the text, when every part is a character -/
def utf8Exact? (bs : Octets) : Option (List Char) := (utf8Parts bs).mapM id

/-- the text with the ill-formed subparts left out -/
def utf8Dropping (bs : Octets) : List Char := (utf8Parts bs).filterMap id

/-- the text with U+FFFD in place of each ill-formed subpart -/
def utf8Marking (bs : Octets) : List Char := (utf8Parts bs).map fun p => p.getD '\uFFFD'

/-- the octets as they are shown, with U+FFFD in place of each ill-formed subpart -/
def shownOf (bs : Octets) : String := String.ofList (utf8Marking bs)

end ImportHarvest.Text
