import ImportHarvest.Fields
import ImportHarvest.Text.Decimal
/-!
JSON values as they are written: numbers keep their digits, an object keeps its members in order and with repeats, and
a string literal that escapes an unpaired surrogate is a value without a text.

A reader of a value says what it can take. Most readers take an unpaired surrogate or a number of any size where they
do not look; `strict` says when a value has neither and can be taken whole.
-/

namespace ImportHarvest

open Text

/-- a number literal: digits before the point, digits after it, and the exponent with its sign -/
structure Json.Number where
  negative : Bool
  whole : List Char
  fraction : Option (List Char)
  exponent : Option (Bool × List Char)
  deriving DecidableEq, Repr, Inhabited

/-- a JSON value; the text of a string is missing when an escape in it leaves a surrogate unpaired -/
inductive Json where
  | null
  | bool (value : Bool)
  | number (value : Json.Number)
  | string (text : Option String)
  | list (items : List Json)
  | object (members : List (Option String × Json))
  deriving Inhabited, Repr

namespace Json

namespace Number

/-- the number, when it is written as a whole number without a sign -/
def natural? (n : Number) : Option Nat :=
  if n.negative || n.fraction.isSome || n.exponent.isSome then none else some (natOfDigits n.whole)

/-- the literal of a whole number -/
def ofNat (n : Nat) : Number := ⟨false, digits n, none, none⟩

/-- whether the number rounds to a finite double -/
def inRange (n : Number) : Bool :=
  let fraction := n.fraction.getD []
  let e : Int := match n.exponent with
    | none => 0
    | some (negative, ds) => exponentOf negative ds
  roundsToFinite (n.whole ++ fraction) (e - fraction.length)

end Number

/-! ## Equality -/

-- equality is not derived for values that stand in lists of each other
mutual
/-- whether two values are the same -/
def same : Json → Json → Bool
  | .null, .null => true
  | .bool b, .bool c => b = c
  | .number n, .number m => n = m
  | .string s, .string t => s = t
  | .list js, .list ks => sameItems js ks
  | .object ms, .object ns => sameMembers ms ns
  | _, _ => false
def sameItems : List Json → List Json → Bool
  | [], [] => true
  | j :: js, k :: ks => j.same k && sameItems js ks
  | _, _ => false
def sameMembers : List (Option String × Json) → List (Option String × Json) → Bool
  | [], [] => true
  | (x, j) :: ms, (y, k) :: ns => x = y && j.same k && sameMembers ms ns
  | _, _ => false
end

mutual
theorem same_iff : ∀ j k : Json, j.same k = true ↔ j = k
  | .list js, k => by cases k <;> simp [same, sameItems_iff js]
  | .object ms, k => by cases k <;> simp [same, sameMembers_iff ms]
  | .null, k | .bool _, k | .number _, k | .string _, k => by cases k <;> simp [same]
theorem sameItems_iff : ∀ js ks : List Json, sameItems js ks = true ↔ js = ks
  | [], ks => by cases ks <;> simp [sameItems]
  | j :: js, ks => by cases ks <;> simp [sameItems, same_iff j, sameItems_iff js]
theorem sameMembers_iff : ∀ ms ns : List (Option String × Json), sameMembers ms ns = true ↔ ms = ns
  | [], ns => by cases ns <;> simp [sameMembers]
  | (_, j) :: ms, ns => by cases ns <;> simp [sameMembers, same_iff j, sameMembers_iff ms, Prod.ext_iff]
end

instance : DecidableEq Json := fun j k => decidable_of_iff _ (same_iff j k)

/-! ## Views of a value -/

/-- the text of a string -/
def string? : Json → Option String
  | .string text => text
  | _ => none

/-- a whole number below 2 ^ 64, written without sign, point and exponent -/
def word? : Json → Option Nat
  | .number n => n.natural?.filter (· < UInt64.size)
  | _ => none

/-- the items of a list, each read by `read` -/
def listOf? {α : Type} (read : Json → Option α) : Json → Option (List α)
  | .list items => items.mapM read
  | _ => none

/-- nothing for null, else what `read` gives -/
def optional? {α : Type} (read : Json → Option α) : Json → Option (Option α)
  | .null => some none
  | j => (read j).map some

/-! ## Records -/

/-- the values of a record's fields, in their order: given by name in an object, where every name has to be a text, or
by position in a list that may stop early but not go on -/
def record? (fields : Fields) : Json → Option (List (Option Json))
  | .object members => do
    let given ← members.mapM fun (name, j) => name.map fun n => (n, j)
    fields.place? given
  | .list items =>
    if items.length ≤ fields.length then some (items.map some ++ Fields.blank (fields.drop items.length)) else none
  | _ => none

/-! ## Whole values -/

mutual
/-- no unpaired surrogate, no number out of range, and less than `room` levels of lists and objects -/
def strict (room : Nat) : Json → Bool
  | .number n => n.inRange
  | .string text => text.isSome
  | .list items => 1 < room && strictItems (room - 1) items
  | .object members => 1 < room && strictMembers (room - 1) members
  | _ => true
def strictItems (room : Nat) : List Json → Bool
  | [] => true
  | j :: js => strict room j && strictItems room js
def strictMembers (room : Nat) : List (Option String × Json) → Bool
  | [] => true
  | (name, j) :: rest => name.isSome && strict room j && strictMembers room rest
end

/-- an object with only the last member of each name, as one that is read into a table by name -/
def lastMembers : Json → Json
  | .object members =>
    .object ((members.zipIdx.filter fun ((name, _), i) =>
      !(members.drop (i + 1)).any fun (other, _) => other == name).map Prod.fst)
  | j => j

end Json

end ImportHarvest
