import ImportHarvest.Json.Basic
import ImportHarvest.Settings.Items
/-!
Values that settings are given by, whatever format they were written in, and what each kind of setting takes.

Types are strict: no text stands for a number or a truth value. A single character, which only an environment variable
can give, is as good as a text, except where a list of texts may be meant.
-/

namespace ImportHarvest.Settings

open Text

/-- a value as a file or a variable gives it; `other` is one that no setting takes, such as a fraction or a date -/
inductive Value where
  | null
  | text (s : String)
  | char (c : Char)
  | truth (b : Bool)
  | whole (n : Int)
  | list (items : List Value)
  | table (entries : List (String × Value))
  | other
  deriving Inhabited, Repr

/-- entries by name, in order; each name stands there once -/
abbrev Table := List (String × Value)

namespace Value

/-! ## Equality -/

-- equality is not derived for values that stand in lists of each other
mutual
/-- whether two values are the same -/
def same : Value → Value → Bool
  | .null, .null => true
  | .text s, .text t => s = t
  | .char c, .char d => c = d
  | .truth b, .truth c => b = c
  | .whole n, .whole m => n = m
  | .list vs, .list ws => sameItems vs ws
  | .table es, .table fs => sameEntries es fs
  | .other, .other => true
  | _, _ => false
def sameItems : List Value → List Value → Bool
  | [], [] => true
  | v :: vs, w :: ws => v.same w && sameItems vs ws
  | _, _ => false
def sameEntries : Table → Table → Bool
  | [], [] => true
  | (x, v) :: es, (y, w) :: fs => x = y && v.same w && sameEntries es fs
  | _, _ => false
end

mutual
theorem same_iff : ∀ v w : Value, v.same w = true ↔ v = w
  | .list vs, w => by cases w <;> simp [same, sameItems_iff vs]
  | .table es, w => by cases w <;> simp [same, sameEntries_iff es]
  | .null, w | .text _, w | .char _, w | .truth _, w | .whole _, w | .other, w => by cases w <;> simp [same]
theorem sameItems_iff : ∀ vs ws : List Value, sameItems vs ws = true ↔ vs = ws
  | [], ws => by cases ws <;> simp [sameItems]
  | v :: vs, ws => by cases ws <;> simp [sameItems, same_iff v, sameItems_iff vs]
theorem sameEntries_iff : ∀ es fs : Table, sameEntries es fs = true ↔ es = fs
  | [], fs => by cases fs <;> simp [sameEntries]
  | (_, v) :: es, fs => by cases fs <;> simp [sameEntries, same_iff v, sameEntries_iff es, Prod.ext_iff]
end

instance : DecidableEq Value := fun v w => decidable_of_iff _ (same_iff v w)

/-! ## What settings take -/

/-- a text or a single character -/
def text? : Value → Option String
  | .text s => some s
  | .char c => some c.toString
  | _ => none

def truth? : Value → Option Bool
  | .truth b => some b
  | _ => none

/-- a whole number from 0 to 2 ^ 64 - 1 -/
def word? : Value → Option UInt64
  | .whole n => if 0 ≤ n && n.toNat < UInt64.size then some (UInt64.ofNat n.toNat) else none
  | _ => none

/-- a text, but not a single character -/
def plainText? : Value → Option String
  | .text s => some s
  | _ => none

/-- a list of texts, or items in one text -/
def items? : Value → Option (List String)
  | .text s => some (itemsOf s)
  | .list vs => vs.mapM plainText?
  | _ => none

/-- nothing for null, else a text -/
def optionalText? : Value → Option (Option String)
  | .null => some none
  | v => v.text?.map some

/-- the value that JSON text gives: a number counts when it is a whole number below 2 ^ 64, and no setting takes an
object -/
def ofJson : Json → Value
  | .null => .null
  | .bool b => .truth b
  | .number n => match n.natural? with
    | some k => .whole k
    | none => .other
  | .string (some s) => .text s
  | .string none => .other
  | .list items => .list (items.map fun
    | .string (some s) => .text s
    | _ => .other)
  | .object _ => .other

end Value

end ImportHarvest.Settings
