import ImportHarvest.Text.Decimal
/-!
Whole numbers for people: decimal digits with a comma between each group of three, counted from the right.
-/

namespace ImportHarvest.Text

/-- a comma goes before every digit, except the first, that has a multiple of three digits from it to the end -/
def groupThousands : (first : Bool) → List Char → List Char
  | _, [] => []
  | first, d :: ds =>
    if !first && (ds.length + 1) % 3 == 0 then ',' :: d :: groupThousands false ds
    else d :: groupThousands false ds

/-- the number in decimal, in groups of three -/
def grouped (n : Nat) : String := String.ofList (groupThousands true (digits n))

end ImportHarvest.Text
