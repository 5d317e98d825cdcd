import ImportHarvest.Settings.Value
/-!
Tables under construction, and what may be defined in them.

A name is defined once. A header `[a.b]` defines the table it names and makes the ones on the way, which a later header
may still define; a dotted key makes the tables on its way too, and only dotted keys may add to those. `[[a]]` adds an
element to a list of tables, and what follows goes to the last one.
-/

namespace ImportHarvest.Toml

open Settings

/-- how a table came to be -/
inductive Origin where
  /-- on the way of a header -/
  | onTheWay
  /-- on the way of a dotted key -/
  | dotted
  /-- by a header of its own -/
  | header
  deriving DecidableEq, Repr

/-- what stands under a name: a value, a table, or a list of tables, the last in front -/
inductive Item where
  | value (v : Value)
  | table (origin : Origin) (entries : List (String × Item))
  | tables (last : List (String × Item)) (earlier : List (List (String × Item)))
  deriving Inhabited

/-- names with what stands under them -/
abbrev Entries := List (String × Item)

/-- the entries with what stands under a name replaced, or added at the end -/
def setEntry (name : String) (item : Item) : Entries → Entries
  | [] => [(name, item)]
  | (other, old) :: rest => if other = name then (name, item) :: rest else (other, old) :: setEntry name item rest

/-- the entries with a value under dotted keys; `entered` tells that the table was reached by a dotted key, and `owned`
that it was made by one -/
def setDotted (entered owned : Bool) (v : Value) : List String → Entries → Option Entries
  | [], _ => none
  | [name], es =>
    if entered && !owned then none
    else match es.lookup name with
      | none => some (setEntry name (.value v) es)
      | some _ => none
  | name :: rest, es =>
    match es.lookup name with
    | none => (setDotted true true v rest []).map fun inner => setEntry name (.table .dotted inner) es
    | some (.table origin inner) =>
      if origin = .header then none
      else (setDotted true (origin = .dotted) v rest inner).map fun inner => setEntry name (.table origin inner) es
    | some (.tables last earlier) =>
      (setDotted true false v rest last).map fun inner => setEntry name (.tables inner earlier) es
    | some (.value _) => none

/-- the entries with a table changed: the one under these names, in the last element of each list on the way; tables
that are missing are made -/
def within (change : Entries → Option Entries) : List String → Entries → Option Entries
  | [], es => change es
  | name :: rest, es =>
    match es.lookup name with
    | none => (within change rest []).map fun inner => setEntry name (.table .onTheWay inner) es
    | some (.table origin inner) =>
      (within change rest inner).map fun inner => setEntry name (.table origin inner) es
    | some (.tables last earlier) =>
      (within change rest last).map fun inner => setEntry name (.tables inner earlier) es
    | some (.value _) => none

/-- defines a table by its header's last name -/
def defineTable (name : String) (es : Entries) : Option Entries :=
  match es.lookup name with
  | none => some (setEntry name (.table .header []) es)
  | some (.table .onTheWay inner) => some (setEntry name (.table .header inner) es)
  | some _ => none

/-- adds an element to a list of tables by its header's last name -/
def defineElement (name : String) (es : Entries) : Option Entries :=
  match es.lookup name with
  | none => some (setEntry name (.tables [] []) es)
  | some (.tables last earlier) => some (setEntry name (.tables [] (last :: earlier)) es)
  | some _ => none

mutual
/-- the value that an item is when all is defined -/
def Item.toValue : Item → Value
  | .value v => v
  | .table _ es => .table (tableOf es)
  | .tables last earlier => .list ((.table (tableOf last) :: listOf earlier).reverse)
/-- the values under the names -/
def tableOf : Entries → Table
  | [] => []
  | (name, item) :: rest => (name, item.toValue) :: tableOf rest
/-- the tables of a list -/
def listOf : List Entries → List Value
  | [] => []
  | es :: rest => .table (tableOf es) :: listOf rest
end

end ImportHarvest.Toml
