import ImportHarvest.Failure
import ImportHarvest.Record
import ImportHarvest.Text.Utf8
/-!
Sources of records, and the world that a run acts on.

A run writes to an output and may make requests; both stand in its world, with the files it has taken up so far. A
source is asked for one record after the other, and for the content of a record whenever the run wants it. Each of these
may look at the world and make requests, but the output is the run's alone. What a source remembers from one call to the
next, and so how far its walk has come, is its cursor.
-/

namespace ImportHarvest

open Text

/-- a request to a listing service -/
inductive Request where
  | list (url : String)
  | download (url : String)
  deriving DecidableEq, Repr

def Request.url : Request → String
  | list url => url
  | download url => url

/-- what a run acts on: its output, the requests made and the files taken up, both in order -/
structure World (τ : Type) where
  output : τ
  requests : List Request := []
  processed : List Record := []

namespace World

variable {τ : Type}

/-- notes the requests that are made -/
def request (w : World τ) (rs : List Request) : World τ := { w with requests := w.requests ++ rs }

/-- notes that a file is taken up -/
def process (w : World τ) (r : Record) : World τ := { w with processed := w.processed ++ [r] }

@[simp] theorem request_output (w : World τ) (rs : List Request) : (w.request rs).output = w.output := rfl

@[simp] theorem request_processed (w : World τ) (rs : List Request) : (w.request rs).processed = w.processed := rfl

@[simp] theorem process_output (w : World τ) (r : Record) : (w.process r).output = w.output := rfl

@[simp] theorem process_processed (w : World τ) (r : Record) : (w.process r).processed = w.processed ++ [r] := rfl

end World

/-- one step of a walk: a record or a failure, or nothing at the end -/
abbrev WalkItem := Option (Except Failure Record)

/-- a tree to walk and to read from; once `next` gave a failure or nothing, it gives nothing ever after -/
structure TreeSource (τ : Type) where
  /-- the root, for messages -/
  describe : String
  Cursor : Type
  /-- a new walk -/
  start : World τ → Cursor
  /-- the next step of the walk, with the requests made for it -/
  next : Cursor → World τ → WalkItem × Cursor × List Request
  /-- the content of a record, with the requests made for it -/
  read : Record → Cursor → World τ → Except Failure Octets × Cursor × List Request

/-- the records of a walk that ends, and the failure that ended it, if one did -/
structure Listing where
  records : List Record
  failure : Option Failure
  deriving Repr, DecidableEq

namespace Listing

def nil : Listing := ⟨[], none⟩

def single (r : Record) : Listing := ⟨[r], none⟩

def fail (f : Failure) : Listing := ⟨[], some f⟩

/-- one walk after the other; a failure ends both -/
def append (a b : Listing) : Listing :=
  match a.failure with
  | some _ => a
  | none => ⟨a.records ++ b.records, b.failure⟩

instance : Append Listing := ⟨append⟩

/-- the steps of the walk -/
def items (l : Listing) : List (Except Failure Record) :=
  l.records.map .ok ++ l.failure.toList.map .error

end Listing

/-- steps that were worked out beforehand: a failure ends them -/
def nextItem : List (Except Failure Record) → WalkItem × List (Except Failure Record)
  | [] => (none, [])
  | .error f :: _ => (some (.error f), [])
  | .ok r :: rest => (some (.ok r), rest)

/-- a source whose walk is worked out when it starts, and that makes no requests -/
def TreeSource.ofItems {τ : Type} (describe : String) (items : World τ → List (Except Failure Record))
    (read : Record → World τ → Except Failure Octets) : TreeSource τ where
  describe := describe
  Cursor := List (Except Failure Record)
  start := items
  next := fun rest _ => let (item, rest) := nextItem rest; (item, rest, [])
  read := fun r rest w => (read r w, rest, [])

end ImportHarvest
