import ImportHarvest.Disk.Path
/-!
Where the text of an artifact goes.

A limited sink takes octets as long as there is room: a write that does not fit fills it up and fails. A buffered file
keeps what was written last back, up to eight kilobytes, and hands it on to the file when the next write does not fit;
what the file holds is therefore a start of what was written. Closing hands on the rest.
-/

namespace ImportHarvest

open Text

/-- something that octets are written to -/
class Sink (τ : Type) where
  write : Octets → τ → Except Fault Unit × τ
  flush : τ → Except Fault Unit × τ

/-! ## Memory -/

/-- octets in memory, with room for so many more, or for any number -/
structure LimitedSink where
  held : Octets
  room : Option Nat
  flushFails : Bool
  deriving Repr, DecidableEq

namespace LimitedSink

/-- an empty sink with room for anything -/
def unlimited : LimitedSink := ⟨[], none, false⟩

def write (bs : Octets) (s : LimitedSink) : Except Fault Unit × LimitedSink :=
  match s.room with
  | none => (.ok (), { s with held := s.held ++ bs })
  | some room =>
    if bs.length ≤ room then (.ok (), { s with held := s.held ++ bs, room := some (room - bs.length) })
    else (.error .sinkFull, { s with held := s.held ++ bs.take room, room := some 0 })

def flush (s : LimitedSink) : Except Fault Unit × LimitedSink :=
  (if s.flushFails then .error .flushFailed else .ok (), s)

instance : Sink LimitedSink := ⟨write, flush⟩

end LimitedSink

/-! ## Files -/

/-- a file at a place on disk, with the octets that were written but did not reach it yet -/
structure BufferedFile where
  disk : Disk
  place : Place
  pending : Octets

namespace BufferedFile

/-- how many octets the buffer holds -/
def capacity : Nat := 8192

/-- hands the buffer on to the file -/
def settle (f : BufferedFile) : BufferedFile :=
  if f.pending.isEmpty then f else { f with disk := f.disk.append f.place f.pending, pending := [] }

/-- adds octets to the buffer, or to the file when they would fill a buffer of their own; the buffer is handed on first
when they do not fit -/
def write (bs : Octets) (f : BufferedFile) : BufferedFile :=
  let f := if f.pending.length + bs.length ≤ capacity then f else f.settle
  if capacity ≤ bs.length then { f with disk := f.disk.append f.place bs }
  else { f with pending := f.pending ++ bs }

instance : Sink BufferedFile := ⟨fun bs f => (.ok (), f.write bs), fun f => (.ok (), f.settle)⟩

end BufferedFile

end ImportHarvest
