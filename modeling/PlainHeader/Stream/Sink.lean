import PlainHeader.Fault

/-!
# Sinks

A sink takes bytes in order. With a limit it takes what still fits of the piece that goes
past it, and fails; from then on it takes nothing. Writing nothing never fails.
-/

namespace PlainHeader

/-- Something that output is written to piece by piece. A write returns the new state, and
    the cause if part of the piece was refused. -/
class Outlet (σ : Type) where
  /-- Writes one piece, or as much of it as is taken. -/
  write : σ → Bytes → σ × Option Cause

/-- Writes pieces up to the first that is refused. -/
def Outlet.writeAll {σ : Type} [Outlet σ] (out : σ) : List Bytes → σ × Option Cause
  | [] => (out, none)
  | piece :: rest =>
    match Outlet.write out piece with
    | (out, none) => Outlet.writeAll out rest
    | (out, some cause) => (out, some cause)

/-- A place that holds what was written to it. -/
structure Sink where
  /-- The most bytes it takes in all, if there is such a number. -/
  limit : Option Nat := none
  /-- The cause it gives when it is full. -/
  full : Cause := .system .noSpace
  /-- The cause it gives when it is flushed, if flushing fails. -/
  flushFailure : Option Cause := none
  /-- What it has taken. -/
  taken : Array UInt8 := #[]

namespace Sink

def bytes (sink : Sink) : Bytes := sink.taken.toList

def append (sink : Sink) (piece : Bytes) : Sink := { sink with taken := sink.taken ++ piece }

/-- The front of a piece that the sink still takes. -/
def fitting (sink : Sink) (piece : Bytes) : Bytes :=
  match sink.limit with
  | none => piece
  | some limit => piece.take (limit - sink.taken.size)

/-- Takes the part of a piece that fits, and fails unless that is all of it. -/
def write (sink : Sink) (piece : Bytes) : Sink × Option Cause :=
  let part := sink.fitting piece
  let refusal := if part.length < piece.length then some sink.full else none
  (sink.append part, refusal)

instance : Outlet Sink where
  write := Sink.write

/-- Writes a piece and flushes; the first failure counts. -/
def writeFlushed (sink : Sink) (piece : Bytes) : Sink × Option Cause :=
  match sink.write piece with
  | (sink, none) => (sink, sink.flushFailure)
  | (sink, some cause) => (sink, some cause)

@[simp] theorem bytes_append (sink : Sink) (piece : Bytes) :
    (sink.append piece).bytes = sink.bytes ++ piece := by
  simp [append, bytes]

theorem write_of_unlimited {sink : Sink} (h : sink.limit = none) (piece : Bytes) :
    sink.write piece = (sink.append piece, none) := by
  simp [write, fitting, h]

theorem write_of_limited {sink : Sink} {limit : Nat} (h : sink.limit = some limit) (piece : Bytes) :
    sink.write piece =
      (sink.append (piece.take (limit - sink.taken.size)),
        if limit - sink.taken.size < piece.length then some sink.full else none) := by
  have refused : min (limit - sink.taken.size) piece.length < piece.length ↔
      limit - sink.taken.size < piece.length := by omega
  simp [write, fitting, h, List.length_take, refused]

end Sink

end PlainHeader
