import PlainHeader.Stream.Sink

/-!
# Buffered outlets

Small pieces wait in a buffer and reach the sink together. A piece that is longer than the
room left sends on what waits first; a piece as long as the whole buffer does not wait at
all. What a sink has refused is given up: a full sink would refuse it again.
-/

namespace PlainHeader

/-- A sink, and the bytes that wait to be handed to it. -/
structure Buffered where
  sink : Sink
  waiting : Array UInt8 := #[]

namespace Buffered

def capacity : Nat := 8192

/-- How many more bytes can wait. -/
def room (out : Buffered) : Nat := capacity - out.waiting.size

def hold (out : Buffered) (piece : Bytes) : Buffered := { out with waiting := out.waiting ++ piece }

/-- Hands a piece to the sink at once. -/
def pass (out : Buffered) (piece : Bytes) : Buffered × Option Cause :=
  match out with
  | { sink, waiting } =>
    let (sink, refusal) := sink.write piece
    ({ sink, waiting }, refusal)

/-- Hands everything that waits to the sink. -/
def release (out : Buffered) : Buffered × Option Cause :=
  match out with
  | { sink, waiting } =>
    let (sink, refusal) := sink.write waiting.toList
    ({ sink }, refusal)

/-- Makes room for a piece, if it is longer than the room there is. -/
def makeRoom (out : Buffered) (piece : Bytes) : Buffered × Option Cause :=
  if out.room < piece.length then out.release else (out, none)

/-- Holds a piece back, or hands it on when it is too long to wait. -/
def write (out : Buffered) (piece : Bytes) : Buffered × Option Cause :=
  if piece.length < out.room then (out.hold piece, none)
  else
    match out.makeRoom piece with
    | (out, some cause) => (out, some cause)
    | (out, none) => if capacity ≤ piece.length then out.pass piece else (out.hold piece, none)

instance : Outlet Buffered where
  write := Buffered.write

def reached (out : Buffered) : Nat := out.sink.taken.size

theorem reached_le_pass (out : Buffered) (piece : Bytes) : out.reached ≤ (out.pass piece).1.reached := by
  simp [reached, pass, Sink.write, Sink.append, ← Array.length_toList]

theorem reached_le_release (out : Buffered) : out.reached ≤ out.release.1.reached := by
  simp [reached, release, Sink.write, Sink.append, ← Array.length_toList]

theorem reached_le_makeRoom (out : Buffered) (piece : Bytes) :
    out.reached ≤ (out.makeRoom piece).1.reached := by
  unfold makeRoom
  split
  · exact out.reached_le_release
  · exact Nat.le_refl _

/-- Nothing that has reached the sink leaves it. -/
theorem reached_le_write (out : Buffered) (piece : Bytes) : out.reached ≤ (out.write piece).1.reached := by
  have roomy := out.reached_le_makeRoom piece
  unfold write
  split
  · exact Nat.le_refl _
  · split
    · next full => rw [full] at roomy; exact roomy
    · next empty =>
      rw [empty] at roomy
      split
      · exact Nat.le_trans roomy (reached_le_pass _ _)
      · exact roomy

theorem reached_le_writeAll (out : Buffered) (pieces : List Bytes) :
    out.reached ≤ (Outlet.writeAll out pieces).1.reached := by
  induction pieces generalizing out with
  | nil => exact Nat.le_refl _
  | cons piece rest ih =>
    have step := out.reached_le_write piece
    unfold Outlet.writeAll
    split
    · next taken =>
      have taken : out.write piece = _ := taken
      rw [taken] at step
      exact Nat.le_trans step (ih _)
    · next refused =>
      have refused : out.write piece = _ := refused
      rw [refused] at step
      exact step

end Buffered

end PlainHeader
