import PlainHeader.Stream.Buffered
import PlainHeader.Stream.Transcript

/-!
# Reading the file that is being written

When input and output are one file, the reader finds what the writer has handed over so
far, and nothing else: the file was emptied when it was opened for writing. Lines are read
until nothing is left unread. A reader that comes to the end inside a line takes what is
there for the line. Such a file may grow from its own contents until it is as large as a
file can be.
-/

namespace PlainHeader

/-- The greatest size of a file, in bytes: one less than the 63rd power of two. -/
def largestFile : Nat := 9223372036854775807

namespace Overwriting

/-- How many bytes the first line of some unread bytes takes, its line feed included. -/
def lineLength (unread : Bytes) : Nat :=
  let line := unread.takeWhile (· != Source.lineFeed)
  if line.length < unread.length then line.length + 1 else line.length

/-- The first line of some unread bytes, without its end. -/
def firstLine (unread : Bytes) : Reading :=
  let line := unread.takeWhile (· != Source.lineFeed)
  Source.read (if line.length < unread.length then Source.chopReturn line else line)

theorem lineLength_pos {unread : Bytes} (h : unread ≠ []) : 0 < lineLength unread := by
  have : 0 < unread.length := List.length_pos_iff.2 h
  unfold lineLength
  simp only
  split <;> omega

/-- Goes on reading behind the first `seen` bytes that have reached the file. -/
def transcribeFrom (rules : Rules) (labels : Labels) (seen count : Nat) (out : Buffered) :
    Buffered × Except Fault Nat :=
  if out.reached ≤ seen then (out, .ok count)
  else if largestFile ≤ out.reached then (out, .error (labels.unwritable (.system .fileTooLarge)))
  else
    match firstLine (out.sink.bytes.drop seen) with
    | .error cause => (out, .error (labels.unreadable cause))
    | .ok line =>
      match written : writeLine rules out line with
      | (out', some cause) => (out', .error (labels.unwritable cause))
      | (out', none) =>
        transcribeFrom rules labels (seen + lineLength (out.sink.bytes.drop seen)) (count + 1) out'
termination_by if largestFile ≤ out.reached then 0 else 1 + 2 * (largestFile - out.reached) + (out.reached - seen)
decreasing_by
  have grown : out.reached ≤ (writeLine rules out line).1.reached := out.reached_le_writeAll _
  rw [written] at grown
  have unread : out.sink.bytes.drop seen ≠ [] := by
    intro none_left
    have := List.drop_eq_nil_iff.1 none_left
    simp only [Sink.bytes, Array.length_toList] at this
    exact absurd this (by assumption)
  have := lineLength_pos unread
  simp only at grown
  split <;> omega

/-- Goes on from a file that has just been opened and begun. -/
def transcribe (rules : Rules) (labels : Labels) (out : Buffered) : Buffered × Except Fault Nat :=
  transcribeFrom rules labels 0 0 out

end Overwriting

end PlainHeader
