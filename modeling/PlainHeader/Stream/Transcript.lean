import PlainHeader.Line.Conversion
import PlainHeader.Stream.Sink
import PlainHeader.Stream.Source

/-!
# Transcripts

A transcript is what a source becomes in an outlet: every line read is converted, and
every line that it becomes is written with a line feed behind it. Work stops at the
first line that cannot be read or written; what was written before stays written.
-/

namespace PlainHeader

/-- The names that faults use for the two ends of a transcript. -/
structure Labels where
  input : Text
  output : Text

namespace Labels

def unreadable (labels : Labels) (cause : Cause) : Fault := .failed ("cannot read ".toList ++ labels.input) cause

def unwritable (labels : Labels) (cause : Cause) : Fault := .failed ("cannot write ".toList ++ labels.output) cause

end Labels

/-- The pieces in which lines are written: each line, then a line feed. -/
def linePieces (lines : List Text) : List Bytes :=
  lines.flatMap fun line => [Utf8.encode line, [Source.lineFeed]]

/-- Writes the lines that one line becomes. -/
def writeLine {σ : Type} [Outlet σ] (rules : Rules) (out : σ) (line : Text) : σ × Option Cause :=
  Outlet.writeAll out (linePieces (rules.convert line))

/-- Goes through the readings, with the number of lines read before them. -/
def transcribeFrom {σ : Type} [Outlet σ] (rules : Rules) (labels : Labels) (count : Nat) (out : σ) :
    List Reading → σ × Except Fault Nat
  | [] => (out, .ok count)
  | .error cause :: _ => (out, .error (labels.unreadable cause))
  | .ok line :: rest =>
    match writeLine rules out line with
    | (out, none) => transcribeFrom rules labels (count + 1) out rest
    | (out, some cause) => (out, .error (labels.unwritable cause))

/-- Writes what a source becomes, and tells how many lines were read. -/
def transcribe {σ : Type} [Outlet σ] (rules : Rules) (labels : Labels) (source : Source) (out : σ) :
    σ × Except Fault Nat :=
  transcribeFrom rules labels 0 out source.readings

end PlainHeader
