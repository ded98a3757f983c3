import PlainHeader.Fault

/-!
# Sources and their lines

A source is read line by line. A line ends at a line feed, and one carriage return before
it belongs to the end; what follows the last line feed is a line too unless it is empty.
A source may fail in place of ending: the line it was in is then lost, whatever its bytes.
-/

namespace PlainHeader

/-- Bytes to be read, and what comes behind them. -/
structure Source where
  /-- The bytes that are delivered. -/
  data : Bytes
  /-- The failure that stands in place of the end, if there is one. -/
  failure : Option Cause := none

/-- What the reader of a source meets: a line, or the reason why there is none. -/
abbrev Reading := Except Cause Text

namespace Source

def lineFeed : UInt8 := 0x0A

def carriageReturn : UInt8 := 0x0D

/-- A line without the carriage return of its end. -/
def chopReturn (line : Bytes) : Bytes :=
  if line.getLast? = some carriageReturn then line.dropLast else line

/-- The text of a line, or the failure to be one. -/
def read (line : Bytes) : Reading :=
  match Utf8.decode? line with
  | some text => .ok text
  | none => .error .notUtf8

/-- What is met behind the last line feed. -/
def ending (source : Source) (rest : Bytes) : List Reading :=
  match source.failure with
  | some cause => [.error cause]
  | none => if rest = [] then [] else [read rest]

/-- Everything that a reader meets, in order. It stops at the first failure. -/
def readings (source : Source) : List Reading :=
  let lines := pieces (· == lineFeed) source.data
  lines.dropLast.map (fun line => read (chopReturn line)) ++ source.ending (lines.getLastD [])

end Source

end PlainHeader
