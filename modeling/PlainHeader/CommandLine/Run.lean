import PlainHeader.Banner
import PlainHeader.CommandLine.Request
import PlainHeader.CommandLine.Wording
import PlainHeader.HeaderFile
import PlainHeader.Rules.Epax

/-!
# A run of the program

A run answers a command line on a disk: it prints the help or the version, or makes a
header. Every fault is reported before it becomes the result. A stream that refuses the
help or the report is a fault of its own, and takes the place of the result.
-/

namespace PlainHeader

/-- Standard output and standard error. -/
structure Console where
  stdout : Sink := {}
  stderr : Sink := {}

structure Outcome where
  disk : Disk
  console : Console
  result : Except Fault Unit

namespace Console

def print (console : Console) (text : Text) : Console × Option Cause :=
  let (stdout, refusal) := console.stdout.writeFlushed (Utf8.encode text)
  ({ console with stdout }, refusal)

def complain (console : Console) (text : Text) : Console × Option Cause :=
  let (stderr, refusal) := console.stderr.writeFlushed (Utf8.encode text)
  ({ console with stderr }, refusal)

/-- Reports a fault where faults of its kind belong. -/
def announce (console : Console) (name : Text) (fault : Fault) : Console × Option Cause :=
  if fault.comesWithUsage then console.print (Wording.usageReport name fault)
  else console.complain (Wording.failureReport name fault)

def inform (console : Console) (text : Text) : Console × Except Fault Unit :=
  match console.print text with
  | (console, none) => (console, .ok ())
  | (console, some cause) => (console, .error (.failed "cannot write to stdout".toList cause))

/-- Reports the fault of a result, if it is one. -/
def conclude (console : Console) (name : Text) : Except Fault Unit → Console × Except Fault Unit
  | .ok () => (console, .ok ())
  | .error fault =>
    match console.announce name fault with
    | (console, none) => (console, .error fault)
    | (console, some cause) => (console, .error (.failed "cannot report error".toList cause))

end Console

/-- Runs the program for a command line, its own name included. -/
def run (argv : List Bytes) (disk : Disk) (console : Console) : Outcome :=
  match Request.ofArguments argv.tail with
  | .help =>
    let (console, result) := console.inform (Wording.help (Wording.shownName argv))
    { disk, console, result }
  | .version =>
    let (console, result) := console.inform Wording.version
    { disk, console, result }
  | .invalid =>
    let (console, result) := console.conclude (Wording.calledName argv) (.error .usage)
    { disk, console, result }
  | .convert input output =>
    let (disk, made) := disk.makeHeader Rules.epax input output (banner argv)
    let (console, result) := console.conclude (Wording.calledName argv) made
    { disk, console, result }

end PlainHeader
