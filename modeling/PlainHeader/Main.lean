import PlainHeader.CommandLine.Run

/-!
# The program

The command line on the files of the system. In which order they are opened, what is written
and what is reported is laid down by the library; here stands how the system finds, opens, reads
and writes a file. Where a file really is tells whether the output is the input.
-/

namespace PlainHeader.Program

/-- The number that the system gives to a refusal. -/
def errorNumber : IO.Error → Option UInt32
  | .alreadyExists _ n _ | .otherError n _ | .resourceBusy n _ | .resourceVanished n _
  | .unsupportedOperation n _ | .hardwareFault n _ | .unsatisfiedConstraints n _ | .illegalOperation n _
  | .protocolError n _ | .timeExpired n _ | .interrupted _ n _ | .noFileOrDirectory _ n _
  | .invalidArgument _ n _ | .permissionDenied _ n _ | .resourceExhausted _ n _ | .inappropriateType _ n _
  | .noSuchThing _ n _ => some n
  | .unexpectedEof | .userError _ => none

/-- The cause behind a refusal by the system. -/
def causeOf (error : IO.Error) : Cause :=
  match errorNumber error with
  | some 2 => .system .notFound
  | some 13 => .system .permissionDenied
  | some 20 => .system .notDirectory
  | some 21 => .system .isDirectory
  | some 27 => .system .fileTooLarge
  | some 28 => .system .noSpace
  | some 36 => .system .nameTooLong
  | some 40 => .system .tooManyLinks
  | _ => .other (toString error).toList

/-- Tries an action, and keeps the cause if it is refused. -/
def attempt {α : Type} (action : IO α) : IO (Except Cause α) := do
  try return .ok (← action) catch error => return .error (causeOf error)

/-- The location that a path really leads to. -/
def locationOf (path : String) : IO Location := do
  let real ← IO.FS.realPath path
  return ((pieces (· == Path.slash) (Utf8.encode real.toString.toList)).filter (· ≠ [])).reverse

/-- The files of the system. What is open keeps the location where it was found. -/
def files : Files IO (String × Location) (IO.FS.Handle × Location) (IO.FS.Handle × Target) where
  find path := do
    let name := String.ofList (Utf8.decodeLossy path)
    try
      let real ← IO.FS.realPath name
      if (← real.metadata).type matches .file then return some (name, ← locationOf name) else return none
    catch _ => return none
  openFile file := attempt do return (← IO.FS.Handle.mk file.1 .read, file.2)
  create path := attempt do
    let name := String.ofList (Utf8.decodeLossy path)
    let handle ← IO.FS.Handle.mk name .write
    return (handle, .file (← locationOf name))

def readAll (handle : IO.FS.Handle) : IO Source := do
  match ← attempt handle.readBinToEnd with
  | .ok data => return { data := data.toList }
  | .error cause => return { data := [], failure := some cause }

/-- Fills an open output with the header from an open input. A refusal to write is that of a sink
    without room. -/
def fillHeader (input output : Bytes) (banner : Text) (source : IO.FS.Handle × Location)
    (target : IO.FS.Handle × Target) : IO (Except Fault Unit) := do
  let labels : Labels := .ofPaths input output
  let header := writeHeader labels banner (headerBody Rules.epax labels source.2 (← readAll source.1) target.2)
  let (sink, result) := header {}
  match ← attempt (do target.1.write ⟨sink.taken⟩; target.1.flush) with
  | .ok () => return result
  | .error cause => return (header { limit := some 0, full := cause }).2

/-- Makes the header at one path from the file at another. -/
def makeHeader (input output : Bytes) (banner : Text) : IO (Except Fault Unit) :=
  files.between (fillHeader input output banner) input output

/-- Writes out what a run has left on the console. A stream that refuses it is a fault. -/
def deliver (console : Console) (result : Except Fault Unit) : IO UInt32 := do
  let print (stream : IO.FS.Stream) (bytes : Bytes) : IO Unit :=
    unless bytes.isEmpty do stream.write ⟨bytes.toArray⟩; stream.flush
  match ← attempt (do print (← IO.getStdout) console.stdout.bytes; print (← IO.getStderr) console.stderr.bytes) with
  | .ok () => return UInt32.ofNat (exitCode result)
  | .error _ => return 1

/-- Runs the program for its own name and its arguments. -/
def start (name : String) (arguments : List String) : IO UInt32 := do
  let argv := (name :: arguments).map fun argument => Utf8.encode argument.toList
  match Request.ofArguments argv.tail with
  | .convert input output =>
    let made ← makeHeader input output (banner argv)
    let (console, result) := ({} : Console).conclude (Wording.calledName argv) made
    deliver console result
  | _ =>
    let outcome := run argv {} {}
    deliver outcome.console outcome.result

end PlainHeader.Program

def main (arguments : List String) : IO UInt32 := do
  PlainHeader.Program.start (← IO.appPath).toString arguments
