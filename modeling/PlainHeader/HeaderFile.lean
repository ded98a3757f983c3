import PlainHeader.Disk.Access
import PlainHeader.Stream.Overwriting

/-!
# Making a header file

The input must be a file, and is opened before the output is emptied. The output begins
with the banner and goes on with what the input becomes; when the work stops early, what
was converted before still reaches the output.
-/

namespace PlainHeader

/-- Writes the banner line and the body, and hands over what waits at the end. What waits
    when the body fails is handed over too. -/
def writeHeader (labels : Labels) (banner : Text) (body : Buffered → Buffered × Except Fault Nat) (sink : Sink) :
    Sink × Except Fault Unit :=
  match Outlet.writeAll ({ sink } : Buffered) (linePieces [banner]) with
  | (out, some cause) => (out.release.1.sink, .error (labels.unwritable cause))
  | (out, none) =>
    match body out with
    | (out, .error fault) => (out.release.1.sink, .error fault)
    | (out, .ok _) =>
      match out.release with
      | (out, some cause) => (out.sink, .error (labels.unwritable cause))
      | (out, none) => (out.sink, .ok ())

/-- The body of a header: what the file at a location becomes. An output that is the
    same file has been emptied, and the reader sees it grow. -/
def headerBody (rules : Rules) (labels : Labels) (location : Location) (source : Source) (target : Target)
    (out : Buffered) : Buffered × Except Fault Nat :=
  if target = .file location then Overwriting.transcribe rules labels out
  else transcribe rules labels source out

/-- The names of the two ends of a header, as far as they are text. -/
def Labels.ofPaths (input output : Bytes) : Labels :=
  { input := Utf8.decodeLossy input, output := Utf8.decodeLossy output }

/-! ## Opening the two files -/

/-- How files are found and opened, on a disk or by the system. -/
structure Files (m : Type → Type) (File Input Output : Type) where
  /-- The file that a path leads to, if it leads to one. -/
  find : Bytes → m (Option File)
  /-- Opens a file to be read. -/
  openFile : File → m (Except Cause Input)
  /-- Opens a path to be written to. A file that it leads to is emptied, and one is made at a free name. -/
  create : Bytes → m (Except Cause Output)

/-- Works between two open files. The first path must lead to a file, and nothing is done to the
    second one before that file is open. -/
def Files.between {m : Type → Type} [Monad m] {File Input Output : Type} (files : Files m File Input Output)
    (work : Input → Output → m (Except Fault Unit)) (input output : Bytes) : m (Except Fault Unit) := do
  match ← files.find input with
  | none => return .error (.noSuchInput input)
  | some file =>
    match ← files.openFile file with
    | .error cause => return .error (.failed ("cannot open ".toList ++ Utf8.decodeLossy input) cause)
    | .ok source =>
      match ← files.create output with
      | .error cause => return .error (.failed ("cannot create ".toList ++ Utf8.decodeLossy output) cause)
      | .ok target => work source target

/-- What becomes of a state when work is done between two files. -/
theorem Files.run_between {σ File Input Output : Type} (files : Files (StateM σ) File Input Output)
    (work : Input → Output → StateM σ (Except Fault Unit)) (input output : Bytes) (s : σ) :
    (files.between work input output).run s =
      match (files.find input).run s with
      | (none, s) => (.error (.noSuchInput input), s)
      | (some file, s) =>
        match (files.openFile file).run s with
        | (.error cause, s) => (.error (.failed ("cannot open ".toList ++ Utf8.decodeLossy input) cause), s)
        | (.ok source, s) =>
          match (files.create output).run s with
          | (.error cause, s) => (.error (.failed ("cannot create ".toList ++ Utf8.decodeLossy output) cause), s)
          | (.ok target, s) => (work source target).run s := by
  rw [between, StateT.run_bind]
  rcases (files.find input).run s with ⟨_ | file, s⟩
  · rfl
  show (files.openFile file >>= _).run s = _
  rw [StateT.run_bind]
  dsimp only
  rcases (files.openFile file).run s with ⟨cause | source, s⟩
  · rfl
  show (files.create output >>= _).run s = _
  rw [StateT.run_bind]
  dsimp only
  rcases (files.create output).run s with ⟨cause | target, s⟩
  · rfl
  · rfl

namespace Disk

/-- A disk is changed by what is created on it, and by nothing else that opens a file. -/
def files : Files (StateM Disk) (Location × Bytes) (Location × Bytes) Target where
  find path := return (← get).file? path
  openFile file := return ((← get).allow .reading file.1 file).mapError .system
  create path := do
    match (← get).target path with
    | .error error => return .error (.system error)
    | .ok target =>
      modify (·.fill [] target)
      return .ok target

/-- What reaches the target of a header, and how the work ends. -/
def headerAt (rules : Rules) (input output : Bytes) (banner : Text) (file : Location × Bytes) (target : Target) :
    Sink × Except Fault Unit :=
  let labels : Labels := .ofPaths input output
  writeHeader labels banner (headerBody rules labels file.1 { data := file.2 } target) target.sink

/-- Fills a target that is open with the header from a file that is open. -/
def fillHeader (rules : Rules) (input output : Bytes) (banner : Text) (file : Location × Bytes) (target : Target) :
    StateM Disk (Except Fault Unit) := do
  let header := headerAt rules input output banner file target
  modify (·.fill header.1.bytes target)
  return header.2

/-- Makes the header at the path `output` from the file at the path `input`. -/
def makeHeader (disk : Disk) (rules : Rules) (input output : Bytes) (banner : Text) : Disk × Except Fault Unit :=
  ((files.between (fillHeader rules input output banner) input output).run disk).swap

section
variable {disk : Disk} {rules : Rules} {input output : Bytes} {banner : Text} {file : Location × Bytes}
  {target : Target} {error : SystemError}

theorem run_find (disk : Disk) (path : Bytes) : (files.find path).run disk = (disk.file? path, disk) := rfl

theorem run_openFile_of_refused (refused : disk.refusal .reading file.1 = some error) :
    (files.openFile file).run disk = (.error (.system error), disk) := by
  simp only [files, StateT.run_bind, StateT.run_get, pure_bind, allow_of_refused refused]
  rfl

theorem run_openFile_of_allowed (readable : disk.refusal .reading file.1 = none) :
    (files.openFile file).run disk = (.ok file, disk) := by
  simp only [files, StateT.run_bind, StateT.run_get, pure_bind, allow_of_allowed readable]
  rfl

theorem run_create_of_error (refused : disk.target output = .error error) :
    (files.create output).run disk = (.error (.system error), disk) := by
  simp only [files, StateT.run_bind, StateT.run_get, pure_bind, refused]
  rfl

theorem run_create_of_ok (opened : disk.target output = .ok target) :
    (files.create output).run disk = (.ok target, disk.fill [] target) := by
  simp only [files, StateT.run_bind, StateT.run_get, pure_bind, opened]
  rfl

theorem run_fillHeader (disk : Disk) :
    (fillHeader rules input output banner file target).run disk =
      ((headerAt rules input output banner file target).2,
        disk.fill (headerAt rules input output banner file target).1.bytes target) := rfl

theorem makeHeader_of_missing (missing : disk.file? input = none) :
    disk.makeHeader rules input output banner = (disk, .error (.noSuchInput input)) := by
  simp only [makeHeader, Files.run_between, run_find, missing, Prod.swap_prod_mk]

theorem makeHeader_of_unopened (found : disk.file? input = some file)
    (refused : disk.refusal .reading file.1 = some error) :
    disk.makeHeader rules input output banner =
      (disk, .error (.failed ("cannot open ".toList ++ Utf8.decodeLossy input) (.system error))) := by
  simp only [makeHeader, Files.run_between, run_find, found, run_openFile_of_refused refused, Prod.swap_prod_mk]

theorem makeHeader_of_uncreated (found : disk.file? input = some file)
    (readable : disk.refusal .reading file.1 = none) (refused : disk.target output = .error error) :
    disk.makeHeader rules input output banner =
      (disk, .error (.failed ("cannot create ".toList ++ Utf8.decodeLossy output) (.system error))) := by
  simp only [makeHeader, Files.run_between, run_find, found, run_openFile_of_allowed readable,
    run_create_of_error refused, Prod.swap_prod_mk]

/-- A header that is begun replaces whatever its target holds. -/
theorem makeHeader_of_opened (found : disk.file? input = some file) (readable : disk.refusal .reading file.1 = none)
    (opened : disk.target output = .ok target) :
    disk.makeHeader rules input output banner =
      (disk.fill (headerAt rules input output banner file target).1.bytes target,
        (headerAt rules input output banner file target).2) := by
  simp only [makeHeader, Files.run_between, run_find, found, run_openFile_of_allowed readable,
    run_create_of_ok opened, run_fillHeader, fill_fill, Prod.swap_prod_mk]

end

end Disk

end PlainHeader
