import PlainHeader.Disk.Walk

/-!
# Reading and writing by path

Only a regular file can be read from. A path can be written to when it leads to a file, to
a device, or to a free name; the file is emptied, and whatever is written replaces it. Both
are up to the disk as well, which may refuse to open what a path leads to.
-/

namespace PlainHeader

/-- What a path leads to that is opened for writing. -/
inductive Target
  /-- A regular file, old or new. -/
  | file (location : Location)
  | device (device : Device)
  deriving DecidableEq

/-- The sink behind a target: files take everything, devices do as they are made. -/
def Target.sink : Target → Sink
  | .file _ => {}
  | .device .null => {}
  | .device .full => { limit := some 0, full := .system .noSpace }

namespace Disk

/-- The file that a path leads to, with its location. -/
def file? (disk : Disk) (path : Bytes) : Option (Location × Bytes) :=
  match disk.locate .reading path with
  | .ok (.taken location (.file data)) => some (location, data)
  | _ => none

/-- Opens what stands at a location, unless the disk refuses that. -/
def allow {α : Type} (disk : Disk) (purpose : Purpose) (location : Location) (opened : α) : Except SystemError α :=
  match disk.refusal purpose location with
  | some error => .error error
  | none => .ok opened

/-- The target that a path leads to, or the reason why it cannot be written to. -/
def target (disk : Disk) (path : Bytes) : Except SystemError Target :=
  match disk.locate .writing path with
  | .ok (.taken _ .directory) => .error .isDirectory
  | .ok (.taken location (.device device)) => disk.allow .writing location (.device device)
  | .ok (.taken location _) => disk.allow .writing location (.file location)
  | .ok (.free location) => disk.allow .writing location (.file location)
  | .error error => .error error

/-- Replaces the contents of a target. A device keeps nothing. -/
def fill (disk : Disk) (data : Bytes) : Target → Disk
  | .file location => disk.put location (.file data)
  | .device _ => disk

theorem fill_fill (disk : Disk) (target : Target) (old new : Bytes) :
    (disk.fill old target).fill new target = disk.fill new target := by
  cases target with
  | file location => exact put_put disk location _ _
  | device device => rfl

@[simp] theorem refusal_fill (disk : Disk) (data : Bytes) (target : Target) :
    (disk.fill data target).refusal = disk.refusal := by
  cases target <;> rfl

section
variable {α : Type} {disk : Disk} {purpose : Purpose} {location : Location}

theorem allow_of_refused {error : SystemError} (refused : disk.refusal purpose location = some error) (opened : α) :
    disk.allow purpose location opened = .error error := by
  simp [allow, refused]

theorem allow_eq_ok_iff {opened found : α} :
    disk.allow purpose location opened = .ok found ↔ disk.refusal purpose location = none ∧ opened = found := by
  cases refused : disk.refusal purpose location <;> simp [allow, refused]

theorem allow_of_allowed (allowed : disk.refusal purpose location = none) (opened : α) :
    disk.allow purpose location opened = .ok opened := allow_eq_ok_iff.2 ⟨allowed, rfl⟩

end

end Disk

end PlainHeader
