import PlainHeader.Disk.Access

/-!
# Building and listing a disk

The operations by which a tree of directories is set up and looked at: files, directories
with their parents, links, removal, and the list of everything below the current
directory in the order of the bytes of its path.
-/

namespace PlainHeader.Disk

/-- The location that a path names, without following a link at its end. -/
def entry? (disk : Disk) (path : Bytes) : Option Location :=
  let steps := (Path.steps path).filter (· ≠ .slash)
  match steps.getLast?, disk.walk .reading mostLinks (start disk.home path) steps.dropLast with
  | some (.name name), .ok (.taken directory .directory) => some (name :: directory)
  | _, _ => none

/-- Writes a file by path, through links. -/
def writeFile (disk : Disk) (path data : Bytes) : Disk :=
  match disk.target path with
  | .ok target => disk.fill data target
  | .error _ => disk

/-- Makes a link; what stood there before is gone. -/
def makeLink (disk : Disk) (path target : Bytes) : Disk :=
  match disk.entry? path with
  | some location => disk.put location (.link target)
  | none => disk

/-- Removes an entry; a link is removed itself. -/
def remove (disk : Disk) (path : Bytes) : Disk :=
  match disk.entry? path with
  | some location => disk.clear location
  | none => disk

/-- Makes the directory that one walk after another finds missing. -/
def makeDirectoryAlong (disk : Disk) (origin : Location) (taken : List Step) : List Step → Disk
  | [] => disk
  | step :: rest =>
    let along := taken ++ [step]
    match disk.walk .reading mostLinks origin along with
    | .ok (.free location) => makeDirectoryAlong (disk.put location .directory) origin along rest
    | _ => makeDirectoryAlong disk origin along rest

def makeDirectory (disk : Disk) (path : Bytes) : Disk :=
  disk.makeDirectoryAlong (start disk.home path) [] (Path.steps path)

/-- The path of a location from the directory with so many names. -/
def pathFrom (depth : Nat) (location : Location) : Bytes :=
  [Path.slash].intercalate (location.take (location.length - depth)).reverse

/-- Whether the bytes of one path come before those of another. -/
def pathBefore (a b : Bytes × Node) : Bool := !(b.1 < a.1)

def listing (disk : Disk) : List (Bytes × Node) :=
  let below := disk.nodes.filter fun entry => disk.home.isSuffixOf entry.1 && entry.1 != disk.home
  (below.map fun entry => (pathFrom disk.home.length entry.1, entry.2)).mergeSort pathBefore

end PlainHeader.Disk
