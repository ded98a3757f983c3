import PlainHeader.Disk.Path
import PlainHeader.Stream.Sink

/-!
# Disks

A disk maps locations to nodes. A location lists names from the innermost outwards, so an
entry of a directory is one name in front of it, and the root is the empty list. The root
is always a directory and is not listed. What is found at a location cannot always be opened:
the disk may refuse it, for reading and for writing apart.
-/

namespace PlainHeader

/-- The names that lead to an entry, innermost first. -/
abbrev Location := List Bytes

/-- A file that the system answers for. -/
inductive Device
  /-- Takes everything and keeps nothing. -/
  | null
  /-- Has no room for a single byte. -/
  | full
  deriving DecidableEq

/-- What stands at a location. -/
inductive Node
  | file (data : Bytes)
  | directory
  | link (target : Bytes)
  | device (device : Device)
  deriving DecidableEq

inductive Purpose
  | reading
  | writing
  deriving DecidableEq

/-- A tree of directories, with the directory where relative paths start. -/
structure Disk where
  /-- The nodes below the root; of two at one location the first counts. -/
  nodes : List (Location × Node) := []
  /-- The current directory. -/
  home : Location := []
  /-- Why what stands at a location, or is to be made there, cannot be opened for a purpose, if it
      cannot. Looking up a path is never refused. -/
  refusal : Purpose → Location → Option SystemError := fun _ _ => none

namespace Disk

def node? (disk : Disk) (location : Location) : Option Node :=
  if location = [] then some .directory else disk.nodes.lookup location

/-- A list with one node replaced, or added at the end. -/
def putIn (location : Location) (node : Node) : List (Location × Node) → List (Location × Node)
  | [] => [(location, node)]
  | entry :: rest =>
    if entry.1 = location then (location, node) :: rest else entry :: putIn location node rest

def put (disk : Disk) (location : Location) (node : Node) : Disk :=
  { disk with nodes := putIn location node disk.nodes }

def clear (disk : Disk) (location : Location) : Disk :=
  { disk with nodes := disk.nodes.filter (·.1 ≠ location) }

def locations (disk : Disk) : List Location := disk.nodes.map (·.1)

theorem lookup_putIn (location other : Location) (node : Node) (nodes : List (Location × Node)) :
    (putIn location node nodes).lookup other = if other = location then some node else nodes.lookup other := by
  induction nodes with
  | nil => by_cases h : other = location <;> simp [putIn, h]
  | cons entry rest ih =>
    obtain ⟨key, value⟩ := entry
    by_cases same : key = location
    · subst same
      by_cases h : other = key <;> simp [putIn, List.lookup_cons, h, beq_eq_false_iff_ne.2]
    · by_cases h : other = key
      · subst h; simp [putIn, same]
      · simp [putIn, List.lookup_cons, same, beq_eq_false_iff_ne.2 h, ih]

/-- A node put below the root is found where it was put, and nothing else has changed. -/
theorem node?_put {location : Location} (h : location ≠ []) (disk : Disk) (node : Node) (other : Location) :
    (disk.put location node).node? other = if other = location then some node else disk.node? other := by
  by_cases root : other = []
  · subst root; simp [node?, Ne.symm h]
  · simp [node?, root, put, lookup_putIn]

/-- Of two nodes put at one location the second counts. -/
theorem put_put (disk : Disk) (location : Location) (old new : Node) :
    (disk.put location old).put location new = disk.put location new := by
  unfold put
  simp only [mk.injEq, and_true]
  induction disk.nodes with
  | nil => simp [putIn]
  | cons entry rest ih =>
    by_cases same : entry.1 = location
    · simp [putIn, same]
    · simp [putIn, same, ih]

end Disk

end PlainHeader
