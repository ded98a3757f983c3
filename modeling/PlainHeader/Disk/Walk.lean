import PlainHeader.Disk.Basic

/-!
# Walking along a path

A path is walked step by step from the root or from the current directory. Every step but
the last must lead to a directory, links are followed wherever they stand, and a walk
follows at most forty of them. The last step may name nothing: that is where a file can be
made. Whoever wants to write and ends in a name with a slash behind it is refused, whether
or not the name is taken.
-/

namespace PlainHeader

inductive Spot
  /-- At a node, which is no link. -/
  | taken (location : Location) (node : Node)
  /-- At a name that a directory does not hold. -/
  | free (location : Location)
  deriving DecidableEq

abbrev Walk := Except SystemError Spot

namespace Disk

/-- The longest name of an entry, in bytes. -/
def longestName : Nat := 255

/-- The longest path, in bytes. -/
def longestPath : Nat := 4095

/-- The most links that one walk follows. -/
def mostLinks : Nat := 40

/-- Walks on from a directory. Where a link stands, `follow` goes on from its directory
    along its target and the steps behind it. -/
def walkSteps (disk : Disk) (purpose : Purpose) (follow : Location → Bytes → List Step → Walk) :
    Location → List Step → Walk
  | here, [] => .ok (.taken here .directory)
  | here, .stay :: rest => walkSteps disk purpose follow here rest
  | here, .slash :: rest => walkSteps disk purpose follow here rest
  | here, .up :: rest => walkSteps disk purpose follow here.tail rest
  | here, .name name :: rest =>
    if purpose = .writing ∧ rest = [.slash] then .error .isDirectory
    else if longestName < name.length then .error .nameTooLong
    else
      match disk.node? (name :: here) with
      | none => if rest = [] then .ok (.free (name :: here)) else .error .notFound
      | some .directory => walkSteps disk purpose follow (name :: here) rest
      | some (.link target) => follow here target rest
      | some node => if rest = [] then .ok (.taken (name :: here) node) else .error .notDirectory

/-- The directory where a path starts, if it is met in some directory. -/
def start (here : Location) (path : Bytes) : Location := if Path.isAbsolute path then [] else here

/-- Walks on from a directory, following at most so many links. -/
def walk (disk : Disk) (purpose : Purpose) : Nat → Location → List Step → Walk
  | 0 => disk.walkSteps purpose fun _ _ _ => .error .tooManyLinks
  | links + 1 =>
    disk.walkSteps purpose fun here target rest =>
      disk.walk purpose links (start here target) (Path.steps target ++ rest)

def locate (disk : Disk) (purpose : Purpose) (path : Bytes) : Walk :=
  if path.contains 0 then .error .nulInPath
  else if path = [] then .error .notFound
  else if longestPath < path.length then .error .nameTooLong
  else disk.walk purpose mostLinks (start disk.home path) (Path.steps path)

end Disk

end PlainHeader
