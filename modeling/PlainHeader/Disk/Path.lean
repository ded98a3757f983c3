import PlainHeader.Text.Basic

/-!
# Paths

A path is bytes with slashes between its parts. Empty parts do not count, `.` stays and
`..` goes up. A slash at the end asks for a directory.
-/

namespace PlainHeader

inductive Step
  /-- The part `.`. -/
  | stay
  /-- The part `..`. -/
  | up
  /-- Any other part: the name of an entry. -/
  | name (name : Bytes)
  | slash
  deriving DecidableEq

namespace Path

def slash : UInt8 := 0x2F

def dot : UInt8 := 0x2E

/-- The step of a part that is not empty. -/
def stepOf (part : Bytes) : Step :=
  if part = [dot] then .stay else if part = [dot, dot] then .up else .name part

/-- The steps of a path from the directory where it starts. -/
def steps (path : Bytes) : List Step :=
  let parts := pieces (· == slash) path
  (parts.filter (· ≠ [])).map stepOf ++ if parts.getLast? = some [] then [.slash] else []

def isAbsolute (path : Bytes) : Bool := path.head? == some slash

/-- The name at the end of a path. Slashes and `.` at the end do not count, and a path
    that ends in `..` or has no parts has none. -/
def lastName (path : Bytes) : Option Bytes :=
  match ((steps path).filter fun step => step ≠ .stay ∧ step ≠ .slash).getLast? with
  | some (.name name) => some name
  | _ => none

end Path

end PlainHeader
