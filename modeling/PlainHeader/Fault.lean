import PlainHeader.Text.Basic
import PlainHeader.Text.Utf8

/-!
# What can go wrong

A `Cause` is what a reader, a writer or the system answers instead of doing its work. A
`Fault` is what the whole run ends with: a command line that names no two files, an input
that is no file, or a cause together with what was being done.
-/

namespace PlainHeader

/-- A refusal by the file system. -/
inductive SystemError
  | notFound
  | permissionDenied
  | notDirectory
  | isDirectory
  | fileTooLarge
  | noSpace
  | nameTooLong
  | tooManyLinks
  /-- The path holds a NUL, which no file name can. -/
  | nulInPath
  deriving DecidableEq

/-- The text by which the system names a refusal. -/
def SystemError.message : SystemError → Text
  | .notFound => "No such file or directory (os error 2)".toList
  | .permissionDenied => "Permission denied (os error 13)".toList
  | .notDirectory => "Not a directory (os error 20)".toList
  | .isDirectory => "Is a directory (os error 21)".toList
  | .fileTooLarge => "File too large (os error 27)".toList
  | .noSpace => "No space left on device (os error 28)".toList
  | .nameTooLong => "File name too long (os error 36)".toList
  | .tooManyLinks => "Too many levels of symbolic links (os error 40)".toList
  | .nulInPath => "file name contained an unexpected NUL byte".toList

/-- Why an attempt to read or write failed. -/
inductive Cause
  | system (error : SystemError)
  /-- A line of the input is not UTF-8. -/
  | notUtf8
  /-- A reader or writer gave a reason of its own. -/
  | other (text : Text)
  deriving DecidableEq

def Cause.message : Cause → Text
  | .system error => error.message
  | .notUtf8 => "stream did not contain valid UTF-8".toList
  | .other text => text

/-- Why a run has no result. -/
inductive Fault
  /-- The command line does not name two files. -/
  | usage
  /-- The input is not a file. -/
  | noSuchInput (path : Bytes)
  /-- What was being done failed. -/
  | failed (activity : Text) (cause : Cause)
  deriving DecidableEq

namespace Fault

/-- The text of a fault. Paths are shown as text, with replacement characters where they
    are not UTF-8. -/
def message : Fault → Text
  | .usage => "exactly 2 arguments required".toList
  | .noSuchInput path => "file cannot be found: ".toList ++ Utf8.decodeLossy path
  | .failed activity cause => activity ++ ": ".toList ++ cause.message

/-- Whether the fault is reported together with the usage line. -/
def comesWithUsage : Fault → Bool
  | .usage | .noSuchInput _ => true
  | .failed .. => false

/-- The cause beneath a fault, if there is one. -/
def cause? : Fault → Option Cause
  | .failed _ cause => some cause
  | _ => none

end Fault

/-- Zero for a result, one for a fault. -/
def exitCode {α : Type} : Except Fault α → Nat
  | .ok _ => 0
  | .error _ => 1

end PlainHeader
