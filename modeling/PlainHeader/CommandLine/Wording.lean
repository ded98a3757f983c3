import PlainHeader.Disk.Path
import PlainHeader.Fault

/-!
# What the program says

The help and the version go to standard output. A fault is reported in one of two ways:
together with the usage line on standard output, or behind the program's name on standard
error. Reports show the program's name as it was called; the help shows its last part.
-/

namespace PlainHeader.Wording

/-- The program's own name, for when it was called by none. -/
def programName : Text := "c_interface".toList

/-- The name by which the program was called. -/
def calledName (argv : List Bytes) : Text :=
  match argv with
  | [] => programName
  | name :: _ => Utf8.decodeLossy name

/-- The name that the help shows. -/
def shownName (argv : List Bytes) : Text := ((argv.head?.bind Path.lastName).bind Utf8.decode?).getD programName

def help (name : Text) : Text :=
  "c_interface - translate the EPAX C++ interface header into a C header\n\nUsage: ".toList ++ name ++
    (" <CPP_INTERFACE> <C_INTERFACE>\n\nArguments:\n" ++
      "  <CPP_INTERFACE>  EPAX C++ interface header to read\n" ++
      "  <C_INTERFACE>    C header to write, created or truncated\n\nOptions:\n" ++
      "  -h, --help     Print help\n" ++
      "  -V, --version  Print version\n").toList

def version : Text := "c_interface 0.2.2\n".toList

/-- The report of a fault that comes with the usage line. -/
def usageReport (name : Text) (fault : Fault) : Text :=
  "usage: ".toList ++ name ++ " <EPAX_C++_interface> <EPAX_C_interface>\nerror: ".toList ++ fault.message ++ ['\n']

def failureReport (name : Text) (fault : Fault) : Text := name ++ ": ".toList ++ fault.message ++ ['\n']

end PlainHeader.Wording
