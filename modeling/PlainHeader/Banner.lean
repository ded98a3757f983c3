import PlainHeader.Text.Utf8

/-!
# The banner

The first line of a generated header is a C comment that records the command line.
-/

namespace PlainHeader

def commandLine (argv : List Bytes) : Text := [' '].intercalate (argv.map Utf8.decodeLossy)

/-- The comment that records how a header was made. -/
def banner (argv : List Bytes) : Text :=
  "/* automatically generated via `".toList ++ commandLine argv ++ "' */".toList

end PlainHeader
