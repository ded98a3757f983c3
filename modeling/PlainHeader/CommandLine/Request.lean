import PlainHeader.Text.Utf8

/-!
# What a command line asks for

Arguments are read from left to right, and the first one that settles the request wins.
`--help`, and anything that starts with `-h`, asks for the help; `--version` and `-V`
likewise for the version. Any other argument that starts with a dash is an error, except
`-` alone, which names a file, and the first `--`, behind which every argument names a
file. A name must not be empty, and there are exactly two.
-/

namespace PlainHeader

inductive Request
  | help
  | version
  /-- A header to make. -/
  | convert (input output : Bytes)
  /-- Nothing that can be done. -/
  | invalid
  deriving DecidableEq

namespace Request

/-- The bytes of an option as it is written. -/
def option (text : String) : Bytes := Utf8.encode text.toList

/-- Asks for the help: the long option as a whole, or short options beginning with `h`. -/
def isHelp (argument : Bytes) : Bool := argument == option "--help" || (option "-h").isPrefixOf argument

/-- Asks for the version, in the same two ways. -/
def isVersion (argument : Bytes) : Bool := argument == option "--version" || (option "-V").isPrefixOf argument

/-- Starts with a dash and is not the dash alone. -/
def isOption (argument : Bytes) : Bool := (option "-").isPrefixOf argument && argument != option "-"

/-- Reads the arguments from left to right, with the names found so far. `literal` tells
    whether `--` has been read, so that every argument is a name. -/
def scan (literal : Bool) (names : List Bytes) : List Bytes → Request
  | [] =>
    match names with
    | [input, output] => .convert input output
    | _ => .invalid
  | argument :: rest =>
    if !literal && argument == option "--" then scan true names rest
    else if !literal && isHelp argument then .help
    else if !literal && isVersion argument then .version
    else if !literal && isOption argument then .invalid
    else if argument = [] ∨ names.length = 2 then .invalid
    else scan literal (names ++ [argument]) rest

/-- The request of the arguments behind the program's name. -/
def ofArguments (arguments : List Bytes) : Request := scan false [] arguments

end Request

end PlainHeader
