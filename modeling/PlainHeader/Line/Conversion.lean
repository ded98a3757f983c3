import PlainHeader.Line.Shape
import PlainHeader.Rules.Basic

/-!
# Conversion of one line

A line of the C++ header becomes zero or more lines of the C header. Declarations of
classes vanish, a `typedef` with a name becomes an opaque pointer type, comment lines
become empty lines, and everything else takes the C spelling of the table. The body of a
block comment is indented by one space, judged by the C spelling.
-/

namespace PlainHeader

/-- The declaration of an opaque pointer type under the C name of `name`. -/
def pointerTypedef (name : Text) : Text := "typedef void* ".toList ++ cName name

/-- One space in front of a text that starts with `*`. -/
def indentStar (text : Text) : Text := if text.head? = some '*' then ' ' :: text else text

/-- The lines in which the C spelling of a line of some shape is laid out. -/
def LineShape.layOut (text : Text) : LineShape → List Text
  | .comment => [[]]
  | .blockComment => [[], text]
  | .inlineComment => [text]
  | _ => [indentStar text]

namespace Rules

/-- The lines that a trimmed line of some shape becomes. -/
def convertShape (rules : Rules) (line : Text) : LineShape → List Text
  | .blank | .classDecl | .typedefDecl none => []
  | .typedefDecl (some name) => [pointerTypedef name]
  | shape => if rules.drops (rules.respell line) then [] else shape.layOut (rules.respell line)

/-- The lines that a raw line becomes, without their line ends. A replacement may itself
    hold line feeds, so one of them may be several lines of the C header. -/
def convert (rules : Rules) (raw : Text) : List Text :=
  rules.convertShape (Text.trim raw) (LineShape.ofLine (Text.trim raw))

end Rules

end PlainHeader
