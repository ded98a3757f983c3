import PlainHeader.Text.Blank

/-!
# Shapes of lines

What becomes of a line is decided by its tokens, before any rule of the table touches it.
-/

namespace PlainHeader

/-- What a line is, by its tokens. -/
inductive LineShape
  /-- No token. -/
  | blank
  /-- The first token is `class`. -/
  | classDecl
  /-- The first token is `typedef`; with three tokens the last one is the declared name. -/
  | typedefDecl (name : Option Text)
  /-- The first token is `//`. -/
  | comment
  /-- The first token is `/**`. -/
  | blockComment
  /-- The second token is `//`. -/
  | inlineComment
  /-- The line starts with `*`, as the body of a block comment does. -/
  | continuation
  /-- Any other line. -/
  | ordinary
  deriving DecidableEq

namespace LineShape

/-- The name that a `typedef` declares, given the tokens behind that word. -/
def declaredName : List Text → Option Text
  | [_, name] => some name
  | _ => none

/-- The shape of a line with these tokens. The first rule that fits decides. -/
def ofTokens (starred : Bool) : List Text → LineShape
  | [] => .blank
  | head :: rest =>
    if head = "class".toList then .classDecl
    else if head = "typedef".toList then .typedefDecl (declaredName rest)
    else if head = "//".toList then .comment
    else if head = "/**".toList then .blockComment
    else if rest.head? = some "//".toList then .inlineComment
    else if starred then .continuation
    else .ordinary

/-- The shape of a line. A blank in front of a `*` hides it: callers trim first. -/
def ofLine (line : Text) : LineShape := ofTokens (line.head? == some '*') (Text.tokens line)

end LineShape

end PlainHeader
