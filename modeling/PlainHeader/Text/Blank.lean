import PlainHeader.Text.Basic

/-!
# Blanks, trimming and tokens

Exactly six ASCII characters are blank: space, tab, line feed, vertical tab, form feed
and carriage return. Every other character, a no-break space among them, is text.
-/

namespace PlainHeader.Text

/-- One of the six ASCII blanks. -/
def isBlank (c : Char) : Bool :=
  c = ' ' || c = '\t' || c = '\n' || c = '\x0b' || c = '\x0c' || c = '\r'

def trimStart (text : Text) : Text := text.dropWhile isBlank

def trimEnd (text : Text) : Text := (text.reverse.dropWhile isBlank).reverse

def trim (text : Text) : Text := trimEnd (trimStart text)

/-- The longest runs of characters that are not blank, in reading order. -/
def tokens (text : Text) : List Text := (pieces isBlank text).filter (· ≠ [])

theorem mem_tokens {token text : Text} :
    token ∈ tokens text ↔ token ∈ pieces isBlank text ∧ token ≠ [] := by
  simp [tokens]

theorem not_blank_of_mem_tokens {token text : Text} (h : token ∈ tokens text) :
    token ≠ [] ∧ ∀ c ∈ token, isBlank c = false :=
  ⟨(mem_tokens.1 h).2, not_end_of_mem_pieces (mem_tokens.1 h).1⟩

/-- Tokens never reach across a blank. -/
theorem tokens_append_blank {c : Char} (h : isBlank c = true) (front rest : Text) :
    tokens (front ++ c :: rest) = tokens front ++ tokens rest := by
  simp [tokens, pieces_append_end h]

end PlainHeader.Text
