import PlainHeader.Text.Blank
import Mathlib.Data.List.DropRight
import Mathlib.Data.List.TakeWhile

/-!
# Trimming keeps the tokens

Trimming takes blanks from both ends and nothing else, so the tokens of a line are those of
the line trimmed. A trimmed line does not start with a blank: it is empty without tokens, and
else its first token starts with its first character.
-/

namespace PlainHeader.Text

theorem isBlank_iff {c : Char} : isBlank c = true ↔ c ∈ [' ', '\t', '\n', '\x0b', '\x0c', '\r'] := by
  simp [isBlank, or_assoc]

/-- A character of a class to which none of the six blanks belongs is not blank. -/
theorem not_blank_of {p : Char → Bool} (apart : [' ', '\t', '\n', '\x0b', '\x0c', '\r'].any p = false) {c : Char}
    (belongs : p c = true) : isBlank c = false := by
  by_contra blank
  rw [Bool.not_eq_false, isBlank_iff] at blank
  exact List.any_eq_false.1 apart c blank belongs

theorem trimEnd_eq (text : Text) : trimEnd text = text.rdropWhile isBlank := rfl

theorem tokens_cons_blank {c : Char} (blank : isBlank c = true) (rest : Text) : tokens (c :: rest) = tokens rest :=
  tokens_append_blank blank [] rest

theorem tokens_trimStart (text : Text) : tokens (trimStart text) = tokens text := by
  induction text with
  | nil => rfl
  | cons c rest ih =>
    by_cases blank : isBlank c = true
    · rw [tokens_cons_blank blank, ← ih, trimStart, List.dropWhile_cons_of_pos blank, trimStart]
    · rw [trimStart, List.dropWhile_cons_of_neg blank]

theorem tokens_trimEnd (text : Text) : tokens (trimEnd text) = tokens text := by
  induction text using List.reverseRecOn with
  | nil => rfl
  | append_singleton front c ih =>
    by_cases blank : isBlank c = true
    · rw [trimEnd_eq, List.rdropWhile_concat_pos _ _ _ blank, ← trimEnd_eq, ih, tokens_append_blank blank front []]
      exact (List.append_nil _).symm
    · rw [trimEnd_eq, List.rdropWhile_concat_neg _ _ _ blank]

theorem tokens_trim (text : Text) : tokens (trim text) = tokens text := by
  rw [trim, tokens_trimEnd, tokens_trimStart]

theorem trim_cons_blank {c : Char} (blank : isBlank c = true) (rest : Text) : trim (c :: rest) = trim rest := by
  rw [trim, trimStart, List.dropWhile_cons_of_pos blank]
  rfl

/-- A text that neither starts nor ends with a blank is trimmed. -/
theorem trim_eq_self {text : Text} (first : ∀ c, text.head? = some c → isBlank c = false)
    (last : ∀ c, text.getLast? = some c → isBlank c = false) : trim text = text := by
  have started : trimStart text = text := by
    cases text with
    | nil => rfl
    | cons c rest => exact List.dropWhile_cons_of_neg (by simp [first c rfl])
  rw [trim, started, trimEnd_eq, List.rdropWhile_eq_self_iff]
  intro nonempty
  simp [last _ (List.getLast?_eq_some_getLast nonempty)]

theorem not_blank_of_trim {text rest : Text} {c : Char} (trimmed : trim text = c :: rest) : isBlank c = false := by
  obtain ⟨dropped, split⟩ : trim text <+: trimStart text := List.rdropWhile_prefix _ _
  have started : (text.dropWhile isBlank).head? = some c := by
    rw [← trimStart, ← split, trimmed]
    rfl
  simpa [started] using List.head?_dropWhile_not isBlank text

theorem not_blank_of_head?_trim {text : Text} {c : Char} (starts : (trim text).head? = some c) : isBlank c = false := by
  obtain ⟨rest, trimmed⟩ := List.head?_eq_some_iff.1 starts
  exact not_blank_of_trim trimmed

/-- A trimmed text does not end with a blank either. -/
theorem not_blank_of_getLast?_trim {text : Text} {c : Char} (ends : (trim text).getLast? = some c) : isBlank c = false := by
  rw [trim, trimEnd_eq] at ends
  have nonempty : (trimStart text).rdropWhile isBlank ≠ [] := by
    intro empty
    simp [empty] at ends
  have solid := List.rdropWhile_last_not isBlank (trimStart text) nonempty
  rw [List.getLast?_eq_some_getLast nonempty, Option.some.injEq] at ends
  rw [ends] at solid
  simpa using solid

theorem trim_infix (text : Text) : trim text <:+: text :=
  (List.rdropWhile_prefix _ _).isInfix.trans (List.dropWhile_suffix _).isInfix

theorem trim_trim (text : Text) : trim (trim text) = trim text :=
  trim_eq_self (fun _ => not_blank_of_head?_trim) (fun _ => not_blank_of_getLast?_trim)

theorem trim_concat_blank {c : Char} (blank : isBlank c = true) (front : Text) : trim (front ++ [c]) = trim front := by
  rw [trim, trim, trimStart, trimStart, List.dropWhile_append]
  split
  case isTrue empty =>
    rw [List.isEmpty_iff.1 empty, List.dropWhile_cons_of_pos blank]
    rfl
  case isFalse => rw [trimEnd_eq, List.rdropWhile_concat_pos _ _ _ blank, trimEnd_eq]

/-- What is trimmed off a text is blank. -/
theorem count_trim {c : Char} (solid : isBlank c = false) (text : Text) : (trim text).count c = text.count c := by
  have unblank {part : Text} (blank : ∀ d ∈ part, isBlank d = true) : part.count c = 0 := by
    rw [List.count_eq_zero]
    intro inside
    simp [blank c inside] at solid
  have front := congrArg (List.count c) (List.takeWhile_append_dropWhile (p := isBlank) (l := text))
  have back := congrArg (List.count c) (List.rdropWhile_append_rtakeWhile (p := isBlank) (l := trimStart text))
  rw [List.count_append, unblank fun d => List.mem_takeWhile_imp] at front
  rw [List.count_append, unblank fun d => List.mem_rtakeWhile_imp] at back
  rw [trim, trimEnd_eq, ← front, Nat.zero_add]
  exact back

theorem head?_tokens_cons {c : Char} (solid : isBlank c = false) (rest : Text) :
    ∃ token, (tokens (c :: rest)).head? = some (c :: token) := by
  refine ⟨(cut isBlank rest).1, ?_⟩
  rw [tokens, pieces_cons solid]
  simp

/-- A trimmed text starts as its first token does. -/
theorem head?_trim {text token : Text} (first : (tokens text).head? = some token) :
    (trim text).head? = token.head? := by
  rw [← tokens_trim] at first
  cases trimmed : trim text with
  | nil => simp [trimmed, tokens] at first
  | cons c rest =>
    obtain ⟨more, starts⟩ := head?_tokens_cons (not_blank_of_trim trimmed) rest
    rw [trimmed, starts] at first
    obtain rfl := Option.some.inj first
    rfl

theorem trim_eq_nil_iff {text : Text} : trim text = [] ↔ tokens text = [] := by
  constructor
  · intro empty
    rw [← tokens_trim, empty]
    rfl
  · intro tokenless
    cases trimmed : trim text with
    | nil => rfl
    | cons c rest =>
      obtain ⟨token, starts⟩ := head?_tokens_cons (not_blank_of_trim trimmed) rest
      rw [← trimmed, tokens_trim, tokenless] at starts
      cases starts

end PlainHeader.Text
