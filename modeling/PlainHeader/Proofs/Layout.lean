import PlainHeader.Proofs.Conversion
import PlainHeader.Proofs.TextLines
import PlainHeader.Proofs.Transcript

/-!
# Layout does not show

A line is trimmed before anything is decided about it, and a line of blanks becomes nothing. So a
transcript depends on the `contents` of its source alone: the lines trimmed, without those that
hold nothing else than blanks. Cutting a text at its line feeds and dropping the carriage return
of each end come to the same contents as cutting it only, because trimming takes a carriage
return too. A blank at either end of a line is not in the contents, and neither is a blank line or
a line feed at the end; every character that is not a blank is.
-/

namespace PlainHeader

namespace Text

/-- Some lines trimmed, without those that are empty then. -/
def trimmedLines (lines : List Text) : List Text := (lines.map trim).filter (· ≠ [])

/-- The lines of a text, trimmed, without those that hold nothing else than blanks. -/
def contents (text : Text) : List Text := trimmedLines (text.splitOn '\n')

theorem trimmedLines_append (front rest : List Text) :
    trimmedLines (front ++ rest) = trimmedLines front ++ trimmedLines rest := by
  rw [trimmedLines, List.map_append, List.filter_append]
  rfl

theorem trimmedLines_cons (line : Text) (lines : List Text) :
    trimmedLines (line :: lines) = trimmedLines [line] ++ trimmedLines lines :=
  trimmedLines_append [line] lines

/-- Only the trimmed lines count. -/
theorem trimmedLines_congr {lines lines' : List Text} (same : lines.map trim = lines'.map trim) :
    trimmedLines lines = trimmedLines lines' := by
  rw [trimmedLines, same, trimmedLines]

theorem trim_chopReturn (line : Text) : trim (chopReturn line) = trim line := by
  unfold chopReturn
  split
  case isTrue returned =>
    obtain ⟨front, rfl⟩ := List.getLast?_eq_some_iff.1 returned
    rw [List.dropLast_concat, trim_concat_blank rfl]
  case isFalse => rfl

/-- The lines that a reader meets have the contents of the text. -/
theorem trimmedLines_lines (text : Text) : trimmedLines (lines text) = contents text := by
  rcases List.eq_nil_or_concat (text.splitOn '\n') with none | ⟨front, rest, split⟩
  · exact absurd none (List.splitOn_ne_nil _ _)
  · have chopped : trimmedLines (front.map chopReturn) = trimmedLines front := by
      apply trimmedLines_congr
      rw [List.map_map]
      exact List.map_congr_left fun line _ => trim_chopReturn line
    have final : trimmedLines (if rest ≠ [] then [rest] else []) = trimmedLines [rest] := by
      split
      case isTrue => rfl
      case isFalse last =>
        rw [not_not.1 last]
        rfl
    simp only [lines, contents, split, List.concat_eq_append, List.dropLast_concat, List.getLastD_concat,
      trimmedLines_append, chopped, final]

/-! ## What is not in the contents -/

variable {c : Char}

theorem contents_append_lineFeed (front rest : Text) : contents (front ++ '\n' :: rest) = contents front ++ contents rest := by
  rw [contents, List.splitOn_append_cons_self, trimmedLines_append]
  rfl

/-- A blank in front of a text is not in its contents. -/
theorem contents_cons_blank (blank : isBlank c = true) (rest : Text) : contents (c :: rest) = contents rest := by
  by_cases feed : c = '\n'
  · rw [feed]
    exact contents_append_lineFeed [] rest
  · obtain ⟨first, others, split⟩ := List.exists_cons_of_ne_nil (List.splitOn_ne_nil '\n' rest)
    have indented : (c :: rest).splitOn '\n' = (c :: first) :: others := by
      rw [List.splitOn_cons_eq_if_modifyHead, if_neg (by simpa using feed), split]
      rfl
    rw [contents, indented, contents, split]
    apply trimmedLines_congr
    rw [List.map_cons, List.map_cons, trim_cons_blank blank]

/-- A blank behind a text is not in its contents. -/
theorem contents_concat_blank (blank : isBlank c = true) (front : Text) : contents (front ++ [c]) = contents front := by
  by_cases feed : c = '\n'
  · rw [feed, contents_append_lineFeed]
    exact List.append_nil _
  by_cases broken : '\n' ∈ front
  · obtain ⟨first, rest, rfl, -⟩ := List.eq_append_cons_of_mem broken
    have shorter := length_lt_append_cons first '\n' rest
    rw [List.append_assoc, List.cons_append, contents_append_lineFeed, contents_append_lineFeed,
      contents_concat_blank blank rest]
  · have unbroken : '\n' ∉ front ++ [c] := by
      simp [broken, Ne.symm feed]
    rw [contents, contents, List.splitOn_eq_singleton unbroken, List.splitOn_eq_singleton broken]
    apply trimmedLines_congr
    rw [List.map_singleton, List.map_singleton, trim_concat_blank blank]
termination_by front.length

/-! ## What is in the contents -/

theorem flatten_splitOn (text : Text) : (text.splitOn '\n').flatten = text.filter (· ≠ '\n') := by
  induction text with
  | nil => rfl
  | cons d rest ih =>
    obtain ⟨first, others, split⟩ := List.exists_cons_of_ne_nil (List.splitOn_ne_nil '\n' rest)
    rw [split] at ih
    rw [List.splitOn_cons_eq_if_modifyHead, split]
    by_cases feed : d = '\n'
    · rw [if_pos (by simpa using feed), List.filter_cons_of_neg (by simpa using feed)]
      exact ih
    · rw [if_neg (by simpa using feed), List.filter_cons_of_pos (by simpa using feed), ← ih]
      rfl

theorem count_trimmedLines (solid : isBlank c = false) (lines : List Text) :
    (trimmedLines lines).flatten.count c = lines.flatten.count c := by
  induction lines with
  | nil => rfl
  | cons line lines ih =>
    have here : (trimmedLines [line]).flatten.count c = line.count c := by
      rw [← count_trim solid line]
      by_cases empty : trim line = [] <;> simp [trimmedLines, empty]
    rw [trimmedLines_cons, List.flatten_append, List.count_append, ih, here, List.flatten_cons, List.count_append]

/-- Every character of a text that is not a blank is in its contents. -/
theorem count_contents (solid : isBlank c = false) (text : Text) : (contents text).flatten.count c = text.count c := by
  have other : c ≠ '\n' := by
    rintro rfl
    cases solid
  rw [contents, count_trimmedLines solid, flatten_splitOn]
  exact List.count_filter (p := fun d => decide (d ≠ '\n')) (decide_eq_true other)

theorem contents_ne_of_solid (solid : isBlank c = false) (front rest : Text) :
    contents (front ++ c :: rest) ≠ contents (front ++ rest) := by
  intro same
  have counts := congrArg (fun lines => lines.flatten.count c) same
  simp [count_contents solid] at counts

end Text

namespace Rules

theorem convert_trim (rules : Rules) (raw : Text) : rules.convert (Text.trim raw) = rules.convert raw := by
  rw [convert, Text.trim_trim, convert]

/-- Trimmed lines become what the lines become, and lines of blanks become nothing. -/
theorem flatMap_convert_trimmedLines (rules : Rules) (lines : List Text) :
    (Text.trimmedLines lines).flatMap rules.convert = lines.flatMap rules.convert := by
  induction lines with
  | nil => rfl
  | cons line lines ih =>
    have here : (Text.trimmedLines [line]).flatMap rules.convert = rules.convert line := by
      by_cases empty : Text.trim line = []
      · have nothing := convert_of_no_token rules (Text.trim_eq_nil_iff.1 empty)
        simp [Text.trimmedLines, empty, nothing]
      · simp [Text.trimmedLines, empty, convert_trim]
    rw [Text.trimmedLines_cons, List.flatMap_append, ih, here, List.flatMap_cons]

theorem rendering_lines (rules : Rules) (text : Text) :
    rules.rendering (Text.lines text) = rules.rendering (Text.contents text) := by
  rw [rendering, ← flatMap_convert_trimmedLines, Text.trimmedLines_lines, rendering]

end Rules

theorem transcribe_encode {sink : Sink} (unlimited : sink.limit = none) (rules : Rules) (labels : Labels) (text : Text) :
    transcribe rules labels { data := Utf8.encode text } sink =
      (sink.append (rules.rendering (Text.contents text)), .ok (Text.lines text).length) := by
  rw [transcribe_of_unlimited unlimited, Source.legible_encode, Source.obstacle_encode, Source.lines_encode,
    List.length_map, Rules.rendering_lines]

/-- Under every table, texts with the same contents have the same transcript, and only the number
    of their lines tells them apart. A blank is not in the contents at the ends of a text or
    beside a line feed; a character beyond ASCII is, wherever it stands. -/
theorem transcribe_layout :
    (∀ (rules : Rules) (labels : Labels) (text text' : Text) (sink : Sink), sink.limit = none →
      Text.contents text = Text.contents text' →
        ∃ sink', transcribe rules labels { data := Utf8.encode text } sink = (sink', .ok (Text.lines text).length) ∧
          transcribe rules labels { data := Utf8.encode text' } sink = (sink', .ok (Text.lines text').length)) ∧
      (∀ c, Text.isBlank c = true → ∀ front rest,
        Text.contents (c :: rest) = Text.contents rest ∧ Text.contents (front ++ [c]) = Text.contents front ∧
          Text.contents (front ++ c :: '\n' :: rest) = Text.contents (front ++ '\n' :: rest) ∧
            Text.contents (front ++ '\n' :: c :: rest) = Text.contents (front ++ '\n' :: rest)) ∧
        ∀ c : Char, 0x80 ≤ c.toNat → ∀ front rest, Text.contents (front ++ c :: rest) ≠ Text.contents (front ++ rest) := by
  refine ⟨?_, ?_, ?_⟩
  · intro rules labels text text' sink unlimited same
    refine ⟨_, transcribe_encode unlimited rules labels text, ?_⟩
    rw [transcribe_encode unlimited, same]
  · intro c blank front rest
    refine ⟨Text.contents_cons_blank blank rest, Text.contents_concat_blank blank front, ?_, ?_⟩
    · have cut := Text.contents_append_lineFeed (front ++ [c]) rest
      rw [List.append_assoc, List.singleton_append, Text.contents_concat_blank blank] at cut
      rw [cut, Text.contents_append_lineFeed]
    · rw [Text.contents_append_lineFeed, Text.contents_cons_blank blank, Text.contents_append_lineFeed]
  · intro c beyond
    have solid : Text.isBlank c = false := Text.not_blank_of (p := fun d => decide (0x80 ≤ d.toNat)) rfl (decide_eq_true beyond)
    exact Text.contents_ne_of_solid solid

/-- Carriage returns, indentation, blank lines and the last line feed do not show. -/
theorem transcribe_layout_returns :
    (({} : Sink).limit = none ∧
        Text.contents "class A;\r\n\r\n\tbool x; \r\n\x0b".toList = Text.contents "  class A;\n bool x;".toList) ∧
      ∀ labels, ∃ sink,
        transcribe Rules.epax labels { data := Utf8.encode "class A;\r\n\r\n\tbool x; \r\n\x0b".toList } ({} : Sink) = (sink, .ok 4) ∧
          transcribe Rules.epax labels { data := Utf8.encode "  class A;\n bool x;".toList } ({} : Sink) = (sink, .ok 2) := by
  have same : Text.contents "class A;\r\n\r\n\tbool x; \r\n\x0b".toList = Text.contents "  class A;\n bool x;".toList := by
    decide
  exact ⟨⟨rfl, same⟩, fun labels => transcribe_layout.1 Rules.epax labels _ _ {} rfl same⟩

end PlainHeader
