import PlainHeader.Proofs.Lines

/-!
# The lines of a text

A line feed and a carriage return are bytes of their own and part of no other character, so
that cutting the bytes of a text into lines is cutting the text. All its lines are legible:
a reader meets `Text.lines` and nothing that stops it. Conversely bytes all of whose lines are
legible are those of a text.
-/

namespace PlainHeader

namespace Text

/-- What stands behind an element is shorter than the whole. -/
theorem length_lt_append_cons {α : Type} (front : List α) (x : α) (rest : List α) : rest.length < (front ++ x :: rest).length := by
  simp only [List.length_append, List.length_cons]
  omega

/-- A line without the carriage return of its end. -/
def chopReturn (line : Text) : Text := if line.getLast? = some '\r' then line.dropLast else line

/-- The lines of a text, without their ends. What follows the last line feed is one unless it
    is empty. -/
def lines (text : Text) : List Text :=
  let segments := text.splitOn '\n'
  let rest := segments.getLastD []
  segments.dropLast.map chopReturn ++ if rest ≠ [] then [rest] else []

theorem chopReturn_eq_self {line : Text} (kept : line.getLast? ≠ some '\r') : chopReturn line = line := if_neg kept

/-- Lines with a line feed behind each are the lines of the whole. -/
theorem lines_flatMap {lines : List Text} (unbroken : ∀ line ∈ lines, '\n' ∉ line)
    (kept : ∀ line ∈ lines, line.getLast? ≠ some '\r') : Text.lines (lines.flatMap (· ++ ['\n'])) = lines := by
  have split : (lines.flatMap (· ++ ['\n'])).splitOn '\n' = lines ++ [[]] := by
    clear kept
    induction lines with
    | nil => rfl
    | cons line lines ih =>
      rw [List.flatMap_cons, List.append_assoc, List.singleton_append,
        List.splitOn_append_cons_self_of_not_mem (unbroken line List.mem_cons_self),
        ih fun other h => unbroken other (List.mem_cons_of_mem line h)]
      rfl
  have chopped : lines.map chopReturn = lines := by
    rw [List.map_congr_left fun line member => chopReturn_eq_self (kept line member)]
    exact List.map_id' lines
  simp [Text.lines, split, chopped]

end Text

namespace Utf8

/-- An ASCII character stands in a text where its byte stands in the bytes. -/
theorem mem_encode_iff {c : Char} {b : UInt8} (ascii : Ascii [c]) (encoded : encode [c] = [b]) {text : Text} :
    b ∈ encode text ↔ c ∈ text := by
  constructor
  · intro member
    have stands : encode [c] <:+: encode text := by rwa [encoded, List.singleton_infix_iff]
    have stands' : [c] <:+: text := infix_of_encode_infix ascii (List.cons_ne_nil c []) stands
    exact (List.singleton_infix_iff c text).1 stands'
  · intro member
    obtain ⟨front, rest, rfl⟩ := List.append_of_mem member
    rw [← List.singleton_append, encode_append, encode_append, encoded]
    simp

theorem lineFeed_mem_encode_iff {text : Text} : Source.lineFeed ∈ encode text ↔ '\n' ∈ text :=
  mem_encode_iff (by decide) (by decide)

theorem encode_eq_nil_iff {text : Text} : encode text = [] ↔ text = [] := by
  cases text <;> simp [String.utf8EncodeChar_ne_nil]

theorem splitOn_encode (text : Text) : (encode text).splitOn Source.lineFeed = (text.splitOn '\n').map encode := by
  by_cases broken : '\n' ∈ text
  · obtain ⟨front, rest, rfl, unbroken⟩ := List.eq_append_cons_of_mem broken
    have shorter := Text.length_lt_append_cons front '\n' rest
    have feed : encode ('\n' :: rest) = Source.lineFeed :: encode rest := rfl
    rw [encode_append, feed, List.splitOn_append_cons_self_of_not_mem (mt lineFeed_mem_encode_iff.1 unbroken),
      List.splitOn_append_cons_self_of_not_mem unbroken, splitOn_encode rest, List.map_cons]
  · rw [List.splitOn_eq_singleton broken, List.splitOn_eq_singleton (mt lineFeed_mem_encode_iff.1 broken)]
    rfl
termination_by text.length

theorem getLast?_encode_iff {text : Text} :
    (encode text).getLast? = some Source.carriageReturn ↔ text.getLast? = some '\r' := by
  rcases List.eq_nil_or_concat text with rfl | ⟨front, c, rfl⟩
  · decide
  · have final : (encode (front ++ [c])).getLast? = (encode [c]).getLast? := by
      rw [encode_append, List.getLast?_append_of_ne_nil]
      simp [String.utf8EncodeChar_ne_nil]
    rw [List.concat_eq_append, final, List.getLast?_concat, Option.some.injEq]
    constructor
    · intro last
      have member : Source.carriageReturn ∈ encode [c] := List.mem_of_getLast? last
      exact (List.mem_singleton.1 ((mem_encode_iff (by decide) (by decide)).1 member)).symm
    · rintro rfl
      decide

theorem chopReturn_encode (line : Text) : Source.chopReturn (encode line) = encode (Text.chopReturn line) := by
  unfold Source.chopReturn Text.chopReturn
  simp only [getLast?_encode_iff]
  split
  case isTrue returned =>
    obtain ⟨front, rfl⟩ := List.getLast?_eq_some_iff.1 returned
    have feed : encode ['\r'] = [Source.carriageReturn] := by decide
    rw [encode_append, feed, List.dropLast_concat, List.dropLast_concat]
  case isFalse => rfl

end Utf8

namespace Source

theorem lines_encode (text : Text) : lines { data := Utf8.encode text } = (Text.lines text).map Utf8.encode := by
  unfold lines Text.lines
  simp only [Utf8.splitOn_encode, true_and]
  rcases List.eq_nil_or_concat (text.splitOn '\n') with none | ⟨front, rest, split⟩
  · exact absurd none (List.splitOn_ne_nil _ _)
  · have chopped : chopReturn ∘ Utf8.encode = Utf8.encode ∘ Text.chopReturn := funext Utf8.chopReturn_encode
    by_cases last : rest = []
    · simp [split, last, chopped]
    · simp [split, last, chopped, Utf8.encode_eq_nil_iff]

theorem textsOf_map_encode (texts : List Text) : textsOf (texts.map Utf8.encode) = texts := by
  induction texts with
  | nil => rfl
  | cons text texts ih => rw [List.map_cons, textsOf_cons, ih]

theorem stopOf_map_encode (texts : List Text) (failure : Option Cause) :
    stopOf (texts.map Utf8.encode) failure = failure := by
  induction texts with
  | nil => simp [stopOf]
  | cons text texts ih => rw [List.map_cons, stopOf_cons, ih]

theorem legible_encode (text : Text) : legible { data := Utf8.encode text } = Text.lines text := by
  rw [legible, lines_encode, textsOf_map_encode]

theorem obstacle_encode (text : Text) : obstacle { data := Utf8.encode text } = none := by
  rw [obstacle, lines_encode, stopOf_map_encode]

end Source

namespace Utf8

theorem valid_append {front rest : Bytes} (valid : Valid front) (valid' : Valid rest) : Valid (front ++ rest) := by
  obtain ⟨text, rfl⟩ := valid
  obtain ⟨text', rfl⟩ := valid'
  exact ⟨text ++ text', encode_append text text'⟩

theorem valid_intercalate {separator : Bytes} {segments : List Bytes} (valid : Valid separator)
    (valids : ∀ segment ∈ segments, Valid segment) : Valid (separator.intercalate segments) := by
  induction segments with
  | nil => exact ⟨[], rfl⟩
  | cons segment rest ih =>
    have later := ih fun other member => valids other (List.mem_cons_of_mem segment member)
    have first := valids segment List.mem_cons_self
    cases rest with
    | nil => simpa [List.intercalate] using first
    | cons next rest =>
      have glued : separator.intercalate (segment :: next :: rest) =
          segment ++ (separator ++ separator.intercalate (next :: rest)) := by
        simp [List.intercalate]
      rw [glued]
      exact valid_append first (valid_append valid later)

end Utf8

namespace Source

theorem valid_of_chopReturn {line : Bytes} (valid : Utf8.Valid (chopReturn line)) : Utf8.Valid line := by
  unfold chopReturn at valid
  split at valid
  case isTrue returned =>
    obtain ⟨front, rfl⟩ := List.getLast?_eq_some_iff.1 returned
    rw [List.dropLast_concat] at valid
    exact Utf8.valid_append valid ⟨['\r'], by decide⟩
  case isFalse => exact valid

/-- Bytes are those of a text when all of their lines are. -/
theorem valid_of_lines {data : Bytes} (valid : ∀ line ∈ lines { data }, Utf8.Valid line) : Utf8.Valid data := by
  have segments : ∀ segment ∈ data.splitOn lineFeed, Utf8.Valid segment := by
    rcases List.eq_nil_or_concat (data.splitOn lineFeed) with none | ⟨front, rest, split⟩
    · exact absurd none (List.splitOn_ne_nil _ _)
    · simp only [lines, split, List.concat_eq_append, List.dropLast_concat, true_and, List.mem_append, List.mem_map] at valid
      intro segment member
      rw [split, List.concat_eq_append] at member
      rcases List.mem_append.1 member with inner | last
      · exact valid_of_chopReturn (valid _ (.inl ⟨segment, inner, rfl⟩))
      · obtain rfl := List.mem_singleton.1 last
        by_cases empty : segment = []
        · exact ⟨[], empty ▸ rfl⟩
        · exact valid segment (.inr (by simp [empty]))
  have glued : [lineFeed].intercalate (data.splitOn lineFeed) = data := List.intercalate_splitOn _
  rw [← glued]
  exact Utf8.valid_intercalate ⟨['\n'], by decide⟩ segments

/-- A reader that comes to the end has read a text. -/
theorem valid_of_obstacle {data : Bytes} (unstopped : obstacle { data } = none) : Utf8.Valid data := by
  unfold obstacle stopOf at unstopped
  split at unstopped
  case isTrue legible => exact valid_of_lines legible
  case isFalse => cases unstopped

end Source

end PlainHeader
