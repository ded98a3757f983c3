import PlainHeader.Proofs.Utf8
import PlainHeader.Stream.Source

/-!
# The lines of a source

`lines` cuts what a source delivers at its line feeds, and `legible` are the texts of the
lines in front of the first that is not UTF-8. A reader meets the legible lines in order
and then `obstacle`, if there is one: that line, or else the failure of the source.
-/

namespace PlainHeader

theorem pieces_eq_splitOnP {α : Type} (ends : α → Bool) (xs : List α) : pieces ends xs = xs.splitOnP ends := by
  induction xs with
  | nil => rfl
  | cons x xs ih =>
    rw [List.splitOnP_cons_eq_if_modifyHead, ← ih]
    by_cases stops : ends x = true
    · rw [pieces_cons_end stops, if_pos stops]
    · rw [pieces_cons (by simpa using stops), if_neg stops]
      rfl

namespace Source

/-- The lines that a source delivers, without their ends. What follows the last line feed
    is one unless it is empty, or lost because the source fails. -/
def lines (source : Source) : List Bytes :=
  let segments := source.data.splitOn lineFeed
  let rest := segments.getLastD []
  segments.dropLast.map chopReturn ++ if source.failure = none ∧ rest ≠ [] then [rest] else []

/-- The texts of the lines in front of the first that is not UTF-8. -/
def textsOf (lines : List Bytes) : List Text :=
  (lines.takeWhile fun line => decide (Utf8.Valid line)).filterMap Utf8.decode?

/-- What stops a reader behind the texts of some lines: a line that is not UTF-8, or else
    the failure behind the lines. -/
def stopOf (lines : List Bytes) (failure : Option Cause) : Option Cause :=
  if ∀ line ∈ lines, Utf8.Valid line then failure else some .notUtf8

/-- The texts of the legible lines. -/
def legible (source : Source) : List Text := textsOf source.lines

/-- Why a reader does not come to the end of a source, if it does not. -/
def obstacle (source : Source) : Option Cause := stopOf source.lines source.failure

theorem readings_eq (source : Source) :
    source.readings = source.lines.map read ++ source.failure.toList.map .error := by
  have cuts : pieces (· == lineFeed) source.data = source.data.splitOn lineFeed := by
    rw [pieces_eq_splitOnP, List.splitOn_eq_splitOnP]
  simp only [readings, lines, ending, cuts, List.map_append, List.map_map, List.append_assoc]
  refine congrArg _ ?_
  cases source.failure with
  | none =>
    generalize (source.data.splitOn lineFeed).getLastD [] = rest
    by_cases last : rest = [] <;> simp [last]
  | some cause => rfl

theorem read_encode (text : Text) : read (Utf8.encode text) = .ok text := by
  simp [read, Utf8.decode?_encode]

theorem read_of_not_valid {line : Bytes} (invalid : ¬ Utf8.Valid line) : read line = .error .notUtf8 := by
  have refused : Utf8.decode? line = none := by
    simpa [← Utf8.isSome_decode?_iff] using invalid
  simp [read, refused]

theorem textsOf_nil : textsOf [] = [] := rfl

theorem textsOf_cons (text : Text) (lines : List Bytes) :
    textsOf (Utf8.encode text :: lines) = text :: textsOf lines := by
  have valid : Utf8.Valid (Utf8.encode text) := ⟨text, rfl⟩
  simp [textsOf, valid, Utf8.decode?_encode]

theorem textsOf_cons_of_not_valid {line : Bytes} (invalid : ¬ Utf8.Valid line) (lines : List Bytes) :
    textsOf (line :: lines) = [] := by
  simp [textsOf, invalid]

/-- Lines of which one is not UTF-8 begin with some that are, and then comes one that is not. -/
theorem exists_legible_front {lines : List Bytes} (illegible : ∃ line ∈ lines, ¬ Utf8.Valid line) :
    ∃ bad rest, ¬ Utf8.Valid bad ∧ lines = (textsOf lines).map Utf8.encode ++ bad :: rest := by
  induction lines with
  | nil => simp at illegible
  | cons line lines ih =>
    by_cases valid : Utf8.Valid line
    · obtain ⟨text, rfl⟩ := valid
      have later : ∃ line ∈ lines, ¬ Utf8.Valid line := by
        obtain ⟨other, member, invalid⟩ := illegible
        rcases List.mem_cons.1 member with rfl | member
        · exact absurd ⟨text, rfl⟩ invalid
        · exact ⟨other, member, invalid⟩
      obtain ⟨bad, rest, invalid, split⟩ := ih later
      refine ⟨bad, rest, invalid, ?_⟩
      rw [textsOf_cons, List.map_cons, List.cons_append, ← split]
    · exact ⟨line, lines, valid, by rw [textsOf_cons_of_not_valid valid]; rfl⟩

theorem stopOf_cons (text : Text) (lines : List Bytes) (failure : Option Cause) :
    stopOf (Utf8.encode text :: lines) failure = stopOf lines failure := by
  have valid : Utf8.Valid (Utf8.encode text) := ⟨text, rfl⟩
  simp [stopOf, valid]

theorem stopOf_cons_of_not_valid {line : Bytes} (invalid : ¬ Utf8.Valid line) (lines : List Bytes)
    (failure : Option Cause) : stopOf (line :: lines) failure = some .notUtf8 := by
  simp [stopOf, invalid]

end Source

end PlainHeader
