import PlainHeader.Proofs.Origins
import PlainHeader.Proofs.TextLines
import PlainHeader.Proofs.Transcript
import PlainHeader.Rules.Epax

/-!
# Line by line or as a whole

A reader decodes one line at a time, and never learns whether the bytes as a whole are UTF-8. It
comes to the same: a line feed is a character of its own, so that bytes around one are a text
exactly when both sides are, and a carriage return in front of it makes no difference. Where
the bytes are no text, what is read before the first illegible line is the longest front of whole
lines that is a text.
-/

namespace PlainHeader

namespace Source

theorem lines_append_lineFeed {segment : Bytes} (unbroken : lineFeed ∉ segment) (rest : Bytes) :
    lines { data := segment ++ lineFeed :: rest } = chopReturn segment :: lines { data := rest } := by
  obtain ⟨next, others, split⟩ := List.exists_cons_of_ne_nil (List.splitOn_ne_nil lineFeed rest)
  simp only [lines, List.splitOn_append_cons_self_of_not_mem unbroken, split]
  rfl

theorem lines_of_unbroken {data : Bytes} (unbroken : lineFeed ∉ data) (nonempty : data ≠ []) : lines { data } = [data] := by
  simp [lines, List.splitOn_eq_singleton unbroken, nonempty]

theorem valid_chopReturn_iff {line : Bytes} : Utf8.Valid (chopReturn line) ↔ Utf8.Valid line := by
  constructor
  · exact valid_of_chopReturn
  · rintro ⟨text, rfl⟩
    exact ⟨Text.chopReturn text, (Utf8.chopReturn_encode text).symm⟩

/-- Bytes are those of a text exactly when each of their lines is. -/
theorem valid_iff_lines {data : Bytes} : Utf8.Valid data ↔ ∀ line ∈ lines { data }, Utf8.Valid line := by
  constructor
  · rintro ⟨text, rfl⟩ line listed
    rw [lines_encode] at listed
    obtain ⟨decoded, -, encoded⟩ := List.mem_map.1 listed
    exact ⟨decoded, encoded⟩
  · exact valid_of_lines

/-- Bytes around a line feed are those of a text exactly when both sides are. -/
theorem valid_append_lineFeed_iff {segment : Bytes} (unbroken : lineFeed ∉ segment) (rest : Bytes) :
    Utf8.Valid (segment ++ lineFeed :: rest) ↔ Utf8.Valid segment ∧ Utf8.Valid rest := by
  rw [valid_iff_lines, lines_append_lineFeed unbroken, List.forall_mem_cons, valid_chopReturn_iff, ← valid_iff_lines]

theorem obstacle_eq_none_iff {data : Bytes} : obstacle { data } = none ↔ Utf8.Valid data := by
  constructor
  · exact valid_of_obstacle
  · rintro ⟨text, rfl⟩
    exact obstacle_encode text

/-! ## Whole lines -/

/-- Every line of the bytes is ended by a line feed. -/
def Whole (bytes : Bytes) : Prop := bytes = [] ∨ bytes.getLast? = some lineFeed

instance (bytes : Bytes) : Decidable (Whole bytes) := inferInstanceAs (Decidable (_ ∨ _))

theorem whole_append_lineFeed_iff (segment rest : Bytes) : Whole (segment ++ lineFeed :: rest) ↔ Whole rest := by
  unfold Whole
  cases rest with
  | nil => simp
  | cons b rest => simp [List.getLast?_append, List.getLast?_cons_cons]

/-- A front of whole lines is empty, or holds the first line and goes on behind it. -/
theorem whole_prefix_cases {segment rest front : Bytes} (unbroken : lineFeed ∉ segment) (whole : Whole front)
    (starts : front <+: segment ++ lineFeed :: rest) :
    front = [] ∨ ∃ later, front = segment ++ lineFeed :: later ∧ later <+: rest ∧ Whole later := by
  rcases whole with empty | ends
  · exact .inl empty
  right
  have fed : lineFeed ∈ front := List.mem_of_getLast? ends
  rcases Text.prefix_append_cases starts with within | ⟨behind, rfl, onward⟩
  · exact absurd (within.subset fed) unbroken
  · cases behind with
    | nil => exact absurd (by simpa using fed) unbroken
    | cons b later =>
      obtain ⟨rfl, follows⟩ := List.cons_prefix_cons.1 onward
      exact ⟨later, rfl, follows, (whole_append_lineFeed_iff segment later).1 (.inr ends)⟩

/-- The longest front of some bytes that holds whole lines only and is the bytes of a text. -/
structure LongestText (data front : Bytes) : Prop where
  starts : front <+: data
  valid : Utf8.Valid front
  whole : Whole front
  longest : ∀ other, other <+: data → Utf8.Valid other → Whole other → other.length ≤ front.length

/-- No line is legible: the front is empty. -/
theorem longestText_nil {data : Bytes} (none : ∀ other, other <+: data → Utf8.Valid other → Whole other → other = []) :
    LongestText data [] where
  starts := List.nil_prefix
  valid := ⟨[], rfl⟩
  whole := .inl rfl
  longest other starts valid whole := by rw [none other starts valid whole]

/-- A legible line goes in front of the longest front of the rest. -/
theorem LongestText.append_lineFeed {segment rest front : Bytes} (unbroken : lineFeed ∉ segment) (valid : Utf8.Valid segment)
    (later : LongestText rest front) : LongestText (segment ++ lineFeed :: rest) (segment ++ lineFeed :: front) where
  starts := (List.prefix_append_right_inj segment).2 (List.cons_prefix_cons.2 ⟨rfl, later.starts⟩)
  valid := (valid_append_lineFeed_iff unbroken front).2 ⟨valid, later.valid⟩
  whole := (whole_append_lineFeed_iff segment front).2 later.whole
  longest other starts valid' whole := by
    rcases whole_prefix_cases unbroken whole starts with rfl | ⟨behind, rfl, onward, whole'⟩
    · exact Nat.zero_le _
    · have shorter := later.longest behind onward ((valid_append_lineFeed_iff unbroken behind).1 valid').2 whole'
      simpa using shorter

/-- Bytes that are no text have the legible lines of their longest front that is one. -/
theorem exists_longestText {data : Bytes} (invalid : ¬ Utf8.Valid data) :
    ∃ front, LongestText data front ∧ legible { data } = legible { data := front } := by
  by_cases fed : lineFeed ∈ data
  · obtain ⟨segment, rest, rfl, unbroken⟩ := List.eq_append_cons_of_mem fed
    have cut := valid_append_lineFeed_iff unbroken
    have shorter := Text.length_lt_append_cons segment lineFeed rest
    by_cases valid : Utf8.Valid segment
    · have later : ¬ Utf8.Valid rest := fun valid' => invalid ((cut rest).2 ⟨valid, valid'⟩)
      obtain ⟨front, longest, same⟩ := exists_longestText later
      refine ⟨segment ++ lineFeed :: front, longest.append_lineFeed unbroken valid, ?_⟩
      obtain ⟨text, encoded⟩ := valid_chopReturn_iff.2 valid
      unfold legible at same ⊢
      rw [lines_append_lineFeed unbroken, lines_append_lineFeed unbroken, ← encoded, textsOf_cons, textsOf_cons, same]
    · refine ⟨[], longestText_nil ?_, ?_⟩
      · intro other starts valid' whole
        refine (whole_prefix_cases unbroken whole starts).resolve_right ?_
        rintro ⟨behind, rfl, -, -⟩
        exact valid ((cut behind).1 valid').1
      · rw [legible, lines_append_lineFeed unbroken, textsOf_cons_of_not_valid (mt valid_chopReturn_iff.1 valid)]
        rfl
  · have nonempty : data ≠ [] := by
      rintro rfl
      exact invalid ⟨[], rfl⟩
    refine ⟨[], longestText_nil ?_, ?_⟩
    · intro other starts _ whole
      refine whole.resolve_right fun ends => ?_
      exact fed (starts.subset (List.mem_of_getLast? ends))
    · rw [legible, lines_of_unbroken fed nonempty, textsOf_cons_of_not_valid invalid]
      rfl
termination_by data.length

end Source

/-- A transcript of bytes comes to the end exactly when the bytes as a whole are UTF-8. When they
    are not, it writes what the longest front of whole lines that is UTF-8 becomes on its own. -/
theorem transcribe_utf8 (rules : Rules) (labels : Labels) (data : Bytes) {sink : Sink} (unlimited : sink.limit = none) :
    ((∃ count, (transcribe rules labels { data } sink).2 = .ok count) ↔ Utf8.Valid data) ∧
      (¬ Utf8.Valid data → ∃ front, Source.LongestText data front ∧
        (transcribe rules labels { data } sink).1 = (transcribe rules labels { data := front } sink).1) := by
  constructor
  · rw [transcribe_of_unlimited unlimited, ← Source.obstacle_eq_none_iff]
    cases Source.obstacle { data } <;> simp
  · intro invalid
    obtain ⟨front, longest, same⟩ := Source.exists_longestText invalid
    refine ⟨front, longest, ?_⟩
    rw [transcribe_of_unlimited unlimited, transcribe_of_unlimited unlimited, same]

/-- A sequence that a line feed breaks off makes no character with the byte behind it. -/
theorem transcribe_utf8_broken :
    let data : Bytes := [0x62, 0x0A, 0xC3, 0x0A, 0xA9, 0x0A]
    (({} : Sink).limit = none ∧ ¬ Utf8.Valid data) ∧
      ∀ labels, (¬ ∃ count, (transcribe Rules.epax labels { data } ({} : Sink)).2 = .ok count) ∧
        ∃ front, Source.LongestText data front ∧
          (transcribe Rules.epax labels { data } ({} : Sink)).1 = (transcribe Rules.epax labels { data := front } ({} : Sink)).1 := by
  intro data
  have invalid : ¬ Utf8.Valid data := by decide
  have unlimited : ({} : Sink).limit = none := rfl
  refine ⟨⟨unlimited, invalid⟩, fun labels => ?_⟩
  obtain ⟨ok_iff, broken⟩ := transcribe_utf8 Rules.epax labels data unlimited
  exact ⟨mt ok_iff.1 invalid, broken invalid⟩

end PlainHeader
