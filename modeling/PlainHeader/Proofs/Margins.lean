import PlainHeader.Proofs.Locality
import PlainHeader.Proofs.Losses
import PlainHeader.Proofs.ObjectNames
import PlainHeader.Proofs.StableHeader

/-!
# No blank at the edge of a line

Two replacements of the EPAX table break a text into lines, in the middle of whatever stands
around them. Still no line starts or ends with a blank: a blank beside a line break would be one
of ten patterns of two characters, and no rule makes one of them. To see the start and the end of
a text in the same way, the text is framed by two line breaks, which no key reaches across. The
only blank in front of a line is the space that indents the star of a comment.
-/

namespace PlainHeader

namespace Text

/-! ## Lines of a text -/

theorem not_mem_of_mem_splitOn {α : Type} [BEq α] [LawfulBEq α] {x : α} {xs piece : List α} (member : piece ∈ xs.splitOn x) :
    x ∉ piece := by
  rw [List.splitOn_eq_splitOnP, ← pieces_eq_splitOnP] at member
  intro inside
  simpa using not_end_of_mem_pieces member x inside

/-- A text with a line break on either side. -/
def framed (text : Text) : Text := '\n' :: (text ++ ['\n'])

/-- The line breaks around a line of a text are those of the text or of its frame. -/
theorem infix_framed {text line : Text} (member : line ∈ text.splitOn '\n') : framed line <:+: framed text := by
  by_cases broken : '\n' ∈ text
  · obtain ⟨front, rest, rfl, unbroken⟩ := List.eq_append_cons_of_mem broken
    have shorter := length_lt_append_cons front '\n' rest
    have split : framed (front ++ '\n' :: rest) = '\n' :: front ++ framed rest := by simp [framed]
    rw [List.splitOn_append_cons_self_of_not_mem unbroken] at member
    rcases List.mem_cons.1 member with rfl | later
    · refine List.IsPrefix.isInfix ⟨rest ++ ['\n'], ?_⟩
      simp [framed]
    · rw [split]
      exact (infix_framed later).trans (List.suffix_append _ _).isInfix
  · rw [List.splitOn_eq_singleton broken, List.mem_singleton] at member
    rw [member]
termination_by text.length

/-- The blanks that do not break a line. -/
def sideBlanks : List Char := [' ', '\t', '\x0b', '\x0c', '\r']

/-- A blank behind a line break, and one in front of it. -/
def edges : List Text := sideBlanks.map (fun c => ['\n', c]) ++ sideBlanks.map (fun c => [c, '\n'])

theorem mem_sideBlanks_iff {c : Char} : c ∈ sideBlanks ↔ isBlank c = true ∧ c ≠ '\n' := by
  simp only [isBlank_iff, sideBlanks, List.mem_cons, List.not_mem_nil, or_false]
  constructor
  · rintro (rfl | rfl | rfl | rfl | rfl) <;> decide
  · rintro ⟨rfl | rfl | rfl | rfl | rfl | rfl, other⟩ <;> simp_all

/-- No line of the text starts or ends with a blank. -/
def Flush (text : Text) : Prop := ∀ line ∈ text.splitOn '\n', line = [] ∨ Firm line

/-- A character of a line is not blank if it would be part of an edge that stands nowhere. -/
theorem not_blank_of_edge {text line edge : Text} {c : Char} (absent : ∀ edge ∈ edges, ¬ edge <:+: framed text)
    (member : line ∈ text.splitOn '\n') (inside : c ∈ line) (stands : edge <:+: framed line)
    (listed : c ∈ sideBlanks → edge ∈ edges) : isBlank c = false := by
  by_contra blank
  have other : c ≠ '\n' := fun feed => not_mem_of_mem_splitOn member (feed ▸ inside)
  have side : c ∈ sideBlanks := mem_sideBlanks_iff.2 ⟨by simpa using blank, other⟩
  exact absent edge (listed side) (stands.trans (infix_framed member))

/-- Where no blank stands beside a line break, no line starts or ends with one. -/
theorem flush_of_edges {text : Text} (absent : ∀ edge ∈ edges, ¬ edge <:+: framed text) : Flush text := by
  intro line member
  by_cases empty : line = []
  · exact .inl empty
  right
  constructor
  · obtain ⟨c, rest, rfl⟩ := List.exists_cons_of_ne_nil empty
    have stands : ['\n', c] <:+: framed (c :: rest) := List.IsPrefix.isInfix ⟨rest ++ ['\n'], rfl⟩
    refine ⟨c, rfl, not_blank_of_edge absent member List.mem_cons_self stands ?_⟩
    intro side
    exact List.mem_append_left _ (List.mem_map_of_mem side)
  · obtain ⟨front, c, rfl⟩ := (List.eq_nil_or_concat line).resolve_left empty
    rw [List.concat_eq_append] at *
    have stands : [c, '\n'] <:+: framed (front ++ [c]) := List.IsSuffix.isInfix ⟨'\n' :: front, by simp [framed]⟩
    refine ⟨c, by simp, not_blank_of_edge absent member (by simp) stands ?_⟩
    intro side
    exact List.mem_append_right _ (List.mem_map_of_mem side)

/-- Around a single line, a pattern with a line break takes in the first break or the last. -/
theorem framed_cases {text pattern : Text} (unbroken : '\n' ∉ text) (feed : '\n' ∈ pattern)
    (stands : pattern <:+: framed text) : pattern <+: framed text ∨ pattern <:+ text ++ ['\n'] := by
  rcases List.infix_cons_iff.1 stands with starts | later
  · exact .inl starts
  · rcases List.infix_concat_iff.1 later with ends | inside
    · exact .inr ends
    · exact absurd (inside.subset feed) unbroken

/-- Around a single line without blanks at its ends, no blank stands beside a line break. -/
theorem edge_absent {text : Text} (unbroken : '\n' ∉ text) (first : ∀ c, text.head? = some c → isBlank c = false)
    (last : ∀ c, text.getLast? = some c → isBlank c = false) : ∀ edge ∈ edges, ¬ edge <:+: framed text := by
  intro edge listed stands
  rcases List.mem_append.1 listed with behind | before
  · obtain ⟨c, side, rfl⟩ := List.mem_map.1 behind
    obtain ⟨blank, other⟩ := mem_sideBlanks_iff.1 side
    rcases framed_cases unbroken List.mem_cons_self stands with starts | ends
    · cases text with
      | nil => simp [framed, other] at starts
      | cons d rest =>
        obtain rfl : c = d := by simpa [framed] using starts
        simp [first c rfl] at blank
    · obtain ⟨front, split, -⟩ := (List.suffix_concat_iff.1 ends).resolve_left (List.cons_ne_nil _ _)
      have final : c = '\n' := by simpa using congrArg List.getLast? split
      exact other final
  · obtain ⟨c, side, rfl⟩ := List.mem_map.1 before
    obtain ⟨blank, other⟩ := mem_sideBlanks_iff.1 side
    rcases framed_cases unbroken (by simp) stands with starts | ends
    · exact other (List.cons_prefix_cons.1 starts).1
    · obtain ⟨front, split, inside⟩ := (List.suffix_concat_iff.1 ends).resolve_left (List.cons_ne_nil _ _)
      obtain rfl : [c] = front := (List.append_inj' (split : [c] ++ ['\n'] = front ++ ['\n']) rfl).1
      obtain ⟨rest, rfl⟩ := inside
      simp [last c (by simp)] at blank

/-- An empty line; a line that neither starts nor ends with a blank; or one that does so only by
    the one space in front of a star. -/
inductive Neat : Text → Prop
  | empty : Neat []
  | margin {line : Text} (firm : Firm line) : Neat line
  | body {text : Text} (firm : Firm text) (starred : text.head? = some '*') : Neat (' ' :: text)

theorem Firm.unindented {line : Text} (firm : Firm line) : line.head? ≠ some ' ' := by
  obtain ⟨⟨c, starts, solid⟩, -⟩ := firm
  rw [starts]
  rintro ⟨⟩
  cases solid

/-- The last character of a neat line is not blank. -/
theorem Neat.not_blank {line : Text} (neat : Neat line) (c : Char) (ends : line.getLast? = some c) : isBlank c = false := by
  cases neat with
  | empty => cases ends
  | margin firm =>
    obtain ⟨-, d, ends', solid⟩ := firm
    rwa [← Option.some.inj (ends'.symm.trans ends)]
  | @body text firm starred =>
    obtain ⟨-, d, ends', solid⟩ := firm
    obtain ⟨front, rfl⟩ := List.getLast?_eq_some_iff.1 ends'
    rw [← List.cons_append, List.getLast?_concat] at ends
    rwa [← Option.some.inj ends]

theorem flush_nil : Flush [] := by
  intro line member
  exact .inl (List.mem_singleton.1 member)

theorem flush_of_firm {text : Text} (unbroken : '\n' ∉ text) (firm : Firm text) : Flush text := by
  intro line member
  rw [List.splitOn_eq_singleton unbroken, List.mem_singleton] at member
  exact .inr (member ▸ firm)

variable {text piece : Text}

/-- The lines of a flush text are neat, and none is indented. -/
theorem Flush.neat (flush : Flush text) (member : piece ∈ text.splitOn '\n') : Neat piece ∧ piece.head? ≠ some ' ' := by
  rcases flush piece member with rfl | firm
  · exact ⟨.empty, nofun⟩
  · exact ⟨.margin firm, firm.unindented⟩

/-- Behind one space, a flush text that starts with a star has neat lines, and the first alone is
    indented. -/
theorem Flush.neat_of_star (flush : Flush text) (starred : text.head? = some '*') {i : ℕ}
    (found : ((' ' :: text).splitOn '\n')[i]? = some piece) : Neat piece ∧ (piece.head? = some ' ' → i = 0) := by
  obtain ⟨rest, rfl⟩ := List.head?_eq_some_iff.1 starred
  obtain ⟨first, others, split⟩ := List.exists_cons_of_ne_nil (List.splitOn_ne_nil '\n' rest)
  have lines : ('*' :: rest).splitOn '\n' = ('*' :: first) :: others := by
    rw [List.splitOn_cons_eq_if_modifyHead, split]
    rfl
  have indented : (' ' :: '*' :: rest).splitOn '\n' = (' ' :: '*' :: first) :: others := by
    rw [List.splitOn_cons_eq_if_modifyHead, lines]
    rfl
  rw [indented] at found
  cases i with
  | zero =>
    obtain rfl : ' ' :: '*' :: first = piece := Option.some.inj found
    have firm : Firm ('*' :: first) := (flush _ (lines ▸ List.mem_cons_self)).resolve_left (List.cons_ne_nil _ _)
    exact ⟨.body firm rfl, fun _ => rfl⟩
  | succ i =>
    have member : piece ∈ others := List.mem_of_getElem? found
    obtain ⟨neat, unindented⟩ := flush.neat (lines ▸ List.mem_cons_of_mem _ member)
    exact ⟨neat, fun indented => absurd indented unindented⟩

/-- Lines with a line break behind each have the lines of each, and the empty one at the end. -/
theorem mem_splitOn_flatMap {lines : List Text} (member : piece ∈ (lines.flatMap (· ++ ['\n'])).splitOn '\n') :
    piece = [] ∨ ∃ line ∈ lines, piece ∈ line.splitOn '\n' := by
  induction lines with
  | nil => exact .inl (List.mem_singleton.1 member)
  | cons line lines ih =>
    rw [List.flatMap_cons, List.append_assoc, List.singleton_append, List.splitOn_append_cons_self] at member
    rcases List.mem_append.1 member with here | later
    · exact .inr ⟨line, List.mem_cons_self, here⟩
    · refine (ih later).imp_right ?_
      rintro ⟨other, listed, inside⟩
      exact ⟨other, List.mem_cons_of_mem line listed, inside⟩

/-- Lower case neither makes a blank nor removes one. -/
theorem isBlank_toLower (c : Char) : isBlank c.toLower = isBlank c := by
  by_cases capital : c.isUpper = true
  · have far {d : Char} (beyond : 65 ≤ d.toNat) : isBlank d = false :=
      not_blank_of (p := fun d => decide (65 ≤ d.toNat)) rfl (decide_eq_true beyond)
    obtain ⟨low, -⟩ := isUpper_iff.1 capital
    rw [far low, far (low.trans (toNat_toLower capital ▸ Nat.le_add_right _ 32))]
  · rw [toLower_eq_self capital]

end Text

namespace Rules

/-! ## Lines in C spelling -/

theorem lineFeed_foreign : ∀ rule ∈ epax.cNames ++ epax.substitutions, '\n' ∉ rule.1 := by
  decide +kernel

/-- The frame of a text is left as it is. -/
theorem respell_framed (text : Text) : epax.respell (Text.framed text) = Text.framed (epax.respell text) := by
  have nothing : epax.respell [] = [] := respell_eq_nil_iff.2 rfl
  rw [respell_eq_replaceEach] at nothing
  have behind := Text.replaceEach_separator lineFeed_foreign text []
  have before := Text.replaceEach_separator lineFeed_foreign [] (text ++ ['\n'])
  rw [nothing] at behind before
  rw [List.nil_append, behind] at before
  rw [respell_eq_replaceEach, respell_eq_replaceEach]
  exact before

/-- A blank beside a line break has been there before. -/
theorem origins_edge : ∀ edge ∈ Text.edges, ∀ origin ∈ epax.origins edge, origin = edge := by
  unfold origins cNames epax linkageOpen linkageClose cName
  dsimp only [List.map]
  simp only [String.reduceToList]
  decide +kernel

/-- However many lines a line becomes in C spelling, none of them starts or ends with a blank. -/
theorem flush_respell {raw : Text} (unbroken : '\n' ∉ raw) : Text.Flush (epax.respell (Text.trim raw)) := by
  apply Text.flush_of_edges
  intro edge listed stands
  rw [← respell_framed] at stands
  obtain ⟨origin, known, inside⟩ := exists_origin_respell stands
  obtain rfl := origins_edge edge listed origin known
  have unbroken' : '\n' ∉ Text.trim raw := fun feed => unbroken ((Text.trim_infix raw).subset feed)
  exact Text.edge_absent unbroken' (fun _ => Text.not_blank_of_head?_trim) (fun _ => Text.not_blank_of_getLast?_trim)
    origin listed inside

theorem flush_pointerTypedef {name : Text} (solid : name ≠ [] ∧ ∀ c ∈ name, Text.isBlank c = false) :
    Text.Flush (pointerTypedef name) := by
  obtain ⟨nonempty, unblank⟩ := solid
  rw [pointerTypedef_eq]
  apply Text.flush_of_firm
  · intro feed
    rcases List.mem_append.1 feed with fixed | lowered
    · exact absurd fixed (by decide)
    · obtain ⟨c, inside, lowers⟩ := List.mem_map.1 lowered
      have blank := Text.isBlank_toLower c
      rw [lowers, unblank c inside] at blank
      cases blank
  · obtain ⟨front, c, rfl⟩ := (List.eq_nil_or_concat name).resolve_left nonempty
    rw [List.concat_eq_append, List.map_append, ← List.append_assoc]
    refine ⟨⟨'t', rfl, rfl⟩, c.toLower, List.getLast?_concat, ?_⟩
    rw [Text.isBlank_toLower]
    exact unblank c (by simp)

/-! ## Lines of a header -/

/-- A line that a raw line becomes is flush, unless it is the only one and indents a star. -/
theorem flush_or_indented {raw line : Text} (unbroken : '\n' ∉ raw) (converted : line ∈ epax.convert raw) :
    Text.Flush line ∨
      ∃ text, line = ' ' :: text ∧ Text.Flush text ∧ text.head? = some '*' ∧ epax.convert raw = [line] ∧
        (Text.trim raw).head? = some '*' ∧ (Text.tokens raw)[1]? ≠ some "//".toList := by
  have spelled := flush_respell unbroken
  have first := starSafe_epax.head?_respell_iff (Text.trim raw)
  rcases mem_convert_cases converted with empty | ⟨name, token, declares⟩ | plain | ⟨indents, starred, single, second⟩
  · exact .inl (empty ▸ Text.flush_nil)
  · exact .inl (declares ▸ flush_pointerTypedef (Text.not_blank_of_mem_tokens token))
  · exact .inl (plain ▸ spelled)
  · exact .inr ⟨_, indents, spelled, starred, single, first.1 starred, second⟩

theorem neat_of_convert {raw line : Text} (unbroken : '\n' ∉ raw) (converted : line ∈ epax.convert raw) {i : ℕ} {piece : Text}
    (found : (line.splitOn '\n')[i]? = some piece) :
    Text.Neat piece ∧
      (piece.head? = some ' ' →
        i = 0 ∧ epax.convert raw = [line] ∧ (Text.trim raw).head? = some '*' ∧ (Text.tokens raw)[1]? ≠ some "//".toList) := by
  rcases flush_or_indented unbroken converted with flush | ⟨text, rfl, flush, starred, single, first, second⟩
  · obtain ⟨neat, unindented⟩ := flush.neat (List.mem_of_getElem? found)
    exact ⟨neat, fun indented => absurd indented unindented⟩
  · obtain ⟨neat, only⟩ := flush.neat_of_star starred found
    exact ⟨neat, fun indented => ⟨only indented, single, first, second⟩⟩

theorem neat_of_rendering {texts : List Text} (unbroken : ∀ text ∈ texts, '\n' ∉ text) :
    ∀ piece ∈ ((texts.flatMap epax.convert).flatMap (· ++ ['\n'])).splitOn '\n', Text.Neat piece := by
  intro piece member
  rcases Text.mem_splitOn_flatMap member with rfl | ⟨line, listed, inside⟩
  · exact .empty
  · obtain ⟨raw, known, converted⟩ := List.mem_flatMap.1 listed
    obtain ⟨i, found⟩ := List.getElem?_of_mem inside
    exact (neat_of_convert (unbroken raw known) converted found).1

end Rules

namespace Source

theorem lineFeed_not_mem_lines (source : Source) : ∀ line ∈ source.lines, lineFeed ∉ line := by
  intro line listed
  rcases List.eq_nil_or_concat (source.data.splitOn lineFeed) with none | ⟨front, rest, split⟩
  · exact absurd none (List.splitOn_ne_nil _ _)
  · have unbroken : ∀ segment ∈ front ++ [rest], lineFeed ∉ segment := by
      intro segment member
      rw [← List.concat_eq_append, ← split] at member
      exact Text.not_mem_of_mem_splitOn member
    simp only [lines, split, List.concat_eq_append, List.dropLast_concat] at listed
    rcases List.mem_append.1 listed with ended | last
    · obtain ⟨segment, member, rfl⟩ := List.mem_map.1 ended
      have whole := unbroken segment (List.mem_append_left _ member)
      unfold chopReturn
      split
      · exact fun feed => whole (List.mem_of_mem_dropLast feed)
      · exact whole
    · split at last
      case isTrue =>
        refine unbroken line (List.mem_append_right _ ?_)
        simpa using last
      case isFalse => cases last

/-- No legible line holds a line feed. -/
theorem lineFeed_not_mem_legible (source : Source) : ∀ text ∈ source.legible, '\n' ∉ text := by
  intro text legible
  obtain ⟨line, taken, decoded⟩ := List.mem_filterMap.1 legible
  rw [← Utf8.lineFeed_mem_encode_iff, Utf8.decode?_eq_some_iff.1 decoded]
  exact source.lineFeed_not_mem_lines line ((List.takeWhile_prefix _).subset taken)

end Source

/-- Every line of a header, down to the lines that a replacement breaks it into, is empty or has
    no blank at its ends, apart from the space that indents the star of a comment. -/
theorem header_lines_neat :
    (∀ raw, '\n' ∉ raw → ∀ line ∈ Rules.epax.convert raw, ∀ i piece, (line.splitOn '\n')[i]? = some piece →
      Text.Neat piece ∧
        (piece.head? = some ' ' →
          i = 0 ∧ Rules.epax.convert raw = [line] ∧ (Text.trim raw).head? = some '*' ∧
            (Text.tokens raw)[1]? ≠ some "//".toList)) ∧
      ∀ (labels : Labels) (source : Source) (sink : Sink), sink.limit = none → ∃ text,
        (transcribe Rules.epax labels source sink).1.bytes = sink.bytes ++ Utf8.encode text ∧
          ∀ line ∈ text.splitOn '\n',
            Text.Neat line ∧ (∀ c, line.getLast? = some c → Text.isBlank c = false) ∧
              (line ≠ [] → ∃ c ∈ line, Text.isBlank c = false) := by
  constructor
  · intro raw unbroken line converted i piece found
    exact Rules.neat_of_convert unbroken converted found
  · intro labels source sink unlimited
    refine ⟨(source.legible.flatMap Rules.epax.convert).flatMap (· ++ ['\n']), ?_, ?_⟩
    · rw [transcribe_of_unlimited unlimited, Sink.bytes_append, Rules.rendering_eq_encode]
    · intro line member
      have neat := Rules.neat_of_rendering source.lineFeed_not_mem_legible line member
      refine ⟨neat, neat.not_blank, fun nonempty => ?_⟩
      have ends := List.getLast?_eq_some_getLast nonempty
      exact ⟨line.getLast nonempty, List.getLast_mem nonempty, neat.not_blank _ ends⟩

/-- A comment line that the end of the namespace breaks into three. -/
theorem header_lines_neat_broken :
    let raw := "\t* before \x7d // namespace EPAX behind\x0b\r".toList
    let line := " * before #ifdef __cplusplus\n\x7d\n#endif behind".toList
    let piece := " * before #ifdef __cplusplus".toList
    ('\n' ∉ raw ∧ line ∈ Rules.epax.convert raw ∧ (line.splitOn '\n')[0]? = some piece ∧ piece.head? = some ' ' ∧
        ({} : Sink).limit = none) ∧
      (Text.Neat piece ∧ Rules.epax.convert raw = [line] ∧ (Text.trim raw).head? = some '*') ∧
        ∀ labels source, ∃ text,
          (transcribe Rules.epax labels source ({} : Sink)).1.bytes = ({} : Sink).bytes ++ Utf8.encode text ∧
            ∀ line ∈ text.splitOn '\n', Text.Neat line := by
  intro raw line piece
  have unbroken : '\n' ∉ raw := by decide
  have converted : line ∈ Rules.epax.convert raw := by decide +kernel
  have found : (line.splitOn '\n')[0]? = some piece := by decide
  obtain ⟨neat, indented⟩ := header_lines_neat.1 raw unbroken line converted 0 piece found
  obtain ⟨-, single, starred, -⟩ := indented rfl
  refine ⟨⟨unbroken, converted, found, rfl, rfl⟩, ⟨neat, single, starred⟩, ?_⟩
  intro labels source
  obtain ⟨text, written, lines⟩ := header_lines_neat.2 labels source {} rfl
  exact ⟨text, written, fun line member => (lines line member).1⟩

end PlainHeader
