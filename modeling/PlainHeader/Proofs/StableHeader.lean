import PlainHeader.Proofs.Conversion
import PlainHeader.Proofs.Residue
import PlainHeader.Proofs.TextLines
import PlainHeader.Proofs.Transcript

/-!
# Headers that are their own transcript

A header in C form can be its own transcript although no line of it need be its own
conversion: an empty line becomes nothing, and the block comment behind it brings it back. So
a header is stable when empty lines and block comments come in pairs and every other line is
laid out as the conversion lays it out. The induction over the lines owes the empty line that
it has passed and pays it at the comment.
-/

namespace PlainHeader

namespace Text

/-- Whether a text starts and ends with a character that is not blank. -/
def Firm (text : Text) : Prop :=
  (∃ c, text.head? = some c ∧ isBlank c = false) ∧ ∃ c, text.getLast? = some c ∧ isBlank c = false

instance (text : Text) : Decidable (Firm text) :=
  decidable_of_iff (text.head?.any (!isBlank ·) ∧ text.getLast?.any (!isBlank ·)) (by simp [Firm, Option.any_eq_true])

theorem Firm.trim_eq {text : Text} (firm : Firm text) : trim text = text := by
  obtain ⟨⟨first, starts, solid⟩, last, ends, solid'⟩ := firm
  refine trim_eq_self ?_ ?_
  · intro c starts'
    rwa [← Option.some.inj (starts.symm.trans starts')]
  · intro c ends'
    rwa [← Option.some.inj (ends.symm.trans ends')]

theorem Firm.tokens_eq {text : Text} (firm : Firm text) : ∃ head rest, tokens text = head :: rest ∧ text.head? = head.head? := by
  cases split : tokens text with
  | nil =>
    rw [← trim_eq_nil_iff, firm.trim_eq] at split
    obtain ⟨⟨first, starts, -⟩, -⟩ := firm
    simp [split] at starts
  | cons head rest =>
    have first : (trim text).head? = head.head? := head?_trim (by rw [split]; rfl)
    exact ⟨head, rest, rfl, firm.trim_eq ▸ first⟩

theorem Firm.unreturned {text : Text} (firm : Firm text) : text.getLast? ≠ some '\r' := by
  obtain ⟨-, c, ends, solid⟩ := firm
  intro returned
  obtain rfl := Option.some.inj (ends.symm.trans returned)
  cases solid

end Text

namespace Rules

theorem CForm.part {rules : Rules} {text part : Text} (form : rules.CForm text) (inside : part <:+: text) :
    rules.CForm part where
  unnamed name known stands := form.unnamed name known (stands.trans inside)
  unkeyed rule listed stands := form.unkeyed rule listed (stands.trans inside)

/-- What the conversion writes in front of a line. -/
def gapBefore (line : Text) : List Text := if (Text.tokens line).head? = some "/**".toList then [[]] else []

/-- How a line that is laid out stands between its neighbours, where it has any. -/
inductive Settled (previous next : Option Text) : Text → Prop
  /-- An empty line, with a block comment behind it. -/
  | gap {comment : Text} (follows : next = some comment)
      (opens : (Text.tokens comment).head? = some "/**".toList) : Settled previous next []
  /-- A line at the margin, with an empty line in front if it opens a block comment. -/
  | margin {line : Text} (firm : Text.Firm line)
      (plain : (Text.tokens line).head? ∉ [some "class".toList, some "typedef".toList, some "//".toList])
      (spaced : (Text.tokens line).head? = some "/**".toList → previous = some [])
      (unstarred : line.head? = some '*' → (Text.tokens line)[1]? = some "//".toList) : Settled previous next line
  /-- A line that starts with a star, indented by one space. -/
  | body {text : Text} (firm : Text.Firm text) (starred : text.head? = some '*')
      (uncommented : (Text.tokens text)[1]? ≠ some "//".toList) : Settled previous next (' ' :: text)

/-- All lines are settled. `previous` is the line in front of the first. -/
def AllSettled : Option Text → List Text → Prop
  | _, [] => True
  | previous, line :: rest => Settled previous rest.head? line ∧ AllSettled (some line) rest

/-- The lines of a header that conversion leaves as it is. -/
structure StableHeader (lines : List Text) : Prop where
  unbroken : ∀ line ∈ lines, '\n' ∉ line
  cForm : ∀ line ∈ lines, epax.CForm line
  unremoved : ∀ line ∈ lines, line ∉ epax.removed
  settled : AllSettled none lines

variable {previous next : Option Text} {line : Text}

theorem convert_margin (form : epax.CForm line) (unremoved : line ∉ epax.removed) (firm : Text.Firm line)
    (plain : (Text.tokens line).head? ∉ [some "class".toList, some "typedef".toList, some "//".toList])
    (unstarred : line.head? = some '*' → (Text.tokens line)[1]? = some "//".toList) :
    epax.convert line = gapBefore line ++ [line] := by
  obtain ⟨head, rest, split, -⟩ := firm.tokens_eq
  have kept : ¬ epax.drops line = true := mt drops_iff.1 unremoved
  simp only [split, List.head?_cons, List.mem_cons, List.not_mem_nil, or_false, not_or, Option.some.injEq] at plain
  obtain ⟨unclassed, undeclared, uncommented⟩ := plain
  simp only [convert_of_tokens epax split, firm.trim_eq, form.respell_eq, if_neg unclassed, if_neg undeclared,
    if_neg kept, if_neg uncommented, gapBefore, split, List.head?_cons, Option.some.injEq]
  by_cases block : head = "/**".toList
  · rw [if_pos block, if_pos block]
    rfl
  rw [if_neg block, if_neg block]
  by_cases inline : rest.head? = some "//".toList
  · rw [if_pos inline]
    rfl
  · have margin : line.head? ≠ some '*' := by
      intro starred
      apply inline
      rw [← unstarred starred, split, List.getElem?_cons_succ, List.head?_eq_getElem?]
    rw [if_neg inline, indentStar, if_neg margin]
    rfl

theorem convert_body {text : Text} (form : epax.CForm (' ' :: text)) (firm : Text.Firm text)
    (starred : text.head? = some '*') (uncommented : (Text.tokens text)[1]? ≠ some "//".toList) :
    epax.convert (' ' :: text) = gapBefore (' ' :: text) ++ [' ' :: text] := by
  obtain ⟨head, rest, split, same⟩ := firm.tokens_eq
  have first : head.head? = some '*' := same.symm.trans starred
  have split' : Text.tokens (' ' :: text) = head :: rest := by rw [Text.tokens_cons_blank rfl, split]
  have trimmed : Text.trim (' ' :: text) = text := by rw [Text.trim_cons_blank rfl, firm.trim_eq]
  have form' : epax.CForm text := form.part (List.suffix_cons ' ' text).isInfix
  have kept : ¬ epax.drops text = true := by
    have unstarred : ∀ line ∈ epax.removed, line.head? ≠ some '*' := by decide
    exact fun removed => unstarred text (drops_iff.1 removed) starred
  have apart : ∀ token : Text, token.head? ≠ some '*' → head ≠ token := by
    rintro token unstarred rfl
    exact unstarred first
  have inline : rest.head? ≠ some "//".toList := by
    rwa [split, List.getElem?_cons_succ, ← List.head?_eq_getElem?] at uncommented
  simp only [convert_of_tokens epax split', trimmed, form'.respell_eq,
    if_neg (apart "class".toList (by decide)), if_neg (apart "typedef".toList (by decide)), if_neg kept,
    if_neg (apart "//".toList (by decide)), if_neg (apart "/**".toList (by decide)), if_neg inline, gapBefore, split',
    List.head?_cons, Option.some.injEq, indentStar, if_pos starred, List.nil_append]

/-- A settled line that is not empty is kept, behind the gap that it is converted with. -/
theorem Settled.convert_eq (settled : Settled previous next line) (form : epax.CForm line)
    (unremoved : line ∉ epax.removed) (nonempty : line ≠ []) : epax.convert line = gapBefore line ++ [line] := by
  cases settled with
  | gap follows opens => exact absurd rfl nonempty
  | margin firm plain spaced unstarred => exact convert_margin form unremoved firm plain unstarred
  | body firm starred uncommented => exact convert_body form firm starred uncommented

/-- A settled block comment has an empty line in front. -/
theorem Settled.spaced (settled : Settled previous next line) (opens : (Text.tokens line).head? = some "/**".toList) :
    previous = some [] := by
  cases settled with
  | gap follows opens' => cases opens
  | margin firm plain spaced unstarred => exact spaced opens
  | @body text firm starred uncommented =>
    obtain ⟨head, rest, split, same⟩ := firm.tokens_eq
    rw [Text.tokens_cons_blank rfl, split, List.head?_cons, Option.some.injEq] at opens
    rw [starred, opens] at same
    exact absurd same (by decide)

/-- The empty line that has been passed and not yet been written. -/
def owed (previous : Option Text) : List Text := if previous = some [] then [[]] else []

/-- The token that the first of some lines starts with. -/
def opening (lines : List Text) : Option Text := lines.head?.bind fun line => (Text.tokens line).head?

/-- Behind some line, settled lines are converted to themselves and what is owed. An empty line
    is passed only in front of a block comment. -/
theorem flatMap_convert {lines : List Text} (form : ∀ line ∈ lines, epax.CForm line)
    (unremoved : ∀ line ∈ lines, line ∉ epax.removed) (settled : AllSettled previous lines)
    (awaited : previous = some [] → opening lines = some "/**".toList) :
    lines.flatMap epax.convert = owed previous ++ lines := by
  induction lines generalizing previous with
  | nil =>
    have unowed : previous ≠ some [] := mt awaited nofun
    rw [owed, if_neg unowed]
    rfl
  | cons line rest ih =>
    obtain ⟨here, later⟩ := settled
    have ih := ih (fun other h => form other (List.mem_cons_of_mem line h))
      (fun other h => unremoved other (List.mem_cons_of_mem line h)) later
    rw [List.flatMap_cons]
    by_cases empty : line = []
    · subst empty
      have unowed : previous ≠ some [] := mt awaited nofun
      cases here with
      | gap follows opens =>
        have next : opening rest = some "/**".toList := by rw [opening, follows, Option.bind_some, opens]
        rw [ih fun _ => next, owed, owed, if_pos rfl, if_neg unowed]
        rfl
      | margin firm plain spaced unstarred =>
        obtain ⟨⟨c, none, -⟩, -⟩ := firm
        cases none
    · have owing : owed previous = gapBefore line := by
        have iff : previous = some [] ↔ (Text.tokens line).head? = some "/**".toList := ⟨awaited, here.spaced⟩
        simp only [owed, gapBefore, iff]
      have unowed : some line ≠ some [] := mt Option.some.inj empty
      rw [here.convert_eq (form line List.mem_cons_self) (unremoved line List.mem_cons_self) empty,
        ih fun passed => absurd passed unowed, owing, owed, if_neg unowed]
      simp

theorem StableHeader.flatMap_convert_eq {lines : List Text} (stable : StableHeader lines) :
    lines.flatMap epax.convert = lines :=
  flatMap_convert stable.cForm stable.unremoved stable.settled nofun

theorem Settled.unreturned (settled : Settled previous next line) : line.getLast? ≠ some '\r' := by
  cases settled with
  | gap follows opens => nofun
  | margin firm plain spaced unstarred => exact firm.unreturned
  | @body text firm starred uncommented =>
    obtain ⟨c, rest, rfl⟩ : ∃ c rest, text = c :: rest := List.exists_cons_of_ne_nil (by rintro rfl; cases starred)
    exact firm.unreturned

theorem AllSettled.unreturned {lines : List Text} (settled : AllSettled previous lines) :
    ∀ line ∈ lines, line.getLast? ≠ some '\r' := by
  induction lines generalizing previous with
  | nil => nofun
  | cons line rest ih =>
    intro other member
    rcases List.mem_cons.1 member with rfl | later
    · exact settled.1.unreturned
    · exact ih settled.2 other later

end Rules

/-- The transcript of a stable header is the header, byte for byte, and all its lines are
    counted. -/
theorem transcribe_stable {lines : List Text} (stable : Rules.StableHeader lines) (labels : Labels) {sink : Sink}
    (unlimited : sink.limit = none) :
    let header := Utf8.encode (lines.flatMap (· ++ ['\n']))
    transcribe Rules.epax labels { data := header } sink = (sink.append header, .ok lines.length) := by
  have cut : Text.lines (lines.flatMap (· ++ ['\n'])) = lines := Text.lines_flatMap stable.unbroken stable.settled.unreturned
  have rendered : Rules.epax.rendering lines = Utf8.encode (lines.flatMap (· ++ ['\n'])) := by
    rw [Rules.rendering_eq_encode, stable.flatMap_convert_eq]
  intro header
  rw [transcribe_of_unlimited unlimited, Source.legible_encode, Source.obstacle_encode, Source.lines_encode, cut, rendered,
    List.length_map]

theorem transcribe_stable_comments :
    let lines := [[], "/** Creates a EPAX_bin".toList, ' ' :: "* @return none".toList, "*[] // odd".toList, "\x7d;".toList]
    Rules.StableHeader lines ∧ ({} : Sink).limit = none ∧
      ∀ labels, transcribe Rules.epax labels { data := Utf8.encode (lines.flatMap (· ++ ['\n'])) } ({} : Sink) =
        (({} : Sink).append (Utf8.encode (lines.flatMap (· ++ ['\n']))), .ok 5) := by
  intro lines
  have unnamed : ∀ line ∈ lines, ∀ name ∈ Rules.epax.objects, ¬ name <:+: line := by decide +kernel
  have unkeyed : ∀ line ∈ lines, ∀ rule ∈ Rules.epax.substitutions, ¬ rule.1 <:+: line := by decide +kernel
  have stable : Rules.StableHeader lines := {
    unbroken := by decide
    cForm := fun line member => ⟨unnamed line member, unkeyed line member⟩
    unremoved := by decide
    settled :=
      ⟨.gap rfl rfl, .margin (by decide) (by decide) (fun _ => rfl) (by decide), .body (by decide) rfl (by decide),
        .margin (by decide) (by decide) (by decide) (fun _ => rfl), .margin (by decide) (by decide) (by decide) (by decide),
        trivial⟩ }
  exact ⟨stable, rfl, fun labels => transcribe_stable stable labels rfl⟩

end PlainHeader
