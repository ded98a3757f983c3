import PlainHeader.Proofs.Conversion
import PlainHeader.Proofs.Locality
import PlainHeader.Proofs.Transcript

/-!
# No object name in a header

A line that is laid out stands in C spelling, where no object name stands, and one space
in front of it completes none. A pointer type has no capital letters but those of the
prefix `EPAX_`, and every object name has another one. Names hold no line feed and are
ASCII, so what is true of the lines is true of the bytes that a transcript writes, also
when it stops within a line.
-/

namespace PlainHeader

/-- A text without line feeds that stands in no line does not stand in the lines joined. -/
theorem not_infix_flatMap {pattern : Text} (unbroken : '\n' ∉ pattern) (nonempty : pattern ≠ []) {lines : List Text}
    (absent : ∀ line ∈ lines, ¬ pattern <:+: line) : ¬ pattern <:+: lines.flatMap (· ++ ['\n']) := by
  induction lines with
  | nil => exact fun stands => nonempty (List.infix_nil.1 stands)
  | cons line lines ih =>
    intro stands
    rw [List.flatMap_cons, List.append_assoc, List.singleton_append] at stands
    rcases (Text.infix_append_cons_iff unbroken _ _).1 stands with here | later
    · exact absent line List.mem_cons_self here
    · exact ih (fun other h => absent other (List.mem_cons_of_mem line h)) later

/-! ## Lines -/

theorem pointerTypedef_eq (declared : Text) :
    pointerTypedef declared = "typedef void* EPAX_".toList ++ declared.map Char.toLower := rfl

theorem capital_pointerTypedef {declared : Text} {c : Char} (inside : c ∈ pointerTypedef declared)
    (capital : c.isUpper = true) : c ∈ "EPAX".toList := by
  have fixed : ("typedef void* EPAX_".toList.all fun d => !d.isUpper || "EPAX".toList.contains d) = true := by decide
  rw [pointerTypedef_eq] at inside
  rcases List.mem_append.1 inside with front | lowered
  · simpa [capital] using List.all_eq_true.1 fixed c front
  · obtain ⟨d, -, rfl⟩ := List.mem_map.1 lowered
    exact absurd capital (not_isUpper_toLower d)

namespace Rules

/-- Every object name has a capital letter that the prefix does not have. -/
theorem exists_capital_object : ∀ name ∈ epax.objects, ∃ c ∈ name, c.isUpper = true ∧ c ∉ "EPAX".toList := by
  have found : ∀ name ∈ epax.objects, (name.any fun c => c.isUpper && !"EPAX".toList.contains c) = true := by decide
  intro name known
  simpa using found name known

theorem not_infix_pointerTypedef {name : Text} (known : name ∈ epax.objects) (declared : Text) :
    ¬ name <:+: pointerTypedef declared := by
  intro stands
  obtain ⟨c, inside, capital, foreign⟩ := exists_capital_object name known
  exact foreign (capital_pointerTypedef (stands.subset inside) capital)

theorem object_nonempty : ∀ name ∈ epax.objects, name ≠ [] := by decide

theorem object_word : ∀ name ∈ epax.objects, Utf8.Ascii name ∧ ' ' ∉ name ∧ '\n' ∉ name := by
  decide

theorem not_infix_convert {name : Text} (known : name ∈ epax.objects) {raw line : Text} (h : line ∈ epax.convert raw) :
    ¬ name <:+: line := by
  have empty : ¬ name <:+: [] := fun stands => object_nonempty name known (List.infix_nil.1 stands)
  have spelled := not_infix_respell (origins_object name known) (Text.trim raw)
  rcases mem_convert_cases h with nothing | ⟨declared, -, declares⟩ | plain | ⟨indents, -⟩
  · exact nothing ▸ empty
  · exact declares ▸ not_infix_pointerTypedef known declared
  · exact plain ▸ spelled
  · rw [indents]
    intro (stands : name <:+: [] ++ ' ' :: epax.respell (Text.trim raw))
    rcases (Text.infix_append_cons_iff (object_word name known).2.1 _ _).1 stands with nowhere | inside
    · exact empty nowhere
    · exact spelled inside

/-! ## Bytes -/

theorem not_infix_rendering {name : Text} (known : name ∈ epax.objects) (texts : List Text) :
    ¬ Utf8.encode name <:+: epax.rendering texts := by
  have nonempty := object_nonempty name known
  obtain ⟨ascii, -, unbroken⟩ := object_word name known
  rw [rendering_eq_encode]
  intro stands
  refine not_infix_flatMap unbroken nonempty ?_ (Utf8.infix_of_encode_infix ascii nonempty stands)
  intro line converted
  obtain ⟨raw, -, h⟩ := List.mem_flatMap.1 converted
  exact not_infix_convert known h

end Rules

/-- A transcript adds to a sink the front of the rendering that the sink has room for. -/
theorem transcribe_sink (rules : Rules) (labels : Labels) (source : Source) (sink : Sink) :
    (transcribe rules labels source sink).1 = sink.append (sink.fitting (rules.rendering source.legible)) := by
  have taken : (sink.write (rules.rendering source.legible)).1 =
      sink.append (sink.fitting (rules.rendering source.legible)) := rfl
  rw [← taken, transcribe_eq]
  rcases sink.write (rules.rendering source.legible) with ⟨next, _ | cause⟩ <;> rfl

/-- No line of a header holds an object name, whatever line it was converted from, and no
    transcript adds bytes to a sink that hold one, however it ends. -/
theorem no_object_in_header :
    (∀ raw, ∀ line ∈ Rules.epax.convert raw, ∀ name ∈ Rules.epax.objects, ¬ name <:+: line) ∧
      ∀ (labels : Labels) (source : Source) (sink : Sink), ∃ written,
        (transcribe Rules.epax labels source sink).1.bytes = sink.bytes ++ written ∧
          ∀ name ∈ Rules.epax.objects, ¬ Utf8.encode name <:+: written := by
  constructor
  · intro raw line converted name known
    exact Rules.not_infix_convert known converted
  · intro labels source sink
    refine ⟨sink.fitting (Rules.epax.rendering source.legible), ?_, ?_⟩
    · rw [transcribe_sink, Sink.bytes_append]
    · intro name known stands
      have whole := stands.trans (sink.fitting_starts _).isInfix
      exact Rules.not_infix_rendering known _ whole

theorem no_names_in_typedef :
    ("typedef void* EPAX_bbloop_funcfg;".toList ∈ Rules.epax.convert " typedef Graph BBLOOP_FUNCFG;\r".toList ∧
        "CFG".toList ∈ Rules.epax.objects) ∧
      ¬ "CFG".toList <:+: "typedef void* EPAX_bbloop_funcfg;".toList :=
  ⟨by decide, no_object_in_header.1 " typedef Graph BBLOOP_FUNCFG;\r".toList _ (by decide) _ (by decide)⟩

end PlainHeader
