import PlainHeader.Rules.Basic
import Mathlib.Data.List.Infix

/-!
# Where a pattern in a rewritten text comes from

A rule of a table changes a text at many places at once, and a pattern of the result may
lie across several of them. `origins` goes back through one rule: it lists finitely many
patterns, one of which stands in the old text whenever the given one stands in the new
text. `originsEach` goes back through a whole table. A pattern without origins stands in
no result at all, whatever the text was, and the origins of a pattern are computed.
-/

namespace PlainHeader.Text

/-- The patterns of which one starts a text when `pattern` starts the rewritten text. The
    next `skip` characters of the pattern belong to a replacement already accounted for.
    A character is copied only where the key does not stand. -/
def startOrigins (key new : Text) : Nat → Text → List Text
  | _, [] => [[]]
  | skip + 1, _ :: rest => startOrigins key new skip rest
  | 0, c :: rest =>
    (if (c :: rest).isPrefixOf new then [key]
     else if new.isPrefixOf (c :: rest) then (startOrigins key new (new.length - 1) rest).map (key ++ ·)
     else []) ++
      ((startOrigins key new 0 rest).map (c :: ·)).filter (fun origin => !key.isPrefixOf origin)

/-- The origins of a pattern that starts with `tail`, the end of a replacement. -/
def tailOrigins (key new pattern tail : Text) : List Text :=
  if tail.isPrefixOf pattern then (startOrigins key new tail.length pattern).map (key ++ ·) else []

/-- The patterns of which one stands in a text when `pattern` stands in the rewritten text. -/
def origins (key new pattern : Text) : List Text :=
  startOrigins key new 0 pattern ++ (new.tails.filter (· ≠ [])).flatMap (tailOrigins key new pattern) ++
    if pattern <:+: new then [key] else []

/-- The same for rules that run one after the other. -/
def originsEach : List (Text × Text) → Text → List Text
  | [], pattern => [pattern]
  | (key, new) :: rules, pattern => (originsEach rules pattern).flatMap (origins key new)

variable {key new : Text}

theorem startOrigins_drop (key new : Text) (skip : Nat) (pattern : Text) :
    startOrigins key new skip pattern = startOrigins key new 0 (pattern.drop skip) := by
  induction skip generalizing pattern with
  | zero => simp
  | succ skip ih => cases pattern <;> simp [startOrigins, ih]

theorem replace_copy {c : Char} {rest : Text} (absent : ¬ key <+: c :: rest) :
    replace key new (c :: rest) = c :: replace key new rest :=
  replace_cons (by simpa [← List.isPrefixOf_iff_prefix] using absent) new

/-- A text either starts with the key, or copies its first character, or is empty. -/
theorem replace_cases (nonempty : key ≠ []) (new text : Text) :
    (∃ rest, text = key ++ rest ∧ replace key new text = new ++ replace key new rest) ∨
      (∃ c rest, text = c :: rest ∧ ¬ key <+: text ∧ replace key new text = c :: replace key new rest) ∨
        (text = [] ∧ replace key new text = []) := by
  by_cases stands : key <+: text
  · obtain ⟨rest, rfl⟩ := stands
    exact .inl ⟨rest, rfl, replace_key_append nonempty new rest⟩
  · cases text with
    | nil => exact .inr (.inr ⟨rfl, replace_nil nonempty new⟩)
    | cons c rest => exact .inr (.inl ⟨c, rest, rfl, stands, replace_copy stands⟩)

/-- A pattern that starts a text holds the first character of it. -/
theorem mem_of_prefix_cons {α : Type} {x : α} {pattern rest : List α} (nonempty : pattern ≠ [])
    (starts : pattern <+: x :: rest) : x ∈ pattern := by
  obtain ⟨y, later, rfl⟩ := List.exists_cons_of_ne_nil nonempty
  obtain ⟨rfl, -⟩ := List.cons_prefix_cons.1 starts
  exact List.mem_cons_self

theorem length_lt_append {α : Type} {front : List α} (nonempty : front ≠ []) (rest : List α) : rest.length < (front ++ rest).length := by
  have := List.length_pos_iff.2 nonempty
  rw [List.length_append]
  omega

theorem prefix_append_cases {α : Type} {pattern front rest : List α} (h : pattern <+: front ++ rest) :
    pattern <+: front ∨ ∃ behind, pattern = front ++ behind ∧ behind <+: rest := by
  rcases List.prefix_or_prefix_of_prefix h (List.prefix_append front rest) with within | ⟨behind, rfl⟩
  · exact .inl within
  · exact .inr ⟨behind, rfl, (List.prefix_append_right_inj front).1 h⟩

/-- A pattern that starts a rewritten text has an origin that starts the text. -/
theorem exists_startOrigin (nonempty : key ≠ []) (written : new ≠ []) (pattern text : Text)
    (starts : pattern <+: replace key new text) :
    ∃ origin ∈ startOrigins key new 0 pattern, origin <+: text := by
  cases pattern with
  | nil => exact ⟨[], by simp [startOrigins], List.nil_prefix⟩
  | cons p pattern =>
    rcases replace_cases nonempty new text with ⟨rest, rfl, replaced⟩ | ⟨c, rest, rfl, absent, replaced⟩ | ⟨rfl, replaced⟩
    · rw [replaced] at starts
      by_cases inside : p :: pattern <+: new
      · exact ⟨key, by simp [startOrigins, inside], List.prefix_append key rest⟩
      · obtain ⟨behind, split, starts⟩ := (prefix_append_cases starts).resolve_left inside
        have shorter : behind.length < (p :: pattern).length := split ▸ length_lt_append written behind
        obtain ⟨origin, listed, begins⟩ := exists_startOrigin nonempty written behind rest starts
        have skipped : startOrigins key new (new.length - 1) pattern = startOrigins key new 0 behind := by
          obtain ⟨n, new, rfl⟩ := List.exists_cons_of_ne_nil written
          obtain ⟨rfl, rfl⟩ : p = n ∧ pattern = new ++ behind := by simpa using split
          rw [startOrigins_drop]
          simp
        have around : new <+: p :: pattern := ⟨behind, split.symm⟩
        refine ⟨key ++ origin, ?_, (List.prefix_append_right_inj key).2 begins⟩
        simp [startOrigins, inside, around, skipped, listed]
    · rw [replaced, List.cons_prefix_cons] at starts
      obtain ⟨rfl, starts⟩ := starts
      obtain ⟨origin, listed, begins⟩ := exists_startOrigin nonempty written pattern rest starts
      have begins : p :: origin <+: p :: rest := List.cons_prefix_cons.2 ⟨rfl, begins⟩
      refine ⟨p :: origin, List.mem_append_right _ (List.mem_filter.2 ⟨by simp [listed], ?_⟩), begins⟩
      -- the key cannot start the origin: it would stand where a character was copied
      have unstarted : ¬ key <+: p :: origin := fun h => absent (h.trans begins)
      simpa [← List.isPrefixOf_iff_prefix] using unstarted
    · rw [replaced] at starts
      simp at starts
termination_by pattern.length

/-- A pattern in a rewritten text has an origin in the text. -/
theorem exists_origin (nonempty : key ≠ []) (written : new ≠ []) (pattern text : Text)
    (stands : pattern <:+: replace key new text) : ∃ origin ∈ origins key new pattern, origin <:+: text := by
  have at_start : pattern <+: replace key new text → ∃ origin ∈ origins key new pattern, origin <:+: text := by
    intro starts
    obtain ⟨origin, listed, begins⟩ := exists_startOrigin nonempty written pattern text starts
    exact ⟨origin, by simp [origins, listed], begins.isInfix⟩
  rcases replace_cases nonempty new text with ⟨rest, rfl, replaced⟩ | ⟨c, rest, rfl, -, replaced⟩ | ⟨rfl, replaced⟩
  · rw [replaced, List.infix_append_iff_ne_nil] at stands
    rcases stands with inside | later | ⟨tail, behind, tailed, -, rfl, suffix, onward⟩
    · exact ⟨key, by simp [origins, inside], (List.prefix_append key rest).isInfix⟩
    · have shorter := length_lt_append nonempty rest
      obtain ⟨origin, listed, inside⟩ := exists_origin nonempty written pattern rest later
      exact ⟨origin, listed, inside.trans (List.suffix_append key rest).isInfix⟩
    · obtain ⟨origin, listed, begins⟩ := exists_startOrigin nonempty written behind rest onward
      have from_tail : key ++ origin ∈ tailOrigins key new (tail ++ behind) tail := by
        rw [tailOrigins, startOrigins_drop, List.drop_left]
        simp [listed]
      have known : key ++ origin ∈ origins key new (tail ++ behind) := by
        refine List.mem_append_left _ (List.mem_append_right _ (List.mem_flatMap.2 ⟨tail, ?_, from_tail⟩))
        simpa [tailed] using suffix
      exact ⟨key ++ origin, known, ((List.prefix_append_right_inj key).2 begins).isInfix⟩
  · rw [replaced] at stands
    rcases List.infix_cons_iff.1 stands with starts | later
    · exact at_start (replaced ▸ starts)
    · obtain ⟨origin, listed, inside⟩ := exists_origin nonempty written pattern rest later
      exact ⟨origin, listed, inside.trans (List.suffix_cons c rest).isInfix⟩
  · rw [replaced, List.infix_nil] at stands
    exact at_start (by simp [stands])
termination_by text.length

theorem exists_originEach {rules : List (Text × Text)} (sound : ∀ rule ∈ rules, rule.1 ≠ [] ∧ rule.2 ≠ [])
    {pattern text : Text} (stands : pattern <:+: replaceEach rules text) :
    ∃ origin ∈ originsEach rules pattern, origin <:+: text := by
  induction rules generalizing text with
  | nil => exact ⟨pattern, by simp [originsEach], stands⟩
  | cons rule rules ih =>
    obtain ⟨middle, listed, inside⟩ := ih (fun rule h => sound rule (List.mem_cons_of_mem _ h)) stands
    have here := sound rule List.mem_cons_self
    obtain ⟨origin, first, within⟩ := exists_origin here.1 here.2 middle text inside
    exact ⟨origin, List.mem_flatMap.2 ⟨middle, listed, first⟩, within⟩

/-- A pattern without origins stands in no rewritten text. -/
theorem not_infix_replaceEach {rules : List (Text × Text)} (sound : ∀ rule ∈ rules, rule.1 ≠ [] ∧ rule.2 ≠ [])
    {pattern : Text} (rootless : originsEach rules pattern = []) (text : Text) :
    ¬ pattern <:+: replaceEach rules text := by
  intro stands
  obtain ⟨origin, listed, _⟩ := exists_originEach sound stands
  simp [rootless] at listed

end PlainHeader.Text
