import PlainHeader.Proofs.Residue

/-!
# Rewriting is local

An occurrence of a key is found by looking at the text from where it starts to where it ends.
So a text can be cut before it is rewritten, wherever no occurrence lies across the cut: the
walk reaches the cut between two steps, and both sides come to what they would alone. A
character that stands in no key of a table is such a cut on either side, for every rule of the
table and in whatever the rules before it have written.
-/

namespace PlainHeader

namespace Text

variable {key new pattern front rest : Text}

/-! ## Cuts -/

/-- No occurrence of the pattern lies across the place where `front` ends and `rest` starts. -/
def Uncrossed (pattern front rest : Text) : Prop :=
  ∀ i, 0 < i → i < pattern.length → pattern.take i <:+ front → ¬ pattern.drop i <+: rest

theorem Uncrossed.of_suffix {shorter : Text} (uncrossed : Uncrossed pattern front rest) (ends : shorter <:+ front) :
    Uncrossed pattern shorter rest := by
  intro i inside below taken
  exact uncrossed i inside below (taken.trans ends)

/-- A character that is not in the pattern is a cut in front of it. -/
theorem uncrossed_separator {c : Char} (foreign : c ∉ pattern) (front rest : Text) : Uncrossed pattern front (c :: rest) := by
  intro i _ below _ follows
  have some_left : pattern.drop i ≠ [] := by simpa using below
  exact foreign (List.mem_of_mem_drop (mem_of_prefix_cons some_left follows))

/-- What stands in a text stands on one side of a cut. -/
theorem Uncrossed.infix_append_iff (uncrossed : Uncrossed pattern front rest) :
    pattern <:+: front ++ rest ↔ pattern <:+: front ∨ pattern <:+: rest := by
  constructor
  · intro stands
    rcases List.infix_append_iff_ne_nil.1 stands with within | behind | ⟨early, late, nonempty, left, rfl, ends, starts⟩
    · exact .inl within
    · exact .inr behind
    · have below : early.length < (early ++ late).length := by
        have := List.length_pos_iff.2 left
        rw [List.length_append]
        omega
      refine absurd ?_ (uncrossed early.length (List.length_pos_iff.2 nonempty) below (by rwa [List.take_left]))
      rwa [List.drop_left]
  · rintro (within | behind)
    · exact within.trans (List.prefix_append front rest).isInfix
    · exact behind.trans (List.suffix_append front rest).isInfix

/-- What stands in a text stands on one side of a character that is not in it. -/
theorem infix_append_cons_iff {c : Char} (foreign : c ∉ pattern) (front rest : Text) :
    pattern <:+: front ++ c :: rest ↔ pattern <:+: front ∨ pattern <:+: rest := by
  rw [(uncrossed_separator foreign front rest).infix_append_iff, List.infix_cons_iff]
  by_cases empty : pattern = []
  · simp [empty]
  · have unstarted : ¬ pattern <+: c :: rest := fun starts => foreign (mem_of_prefix_cons empty starts)
    rw [or_iff_right unstarted]

/-- Both sides of a cut are rewritten as if they stood alone. -/
theorem replace_append (nonempty : key ≠ []) (new : Text) {front rest : Text} (uncrossed : Uncrossed key front rest) :
    replace key new (front ++ rest) = replace key new front ++ replace key new rest := by
  rcases replace_cases nonempty new front with ⟨later, rfl, replaced⟩ | ⟨c, later, rfl, absent, replaced⟩ | ⟨rfl, replaced⟩
  · have shorter := length_lt_append nonempty later
    have onward := replace_append nonempty new (uncrossed.of_suffix (List.suffix_append key later))
    rw [replaced, List.append_assoc, replace_key_append nonempty, onward, List.append_assoc]
  · have unstarted : ¬ key <+: c :: (later ++ rest) := by
      intro (starts : key <+: (c :: later) ++ rest)
      rcases prefix_append_cases starts with within | ⟨behind, rfl, follows⟩
      · exact absent within
      · -- the key ends behind the cut, unless it ends at it
        by_cases whole : behind = []
        · exact absent (by rw [whole, List.append_nil])
        · refine uncrossed (c :: later).length (by simp) ?_ ?_ ?_
          · have := List.length_pos_iff.2 whole
            rw [List.length_append]
            omega
          · rw [List.take_left]
          · rwa [List.drop_left]
    have onward := replace_append nonempty new (uncrossed.of_suffix (List.suffix_cons c later))
    rw [replaced, List.cons_append, replace_copy unstarted, onward, List.cons_append]
  · rw [replaced, List.nil_append, List.nil_append]
termination_by front.length

/-! ## Patterns out of each other's way -/

/-- The pattern starts nowhere in `front` when `rest` follows. -/
def Unstarted (pattern front rest : Text) : Prop := ∀ i < front.length, ¬ pattern <+: front.drop i ++ rest

theorem replace_unstarted (new : Text) (unstarted : Unstarted key front rest) :
    replace key new (front ++ rest) = front ++ replace key new rest := by
  induction front with
  | nil => rfl
  | cons c front ih =>
    have here : ¬ key <+: c :: (front ++ rest) := unstarted 0 (Nat.zero_lt_succ _)
    rw [List.cons_append, replace_copy here, ih fun i below => unstarted (i + 1) (Nat.succ_lt_succ below), List.cons_append]

/-- A pattern that starts nowhere in the front stands in the rest. -/
theorem infix_of_unstarted (unstarted : Unstarted pattern front rest) (stands : pattern <:+: front ++ rest) :
    pattern <:+: rest := by
  induction front with
  | nil => exact stands
  | cons c front ih =>
    have later : Unstarted pattern front rest := fun i below => unstarted (i + 1) (Nat.succ_lt_succ below)
    rcases List.infix_cons_iff.1 stands with starts | inside
    · exact absurd starts (unstarted 0 (Nat.zero_lt_succ _))
    · exact ih later inside

theorem unstarted_singleton {c : Char} : Unstarted pattern [c] rest ↔ ¬ pattern <+: c :: rest := by
  constructor
  · intro unstarted
    exact unstarted 0 Nat.zero_lt_one
  · intro absent i below
    obtain rfl : i = 0 := Nat.lt_one_iff.1 below
    exact absent

theorem not_prefix_append (longer : ¬ pattern <+: front) (shorter : ¬ front <+: pattern) (rest : Text) :
    ¬ pattern <+: front ++ rest := by
  intro starts
  rcases List.prefix_or_prefix_of_prefix starts (List.prefix_append front rest) with inside | around
  · exact longer inside
  · exact shorter around

/-- Nowhere in `pattern` does `other` start, neither to end within it nor to reach out of it. -/
def Clear (pattern other : Text) : Prop :=
  ∀ i < pattern.length, ¬ pattern.drop i <+: other ∧ ¬ other <+: pattern.drop i

instance (pattern other : Text) : Decidable (Clear pattern other) :=
  inferInstanceAs (Decidable (∀ i < pattern.length, ¬ pattern.drop i <+: other ∧ ¬ other <+: pattern.drop i))

theorem Clear.drop {other : Text} (clear : Clear pattern other) (n : Nat) : Clear (pattern.drop n) other := by
  intro i below
  rw [List.drop_drop]
  refine clear (n + i) ?_
  rw [List.length_drop] at below
  omega

theorem Clear.unstarted {other : Text} (clear : Clear front other) (rest : Text) : Unstarted other front rest := by
  intro i below
  obtain ⟨shorter, longer⟩ := clear i below
  exact not_prefix_append longer shorter rest

/-- A pattern that keeps clear of the replacement starts a rewritten text only if it has been
    copied there. -/
theorem prefix_of_prefix_replace (nonempty : key ≠ []) (clear : Clear pattern new) {text : Text}
    (starts : pattern <+: replace key new text) : pattern <+: text := by
  induction pattern generalizing text with
  | nil => exact List.nil_prefix
  | cons c pattern ih =>
    have apart := clear 0 (Nat.zero_lt_succ _)
    rcases replace_cases nonempty new text with ⟨rest, rfl, replaced⟩ | ⟨d, rest, rfl, -, replaced⟩ | ⟨rfl, replaced⟩
    · rw [replaced] at starts
      rcases List.prefix_or_prefix_of_prefix starts (List.prefix_append new _) with inside | around
      · exact absurd inside apart.1
      · exact absurd around apart.2
    · rw [replaced, List.cons_prefix_cons] at starts
      exact List.cons_prefix_cons.2 ⟨starts.1, ih (clear.drop 1) starts.2⟩
    · rwa [replaced] at starts

theorem Unstarted.replace (unstarted : Unstarted pattern front rest) (nonempty : key ≠ []) (clear : Clear pattern new) :
    Unstarted pattern front (replace key new rest) := by
  intro i below starts
  refine unstarted i below ?_
  rcases prefix_append_cases starts with inside | ⟨behind, rfl, follows⟩
  · exact inside.trans (List.prefix_append _ rest)
  · have later := clear.drop (front.drop i).length
    rw [List.drop_left] at later
    exact (List.prefix_append_right_inj _).2 (prefix_of_prefix_replace nonempty later follows)

/-! ## Separators -/

/-- A character that is not in the key is copied and separates what stands around it. An empty
    key stands on both sides of it. -/
theorem replace_separator {c : Char} (foreign : c ∉ key) (new front rest : Text) :
    replace key new (front ++ c :: rest) = replace key new front ++ c :: replace key new rest := by
  by_cases empty : key = []
  · simp [empty]
  · have unstarted : ¬ key <+: c :: rest := by
      intro starts
      exact foreign (mem_of_prefix_cons empty starts)
    rw [replace_append empty new (uncrossed_separator foreign front rest), replace_copy unstarted]

theorem replaceEach_separator {rules : List (Text × Text)} {c : Char} (foreign : ∀ rule ∈ rules, c ∉ rule.1)
    (front rest : Text) :
    replaceEach rules (front ++ c :: rest) = replaceEach rules front ++ c :: replaceEach rules rest := by
  induction rules generalizing front rest with
  | nil => rfl
  | cons rule rules ih =>
    rw [replaceEach_cons, replace_separator (foreign rule List.mem_cons_self)]
    exact ih (fun other h => foreign other (List.mem_cons_of_mem rule h)) _ _

end Text

namespace Rules

/-- A character that stands in no object name and in no key of a table. It may stand in the
    replacements. -/
structure Separator (rules : Rules) (c : Char) : Prop where
  unnamed : ∀ name ∈ rules.objects, c ∉ name
  unkeyed : ∀ rule ∈ rules.substitutions, c ∉ rule.1

instance (rules : Rules) (c : Char) : Decidable (rules.Separator c) :=
  decidable_of_iff ((∀ name ∈ rules.objects, c ∉ name) ∧ ∀ rule ∈ rules.substitutions, c ∉ rule.1)
    ⟨fun separates => ⟨separates.1, separates.2⟩, fun separates => ⟨separates.unnamed, separates.unkeyed⟩⟩

theorem Separator.cNames {rules : Rules} {c : Char} (separates : rules.Separator c) : ∀ rule ∈ rules.cNames, c ∉ rule.1 := by
  intro rule naming
  obtain ⟨name, known, rfl⟩ := List.mem_map.1 naming
  exact separates.unnamed name known

/-- Under every table, the texts on both sides of a separator are rewritten independently, by
    the renaming, by the substitutions and by both together. In the EPAX table the marks
    between parameters and declarations, the tab and the line feed are separators. -/
theorem respell_separator :
    (∀ c ∈ [',', ';', '(', ')', '\t', '\n'], epax.Separator c) ∧
      ∀ (rules : Rules) (c : Char), rules.Separator c → ∀ front rest,
        rules.respell (front ++ [c] ++ rest) = rules.respell front ++ [c] ++ rules.respell rest ∧
          rules.nameObjects (front ++ [c] ++ rest) = rules.nameObjects front ++ [c] ++ rules.nameObjects rest ∧
            rules.substituteAll (front ++ [c] ++ rest) = rules.substituteAll front ++ [c] ++ rules.substituteAll rest := by
  constructor
  · intro c listed
    have marks : ([',', ';', '(', ')', '\t', '\n'].all fun c => decide (epax.Separator c)) = true := by decide +kernel
    exact of_decide_eq_true (List.all_eq_true.1 marks c listed)
  · intro rules c separates front rest
    simp only [List.append_assoc, List.singleton_append]
    have named := Text.replaceEach_separator separates.cNames front rest
    have substituted := Text.replaceEach_separator separates.unkeyed
    refine ⟨?_, named, substituted front rest⟩
    calc rules.respell (front ++ c :: rest)
        = rules.substituteAll (rules.nameObjects front ++ c :: rules.nameObjects rest) := congrArg rules.substituteAll named
      _ = rules.respell front ++ c :: rules.respell rest := substituted _ _

/-- The empty key stands around the separator, and the replacement brings in another one. -/
theorem respell_separator_empty_key :
    Separator { objects := [[]], substitutions := [("_b".toList, ",".toList)], removed := [] } ',' ∧
      respell { objects := [[]], substitutions := [("_b".toList, ",".toList)], removed := [] } "a,b".toList =
        "EPAX_aEPAX_,EPAX,EPAX_".toList := by
  have separates : Separator { objects := [[]], substitutions := [("_b".toList, ",".toList)], removed := [] } ',' := by
    decide
  refine ⟨separates, ?_⟩
  exact (respell_separator.2 _ ',' separates "a".toList "b".toList).1.trans (by decide)

end Rules

end PlainHeader
