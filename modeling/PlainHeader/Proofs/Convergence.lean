import Mathlib.Order.WellFounded
import PlainHeader.Proofs.Residue

/-!
# Applied again and again, the EPAX table comes to rest

Some rules of the table make a text longer, but what they look for is used up: no object name
stands in a text in C spelling, nor does a key of theirs, except for the end of the namespace,
which a container of objects can complete in one application and no second one. From the third
application on only rules that shorten the text find anything, so an application changes
nothing or takes characters away, and characters run out.
-/

namespace PlainHeader

namespace Text

/-- The new text is the old one or has fewer characters. -/
def Wanes (old new : Text) : Prop := new = old ∨ new.length < old.length

theorem Wanes.le {old new : Text} (wanes : Wanes old new) : new.length ≤ old.length := by
  rcases wanes with rfl | shorter
  · exact le_rfl
  · exact shorter.le

theorem Wanes.trans {old middle new : Text} (first : Wanes old middle) (second : Wanes middle new) : Wanes old new := by
  rcases first with rfl | shorter
  · exact second
  · exact .inr (second.le.trans_lt shorter)

variable {key new : Text}

/-- A rule whose replacement is shorter than its key changes nothing or shortens the text. -/
theorem wanes_replace (shortens : new.length < key.length) (text : Text) : Wanes text (replace key new text) := by
  have nonempty : key ≠ [] := by
    rintro rfl
    exact absurd shortens (Nat.not_lt_zero _)
  rcases replace_cases nonempty new text with ⟨rest, rfl, replaced⟩ | ⟨c, rest, rfl, -, replaced⟩ | ⟨rfl, replaced⟩
  · have smaller := length_lt_append nonempty rest
    have later := (wanes_replace shortens rest).le
    right
    rw [replaced, List.length_append, List.length_append]
    omega
  · rw [replaced]
    rcases wanes_replace shortens rest with same | shorter
    · exact .inl (congrArg (c :: ·) same)
    · exact .inr (Nat.succ_lt_succ shorter)
  · exact .inl replaced
termination_by text.length

/-- The rules of a table that do not shorten a text find their keys only in what has grown out
    of one of the patterns. -/
def GrowsFrom (patterns : List Text) (rules : List (Text × Text)) : Prop :=
  ∀ i, ∀ below : i < rules.length,
    rules[i].2.length < rules[i].1.length ∨
      ∀ origin ∈ originsEach (rules.take i) rules[i].1, ∃ pattern ∈ patterns, pattern <:+: origin

instance (patterns : List Text) (rules : List (Text × Text)) : Decidable (GrowsFrom patterns rules) :=
  inferInstanceAs (Decidable (∀ i, ∀ below : i < rules.length,
    rules[i].2.length < rules[i].1.length ∨
      ∀ origin ∈ originsEach (rules.take i) rules[i].1, ∃ pattern ∈ patterns, pattern <:+: origin))

/-- A text without the patterns wanes under every front of the table. -/
theorem GrowsFrom.wanes_take {patterns : List Text} {rules : List (Text × Text)} (grows : GrowsFrom patterns rules)
    (sound : ∀ rule ∈ rules, rule.1 ≠ [] ∧ rule.2 ≠ []) {text : Text} (absent : ∀ pattern ∈ patterns, ¬ pattern <:+: text)
    (i : ℕ) (within : i ≤ rules.length) : Wanes text (replaceEach (rules.take i) text) := by
  induction i with
  | zero => exact .inl rfl
  | succ i ih =>
    refine (ih (Nat.le_of_succ_le within)).trans ?_
    have step : replaceEach (rules.take (i + 1)) text =
        replace rules[i].1 rules[i].2 (replaceEach (rules.take i) text) := by
      rw [List.take_succ_eq_append_getElem within, replaceEach_append]
      rfl
    rw [step]
    rcases grows i within with shortens | traced
    · exact wanes_replace shortens _
    · -- a rule that does not shorten the text does not find its key
      left
      apply replace_eq_self
      intro stands
      have earlier : ∀ rule ∈ rules.take i, rule.1 ≠ [] ∧ rule.2 ≠ [] := fun rule h => sound rule (List.mem_of_mem_take h)
      obtain ⟨origin, known, inside⟩ := exists_originEach earlier stands
      obtain ⟨pattern, listed, part⟩ := traced origin known
      exact absent pattern listed (part.trans inside)

theorem GrowsFrom.wanes {patterns : List Text} {rules : List (Text × Text)} (grows : GrowsFrom patterns rules)
    (sound : ∀ rule ∈ rules, rule.1 ≠ [] ∧ rule.2 ≠ []) {text : Text} (absent : ∀ pattern ∈ patterns, ¬ pattern <:+: text) :
    Wanes text (replaceEach rules text) := by
  have whole := grows.wanes_take sound absent rules.length le_rfl
  rwa [List.take_length] at whole

end Text

namespace Rules

/-! ## What makes a text grow -/

/-- The end of the namespace, the one key that stays behind and makes a text longer. -/
def namespaceEnd : Text := "\x7d // namespace EPAX".toList

/-- The patterns without which no application makes a text longer. -/
def growthPatterns : List Text := namespaceEnd :: (epax.objects ++ spentKeys)

theorem growsFrom_growthPatterns : Text.GrowsFrom growthPatterns (epax.cNames ++ epax.substitutions) := by
  unfold growthPatterns namespaceEnd spentKeys cNames epax linkageOpen linkageClose cName
  dsimp only [List.map]
  simp only [String.reduceToList]
  decide +kernel

theorem wanes_respell {text : Text} (absent : ∀ pattern ∈ growthPatterns, ¬ pattern <:+: text) :
    Text.Wanes text (epax.respell text) := by
  rw [respell_eq_replaceEach]
  exact growsFrom_growthPatterns.wanes epax_nonempty absent

theorem spent_of_mem {pattern : Text} (listed : pattern ∈ epax.objects ++ spentKeys) (text : Text) :
    ¬ pattern <:+: epax.respell text := by
  rcases List.mem_append.1 listed with name | key
  · exact not_infix_respell (origins_object pattern name) text
  · exact not_infix_respell (origins_spentKey pattern key) text

/-- The end of the namespace is left behind only by a text that holds an object name or a key
    that no application leaves behind. -/
theorem origins_namespaceEnd :
    ∀ origin ∈ epax.origins namespaceEnd, ∃ pattern ∈ epax.objects ++ spentKeys, pattern <:+: origin := by
  unfold origins namespaceEnd spentKeys cNames epax linkageOpen linkageClose cName
  dsimp only [List.map]
  simp only [String.reduceToList]
  decide +kernel

theorem growthPattern_absent (text : Text) :
    ∀ pattern ∈ growthPatterns, ¬ pattern <:+: epax.respell (epax.respell text) := by
  intro pattern listed
  rcases List.mem_cons.1 listed with rfl | spent
  · intro stands
    obtain ⟨origin, known, inside⟩ := exists_origin_respell stands
    obtain ⟨part, spent, within⟩ := origins_namespaceEnd origin known
    exact spent_of_mem spent text (within.trans inside)
  · exact spent_of_mem spent _

/-! ## Repeated application -/

theorem wanes_iterate (text : Text) (n : ℕ) : Text.Wanes (epax.respell^[n + 2] text) (epax.respell^[n + 3] text) := by
  have twice : epax.respell^[n + 2] text = epax.respell (epax.respell (epax.respell^[n] text)) := by
    rw [Function.iterate_succ_apply', Function.iterate_succ_apply']
  have next : epax.respell^[n + 3] text = epax.respell (epax.respell^[n + 2] text) := Function.iterate_succ_apply' ..
  rw [next, twice]
  exact wanes_respell (growthPattern_absent _)

/-- Applied again and again to any text, the table comes to a text that it does not change, and
    from the third application on every application that changes the text shortens it. -/
theorem respell_converges (text : Text) :
    (∃ n, epax.respell^[n + 1] text = epax.respell^[n] text) ∧
      ∀ n, epax.respell^[n + 3] text = epax.respell^[n + 2] text ∨
        (epax.respell^[n + 3] text).length < (epax.respell^[n + 2] text).length := by
  constructor
  · -- an application to the shortest text that is ever reached cannot shorten it
    let size (n : ℕ) : ℕ := (epax.respell^[n + 2] text).length
    let least := Function.argmin size
    refine ⟨least + 2, ?_⟩
    rcases wanes_iterate text least with same | shorter
    · exact same
    · exact absurd shorter (Function.not_lt_argmin size (least + 1))
  · exact wanes_iterate text

/-- The second application can still make a text longer. -/
example :
    (epax.respell "\x7d // namespace std::vector<BBL>&".toList).length <
      (epax.respell^[2] "\x7d // namespace std::vector<BBL>&".toList).length := by
  decide +kernel

end Rules

end PlainHeader
