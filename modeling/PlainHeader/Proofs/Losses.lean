import PlainHeader.Proofs.Conversion
import PlainHeader.Proofs.Residue

/-!
# Which lines are lost

A line is dropped by its C spelling, yet the EPAX table spells no line into one that is
dropped, and none out of it: neither a key nor a replacement stands in the three includes. So
what is lost can be told from the line itself. No rule empties a text, and every line that is
not lost leaves one line behind, or two when it opens a block comment.
-/

namespace PlainHeader

namespace Text

/-- A text that holds no key and no replacement is the result of itself alone. -/
theorem replaceEach_eq_iff {rules : List (Text × Text)} {target : Text}
    (inert : ∀ rule ∈ rules, ¬ rule.1 <:+: target ∧ ¬ rule.2 <:+: target) (text : Text) :
    replaceEach rules text = target ↔ text = target := by
  constructor
  · intro reached
    induction rules generalizing text with
    | nil => exact reached
    | cons rule rules ih =>
      obtain ⟨unkeyed, unwritten⟩ := inert rule List.mem_cons_self
      have nonempty : rule.1 ≠ [] := fun empty => unkeyed (empty ▸ List.nil_infix)
      have here := ih (fun other h => inert other (List.mem_cons_of_mem rule h)) _ reached
      rcases replace_eq_self_or_infix nonempty rule.2 text with same | stands
      · exact same.symm.trans here
      · exact absurd (here ▸ stands) unwritten
  · rintro rfl
    exact replaceEach_eq_self fun rule listed => (inert rule listed).1

end Text

namespace Rules

/-- The texts that only they are spelled as, because nothing in them is a key or could have
    been written by a rule. -/
def Inert (rules : Rules) (text : Text) : Prop :=
  ∀ rule ∈ rules.cNames ++ rules.substitutions, ¬ rule.1 <:+: text ∧ ¬ rule.2 <:+: text

theorem Inert.respell_eq_iff {rules : Rules} {target : Text} (inert : rules.Inert target) (text : Text) :
    rules.respell text = target ↔ text = target := by
  rw [respell_eq_replaceEach]
  exact Text.replaceEach_eq_iff inert text

theorem inert_removed : ∀ line ∈ epax.removed, epax.Inert line := by
  unfold Inert
  decide +kernel

theorem respell_mem_removed_iff {text : Text} : epax.respell text ∈ epax.removed ↔ text ∈ epax.removed := by
  constructor
  · intro dropped
    rwa [← ((inert_removed _ dropped).respell_eq_iff text).1 rfl] at dropped
  · intro dropped
    rwa [((inert_removed text dropped).respell_eq_iff text).2 rfl]

theorem respell_eq_nil_iff {text : Text} : epax.respell text = [] ↔ text = [] := by
  have inert : epax.Inert [] := fun rule listed =>
    ⟨mt List.infix_nil.1 (epax_nonempty rule listed).1, mt List.infix_nil.1 (epax_nonempty rule listed).2⟩
  exact inert.respell_eq_iff text

/-! ## Lines -/

/-- The lines that leave nothing behind, told by their tokens and by their trimmed text. -/
def Lost (raw : Text) : Prop :=
  Text.tokens raw = [] ∨
    (Text.tokens raw).head? = some "class".toList ∨
      ((Text.tokens raw).head? = some "typedef".toList ∧ (Text.tokens raw).length ≠ 3) ∨
        Text.trim raw ∈ ["#include <string>".toList, "#include <iostream>".toList, "#include <vector>".toList]

instance (raw : Text) : Decidable (Lost raw) := inferInstanceAs (Decidable (_ ∨ _ ∨ _ ∨ _))

theorem head?_of_removed {raw : Text} (removed : Text.trim raw ∈ epax.removed) :
    (Text.tokens raw).head? = some "#include".toList := by
  have each : ∀ line ∈ epax.removed, (Text.tokens line).head? = some "#include".toList := by decide
  rw [← Text.tokens_trim]
  exact each _ removed

theorem lost_iff_of_tokens {raw head : Text} {rest : List Text} (split : Text.tokens raw = head :: rest) :
    Lost raw ↔
      head = "class".toList ∨ (head = "typedef".toList ∧ rest.length ≠ 2) ∨ Text.trim raw ∈ epax.removed := by
  unfold Lost
  rw [split]
  simp only [reduceCtorEq, false_or, List.head?_cons, Option.some.injEq, List.length_cons, ne_eq, Nat.reduceEqDiff]
  rfl

/-- Two tokens behind `typedef` declare a name, and no other number of them does. -/
theorem declaredName_cases (tokens : List Text) :
    (tokens.length ≠ 2 ∧ LineShape.declaredName tokens = none) ∨
      (tokens.length = 2 ∧ ∃ name, LineShape.declaredName tokens = some name) := by
  rcases tokens with _ | ⟨_, _ | ⟨name, _ | ⟨_, _⟩⟩⟩
  case cons.cons.nil => exact .inr ⟨rfl, name, rfl⟩
  all_goals exact .inl ⟨by simp, rfl⟩

theorem indentStar_ne_nil {text : Text} (nonempty : text ≠ []) : indentStar text ≠ [] := by
  unfold indentStar
  split
  · exact List.cons_ne_nil _ _
  · exact nonempty

theorem convert_of_lost {raw : Text} (lost : Lost raw) : epax.convert raw = [] := by
  cases split : Text.tokens raw with
  | nil => exact convert_of_no_token epax split
  | cons head rest =>
    rw [convert_of_tokens epax split]
    rcases (lost_iff_of_tokens split).1 lost with ofClass | ⟨ofTypedef, other⟩ | removed
    · exact if_pos ofClass
    · rcases declaredName_cases rest with ⟨-, undeclared⟩ | ⟨two, -⟩
      · rw [ofTypedef, undeclared]
        rfl
      · exact absurd two other
    · have dropped : epax.drops (epax.respell (Text.trim raw)) = true :=
        drops_iff.2 (respell_mem_removed_iff.2 removed)
      have first : head = "#include".toList := by simpa [split] using head?_of_removed removed
      rw [dropped, first]
      rfl

/-- A line that is not lost leaves an empty line for the gap in front of a block comment, an
    empty line in place of a comment, and a line that is not empty in all other cases. -/
theorem convert_of_kept {raw : Text} (kept : ¬ Lost raw) :
    ∃ line, line ≠ [] ∧ epax.convert raw =
      if (Text.tokens raw).head? = some "/**".toList then [[], line]
      else if (Text.tokens raw).head? = some "//".toList then [[]] else [line] := by
  cases split : Text.tokens raw with
  | nil => exact absurd (.inl split) kept
  | cons head rest =>
    have solid : epax.respell (Text.trim raw) ≠ [] := by
      rw [ne_eq, respell_eq_nil_iff, Text.trim_eq_nil_iff, split]
      exact List.cons_ne_nil head rest
    rw [lost_iff_of_tokens split, not_or, not_or, not_and] at kept
    obtain ⟨unclassed, declares, unremoved⟩ := kept
    have undropped : ¬ epax.drops (epax.respell (Text.trim raw)) = true := by
      rwa [drops_iff, respell_mem_removed_iff]
    rw [convert_of_tokens epax split, if_neg unclassed]
    by_cases ofTypedef : head = "typedef".toList
    · rcases declaredName_cases rest with ⟨other, -⟩ | ⟨-, name, declared⟩
      · exact absurd other (declares ofTypedef)
      · refine ⟨pointerTypedef name, List.cons_ne_nil _ _, ?_⟩
        rw [declared, ofTypedef]
        rfl
    rw [if_neg ofTypedef, if_neg undropped]
    simp only [List.head?_cons, Option.some.injEq]
    by_cases comment : head = "//".toList
    · refine ⟨_, solid, ?_⟩
      rw [if_pos comment, if_pos comment, comment]
      rfl
    simp only [if_neg comment]
    by_cases inline : rest.head? = some "//".toList
    · exact ⟨_, solid, by rw [if_pos inline]⟩
    · rw [if_neg inline]
      by_cases block : head = "/**".toList
      · exact ⟨_, solid, by rw [if_pos block, if_pos block]⟩
      · exact ⟨_, indentStar_ne_nil solid, by rw [if_neg block, if_neg block]⟩

theorem head?_of_lost {raw : Text} (lost : Lost raw) : (Text.tokens raw).head? ≠ some "/**".toList := by
  cases split : Text.tokens raw with
  | nil => simp
  | cons head rest =>
    rcases (lost_iff_of_tokens split).1 lost with ofClass | ⟨ofTypedef, -⟩ | removed
    · rw [List.head?_cons, ofClass]
      decide
    · rw [List.head?_cons, ofTypedef]
      decide
    · rw [← split, head?_of_removed removed]
      decide

/-- Exactly which lines leave nothing behind, which leave two lines of which the first is
    empty, and that every other line leaves one, which is empty for a comment alone. -/
theorem convert_losses (raw : Text) :
    (epax.convert raw = [] ↔ Lost raw) ∧
      ((∃ line, epax.convert raw = [[], line]) ↔ (Text.tokens raw).head? = some "/**".toList) ∧
        (¬ Lost raw → (Text.tokens raw).head? ≠ some "/**".toList →
          ∃ line, epax.convert raw = [line] ∧ (line = [] ↔ (Text.tokens raw).head? = some "//".toList)) := by
  by_cases lost : Lost raw
  · have nothing := convert_of_lost lost
    refine ⟨iff_of_true nothing lost, iff_of_false ?_ (head?_of_lost lost), fun kept => absurd lost kept⟩
    rintro ⟨line, becomes⟩
    simp [nothing] at becomes
  · obtain ⟨line, solid, becomes⟩ := convert_of_kept lost
    rw [becomes]
    by_cases block : (Text.tokens raw).head? = some "/**".toList
    · rw [if_pos block]
      exact ⟨by simp [lost], iff_of_true ⟨line, rfl⟩ block, fun _ unblocked => absurd block unblocked⟩
    · rw [if_neg block]
      by_cases comment : (Text.tokens raw).head? = some "//".toList
      · rw [if_pos comment]
        exact ⟨by simp [lost], iff_of_false (by simp) block, fun _ _ => ⟨[], rfl, iff_of_true rfl comment⟩⟩
      · rw [if_neg comment]
        exact ⟨by simp [lost], iff_of_false (by simp) block, fun _ _ => ⟨line, rfl, iff_of_false solid comment⟩⟩

theorem convert_losses_include :
    (¬ Lost "\t#include <string> // BIN".toList ∧
        (Text.tokens "\t#include <string> // BIN".toList).head? ≠ some "/**".toList) ∧
      ∃ line, epax.convert "\t#include <string> // BIN".toList = [line] ∧ line ≠ [] := by
  have kept : ¬ Lost "\t#include <string> // BIN".toList := by decide
  have unblocked : (Text.tokens "\t#include <string> // BIN".toList).head? ≠ some "/**".toList := by decide
  obtain ⟨line, becomes, empty_iff⟩ := (convert_losses "\t#include <string> // BIN".toList).2.2 kept unblocked
  exact ⟨⟨kept, unblocked⟩, line, becomes, mt empty_iff.1 (by decide)⟩

end Rules

end PlainHeader
