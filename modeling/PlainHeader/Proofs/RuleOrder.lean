import PlainHeader.Proofs.Locality
import Mathlib.Data.List.Nodup

/-!
# Which part of the table order matters

Two rules that keep clear of each other can run in either order: where one key stands, the other
rule finds nothing before and nothing after the replacement, and neither brings a key of the
other about. In the EPAX table three rules keep clear of all others and may run at any time. The
last rule never finds its key, because `std::string` does not come back once its own rule has
run. The order of the other nine is kept.
-/

namespace PlainHeader

namespace Text

/-! ## Rules that commute -/

/-- Where the first rule finds or leaves something, the second finds nothing, and the first does
    not find its key in what the second leaves. -/
def KeepsClear (rule other : Text × Text) : Prop :=
  rule.1 ≠ [] ∧ Clear rule.1 other.1 ∧ Clear rule.2 other.1 ∧ Clear rule.1 other.2

instance (rule other : Text × Text) : Decidable (KeepsClear rule other) := inferInstanceAs (Decidable (_ ∧ _))

/-- Two rules that keep clear of each other. -/
def Independent (rule other : Text × Text) : Prop := KeepsClear rule other ∧ KeepsClear other rule

instance (rule other : Text × Text) : Decidable (Independent rule other) := inferInstanceAs (Decidable (_ ∧ _))

variable {rule other : Text × Text}

/-- At its key a rule is done before and after a rule that keeps clear of it, and both orders go
    on behind the key. -/
theorem KeepsClear.replace_key (apart : KeepsClear rule other) (rest : Text) :
    replace other.1 other.2 (replace rule.1 rule.2 (rule.1 ++ rest)) =
        rule.2 ++ replace other.1 other.2 (replace rule.1 rule.2 rest) ∧
      replace rule.1 rule.2 (replace other.1 other.2 (rule.1 ++ rest)) =
        rule.2 ++ replace rule.1 rule.2 (replace other.1 other.2 rest) := by
  obtain ⟨nonempty, keys, written, -⟩ := apart
  constructor
  · rw [replace_key_append nonempty, replace_unstarted _ (written.unstarted _)]
  · rw [replace_unstarted _ (keys.unstarted _), replace_key_append nonempty]

/-- Where neither key stands, both orders copy the character. -/
theorem KeepsClear.replace_copied (apart : KeepsClear rule other) (keyed : other.1 ≠ []) {c : Char} {rest : Text}
    (absent : ¬ rule.1 <+: c :: rest) (unstarted : ¬ other.1 <+: c :: rest) :
    replace rule.1 rule.2 (replace other.1 other.2 (c :: rest)) =
      c :: replace rule.1 rule.2 (replace other.1 other.2 rest) := by
  have alone := (unstarted_singleton.2 absent).replace keyed apart.2.2.2
  rw [replace_copy unstarted, replace_copy (unstarted_singleton.1 alone)]

theorem Independent.replace_comm (independent : Independent rule other) (text : Text) :
    replace other.1 other.2 (replace rule.1 rule.2 text) = replace rule.1 rule.2 (replace other.1 other.2 text) := by
  have apart := independent.1
  have apart' := independent.2
  -- by what stands at the front: one of the keys, or neither
  by_cases stands : rule.1 <+: text
  · obtain ⟨rest, rfl⟩ := stands
    have shorter := length_lt_append apart.1 rest
    obtain ⟨done, undone⟩ := apart.replace_key rest
    rw [done, undone, independent.replace_comm rest]
  by_cases stands' : other.1 <+: text
  · obtain ⟨rest, rfl⟩ := stands'
    have shorter := length_lt_append apart'.1 rest
    obtain ⟨done, undone⟩ := apart'.replace_key rest
    rw [done, undone, independent.replace_comm rest]
  cases text with
  | nil => rw [replace_nil apart.1, replace_nil apart'.1, replace_nil apart.1]
  | cons c rest =>
    rw [apart.replace_copied apart'.1 stands stands', apart'.replace_copied apart.1 stands' stands,
      independent.replace_comm rest]
termination_by text.length

variable {rules : List (Text × Text)}

/-- A rule runs before or after others that are independent of it. -/
theorem replaceEach_replace (independent : ∀ other ∈ rules, Independent rule other) (text : Text) :
    replaceEach rules (replace rule.1 rule.2 text) = replace rule.1 rule.2 (replaceEach rules text) := by
  induction rules generalizing text with
  | nil => rfl
  | cons other rules ih =>
    have later : ∀ third ∈ rules, Independent rule third := by
      intro third h
      exact independent third (List.mem_cons_of_mem other h)
    calc replaceEach rules (replace other.1 other.2 (replace rule.1 rule.2 text))
        = replaceEach rules (replace rule.1 rule.2 (replace other.1 other.2 text)) := by
          rw [(independent other List.mem_cons_self).replace_comm]
      _ = replace rule.1 rule.2 (replaceEach rules (replace other.1 other.2 text)) := ih later _

/-- Rules that are independent of all the others can be left to the end. -/
theorem replaceEach_partition (movable : Text × Text → Bool)
    (independent : ∀ rule ∈ rules, movable rule = true → ∀ other ∈ rules, movable other = false → Independent rule other)
    (text : Text) :
    replaceEach rules text = replaceEach (rules.filter (!movable ·) ++ rules.filter movable) text := by
  induction rules generalizing text with
  | nil => rfl
  | cons rule rules ih =>
    have later : ∀ third ∈ rules, movable third = true → ∀ other ∈ rules, movable other = false → Independent third other := by
      intro third h moves other h'
      exact independent third (List.mem_cons_of_mem rule h) moves other (List.mem_cons_of_mem rule h')
    rw [replaceEach_cons, ih later]
    by_cases moves : movable rule = true
    · have passed : ∀ other ∈ rules.filter (!movable ·), Independent rule other := by
        intro other h
        obtain ⟨listed, stays⟩ := List.mem_filter.1 h
        exact independent rule List.mem_cons_self moves other (List.mem_cons_of_mem _ listed) (by simpa using stays)
      rw [List.filter_cons_of_neg (by simp [moves]), List.filter_cons_of_pos moves, replaceEach_append, replaceEach_append,
        replaceEach_cons, replaceEach_replace passed]
    · rw [List.filter_cons_of_pos (by simp [moves]), List.filter_cons_of_neg moves, List.cons_append, replaceEach_cons]

/-- Rules that are independent of each other can run in any order. -/
theorem replaceEach_perm {table : List (Text × Text)} (same : table.Perm rules)
    (independent : ∀ rule ∈ rules, ∀ other ∈ rules, rule ≠ other → Independent rule other) (text : Text) :
    replaceEach table text = replaceEach rules text := by
  refine same.foldl_eq' ?_ text
  intro rule h other h' text
  by_cases equal : rule = other
  · rw [equal]
  · exact (independent rule (same.mem_iff.1 h) other (same.mem_iff.1 h') equal).replace_comm text

/-- Two tables of the same rules do the same, if they differ only in where they have rules that
    are independent of all the others. -/
theorem replaceEach_reorder {table : List (Text × Text)} (movable : Text × Text → Bool) (same : table.Perm rules)
    (fixed : table.filter (!movable ·) = rules.filter (!movable ·))
    (independent : ∀ rule ∈ rules, movable rule = true → ∀ other ∈ rules, rule ≠ other → Independent rule other)
    (text : Text) : replaceEach table text = replaceEach rules text := by
  have apart : ∀ rule ∈ rules, movable rule = true → ∀ other ∈ rules, movable other = false → Independent rule other := by
    intro rule h moves other h' stays
    apply independent rule h moves other h'
    rintro rfl
    simp [moves] at stays
  have apart' : ∀ rule ∈ table, movable rule = true → ∀ other ∈ table, movable other = false → Independent rule other := by
    intro rule h moves other h'
    exact apart rule (same.mem_iff.1 h) moves other (same.mem_iff.1 h')
  have among : ∀ rule ∈ rules.filter movable, ∀ other ∈ rules.filter movable, rule ≠ other → Independent rule other := by
    intro rule h other h'
    obtain ⟨listed, moves⟩ := List.mem_filter.1 h
    exact independent rule listed moves other (List.mem_filter.1 h').1
  calc replaceEach table text
      = replaceEach (table.filter movable) (replaceEach (rules.filter (!movable ·)) text) := by
        rw [replaceEach_partition movable apart', replaceEach_append, fixed]
    _ = replaceEach (rules.filter movable) (replaceEach (rules.filter (!movable ·)) text) :=
        replaceEach_perm (same.filter movable) among _
    _ = replaceEach rules text := by
        rw [replaceEach_partition movable apart, replaceEach_append]

end Text

namespace Rules

/-! ## Tables in another order -/

/-- The keys of the rules that keep their order. -/
def orderedKeys : List Text :=
  ["namespace EPAX \x7b".toList, "\x7d // namespace EPAX".toList, "std::vector<EPAX_bbl>&".toList,
   "std::string".toList, "std::vector<EPAX_insn>&".toList, "const const".toList,
   "std::vector<const char*>&".toList, "std::vector<uint64_t>&".toList, "std::vector<EPAX_func>&".toList]

/-- The keys of the rules that may run at any time. -/
def movableKeys : List Text := ["Interface_hpp".toList, "bool".toList, "Interface.hpp".toList]

def orderedRules : List (Text × Text) := epax.substitutions.filter fun rule => orderedKeys.contains rule.1

def isMovable (rule : Text × Text) : Bool := movableKeys.contains rule.1

def stringRule : Text × Text := ("std::string".toList, "const char*".toList)

/-- The last rule of the table. -/
def stringVectorRule : Text × Text := ("std::vector<std::string>&".toList, "char**".toList)

/-- The table without its last rule. -/
def earlierRules : List (Text × Text) := epax.substitutions.erase stringVectorRule

/-- The substitutions of the EPAX table in another order: nine of them are in the order of the
    table, and the last one is left out or comes after the one for `std::string`. -/
structure Reordering (table : List (Text × Text)) : Prop where
  ordered : orderedRules.Sublist table
  complete : table.Perm earlierRules ∨ (table.Perm epax.substitutions ∧ [stringRule, stringVectorRule].Sublist table)

/-! ## The rules that may run at any time -/

theorem independent_movable :
    ∀ rule ∈ earlierRules, isMovable rule = true → ∀ other ∈ earlierRules, rule ≠ other → Text.Independent rule other := by
  unfold earlierRules epax linkageOpen linkageClose isMovable movableKeys stringVectorRule
  simp only [String.reduceToList]
  decide +kernel

theorem replaceEach_earlierRules {table : List (Text × Text)} (same : table.Perm earlierRules)
    (ordered : orderedRules.Sublist table) (text : Text) :
    Text.replaceEach table text = Text.replaceEach earlierRules text := by
  have fixed : table.filter (!isMovable ·) = earlierRules.filter (!isMovable ·) := by
    have known : orderedRules.filter (!isMovable ·) = earlierRules.filter (!isMovable ·) := by decide +kernel
    have within := known ▸ ordered.filter (!isMovable ·)
    exact (within.eq_of_length (same.filter _).length_eq.symm).symm
  exact Text.replaceEach_reorder isMovable same fixed independent_movable text

/-! ## The rule that never runs -/

theorem origins_string :
    ∀ rule ∈ epax.substitutions, ∀ origin ∈ Text.origins rule.1 rule.2 stringRule.1, stringRule.1 <:+: origin := by
  unfold epax linkageOpen linkageClose stringRule
  simp only [String.reduceToList]
  decide +kernel

theorem not_infix_string (text : Text) : ¬ stringRule.1 <:+: Text.replaceEach [stringRule] text :=
  Text.not_infix_replaceEach (by decide) (by decide +kernel) text

/-- No rule brings `std::string` back. -/
theorem not_infix_string_replaceEach {rules : List (Text × Text)} (known : ∀ rule ∈ rules, rule ∈ epax.substitutions)
    {text : Text} (absent : ¬ stringRule.1 <:+: text) : ¬ stringRule.1 <:+: Text.replaceEach rules text := by
  induction rules generalizing text with
  | nil => exact absent
  | cons rule rules ih =>
    have listed := known rule List.mem_cons_self
    have still : ¬ stringRule.1 <:+: Text.replace rule.1 rule.2 text := by
      intro stands
      obtain ⟨nonempty, written⟩ := epax_nonempty rule (List.mem_append_right _ listed)
      obtain ⟨origin, possible, inside⟩ := Text.exists_origin nonempty written _ _ stands
      exact absent ((origins_string rule listed origin possible).trans inside)
    exact ih (fun other h => known other (List.mem_cons_of_mem rule h)) still

/-- Behind the rule for `std::string`, the key of the last rule does not stand. -/
theorem not_infix_stringVector {rules : List (Text × Text)} (known : ∀ rule ∈ rules, rule ∈ epax.substitutions)
    (run : stringRule ∈ rules) (text : Text) : ¬ stringVectorRule.1 <:+: Text.replaceEach rules text := by
  obtain ⟨before, after, rfl⟩ := List.append_of_mem run
  have behind : ∀ rule ∈ after, rule ∈ epax.substitutions := by
    intro rule h
    exact known rule (by simp [h])
  have spent := not_infix_string_replaceEach behind (not_infix_string (Text.replaceEach before text))
  have inside : stringRule.1 <:+: stringVectorRule.1 := by decide
  rw [Text.replaceEach_append]
  intro stands
  exact spent (inside.trans stands)

theorem mem_of_sublist_append {α : Type} {first second : α} {front later : List α}
    (order : [first, second].Sublist (front ++ second :: later)) (single : (front ++ second :: later).Nodup) :
    first ∈ front := by
  obtain ⟨once, -⟩ := List.nodup_cons.1 (List.nodup_middle.1 single)
  rw [List.mem_append, not_or] at once
  obtain ⟨taken, left, split, inFront, inRest⟩ := List.sublist_append_iff.1 order
  cases taken with
  | cons x taken =>
    obtain rfl : first = x := (List.cons.inj split).1
    exact inFront.subset List.mem_cons_self
  | nil =>
    obtain rfl : [first, second] = left := split
    have behind : [second].Sublist later := by
      cases inRest with
      | cons _ inLater => exact (List.sublist_cons_self first [second]).trans inLater
      | cons_cons _ inLater => exact inLater
    exact absurd (behind.subset List.mem_cons_self) once.2

theorem nodup_substitutions : epax.substitutions.Nodup := by
  unfold epax linkageOpen linkageClose
  simp only [String.reduceToList]
  decide +kernel

theorem Reordering.stringRule_mem {table front later : List (Text × Text)} (order : Reordering table)
    (split : table = front ++ stringVectorRule :: later) : stringRule ∈ front := by
  subst split
  rcases order.complete with same | ⟨same, behind⟩
  · have listed : stringVectorRule ∈ earlierRules := same.mem_iff.1 (by simp)
    exact absurd listed nodup_substitutions.not_mem_erase
  · exact mem_of_sublist_append behind (same.nodup_iff.2 nodup_substitutions)

/-- Wherever the last rule of the table comes now, it finds nothing. -/
theorem Reordering.not_infix {table front later : List (Text × Text)} (order : Reordering table)
    (split : table = front ++ stringVectorRule :: later) (text : Text) :
    ¬ stringVectorRule.1 <:+: Text.replaceEach front text := by
  have known : ∀ rule ∈ front, rule ∈ epax.substitutions := by
    intro rule h
    have listed : rule ∈ table := split ▸ List.mem_append_left _ h
    rcases order.complete with same | ⟨same, -⟩
    · exact List.mem_of_mem_erase (same.mem_iff.1 listed)
    · exact same.mem_iff.1 listed
  exact not_infix_stringVector known (order.stringRule_mem split) text

theorem Reordering.replaceEach_eq {table : List (Text × Text)} (order : Reordering table) (text : Text) :
    Text.replaceEach table text = Text.replaceEach earlierRules text := by
  rcases order.complete with same | ⟨same, behind⟩
  · exact replaceEach_earlierRules same order.ordered text
  · obtain ⟨front, later, -, split, erased⟩ := List.exists_erase_eq (behind.subset (by simp) : stringVectorRule ∈ table)
    have idle : Text.replaceEach table text = Text.replaceEach (table.erase stringVectorRule) text := by
      rw [erased, split, Text.replaceEach_append, Text.replaceEach_append, Text.replaceEach_cons,
        Text.replace_eq_self (order.not_infix split text)]
    have kept : orderedRules.Sublist (table.erase stringVectorRule) := by
      have unlisted : stringVectorRule ∉ orderedRules := by
        intro listed
        exact absurd (List.mem_filter.1 listed).2 (by decide +kernel)
      exact List.erase_of_not_mem unlisted ▸ order.ordered.erase stringVectorRule
    rw [idle, replaceEach_earlierRules (same.erase stringVectorRule) kept]

theorem reordering_epax : Reordering epax.substitutions where
  ordered := List.filter_sublist
  complete := .inr ⟨.refl _, by decide +kernel⟩

/-- A table with the objects of the EPAX table and its substitutions in another order gives
    every text the same C spelling. In every such table, the EPAX table itself among them, the
    rule for vectors of strings never finds its key. -/
theorem respell_reordered :
    (∀ text, ¬ stringVectorRule.1 <:+: Text.replaceEach epax.substitutions.dropLast text) ∧
      ∀ rules : Rules, rules.objects = epax.objects → Reordering rules.substitutions →
        (∀ text, rules.substituteAll text = epax.substituteAll text ∧ rules.respell text = epax.respell text) ∧
          ∀ front later, rules.substitutions = front ++ stringVectorRule :: later →
            ∀ text, ¬ stringVectorRule.1 <:+: Text.replaceEach front text := by
  have last : epax.substitutions = epax.substitutions.dropLast ++ [stringVectorRule] := rfl
  refine ⟨reordering_epax.not_infix last, ?_⟩
  intro rules sameObjects order
  have substituted : ∀ text, rules.substituteAll text = epax.substituteAll text := by
    intro text
    calc rules.substituteAll text
        = Text.replaceEach earlierRules text := order.replaceEach_eq text
      _ = epax.substituteAll text := (reordering_epax.replaceEach_eq text).symm
  constructor
  · intro text
    have named : rules.nameObjects text = epax.nameObjects text := by
      unfold nameObjects cNames
      rw [sameObjects]
    refine ⟨substituted text, ?_⟩
    unfold respell
    rw [named, substituted]
  · intro front later split
    exact order.not_infix split

/-- The table from its other end, as far as the order that is kept allows. -/
def turnedTable : Rules where
  objects := epax.objects
  substitutions :=
    ("Interface.hpp".toList, "Interface.h".toList) :: ("bool".toList, "uint32_t".toList) ::
      orderedRules.take 4 ++ stringVectorRule :: orderedRules.drop 4 ++ [("Interface_hpp".toList, "Interface_h".toList)]
  removed := []

theorem respell_reordered_turned :
    turnedTable.objects = epax.objects ∧ Reordering turnedTable.substitutions ∧
      turnedTable.respell "bool FUNC_names(std::vector<std::string>& Interface_hpppp);".toList =
        "uint32_t EPAX_func_names(char** Interface_hpp);".toList := by
  have order : Reordering turnedTable.substitutions := ⟨by decide +kernel, .inr (by decide +kernel)⟩
  refine ⟨rfl, order, ?_⟩
  exact ((respell_reordered.2 turnedTable rfl order).1 _).2.trans (by decide +kernel)

end Rules

end PlainHeader
