import PlainHeader.Proofs.ObjectNames
import PlainHeader.Proofs.OneScan

/-!
# Declared names and their uses

A `typedef` declares a name in lower case as a whole, and a use of that name goes through the rules
like any other text. Both come to the same for an object name with a tail in lower case: the
object is renamed once and for all, because every other name needs capital letters, and no key
starts in the C name of an object to end in the tail. The `c` at the end of `EPAX_func` could begin
`const const`, and the `n` of `EPAX_bin` could begin `namespace`, but these keys hold a blank and a
name does not.
-/

namespace PlainHeader

namespace Rules

/-- No key without a blank starts in the C name of an object. -/
theorem blank_or_clear : ∀ name ∈ epax.objects, ∀ rule ∈ epax.substitutions,
    ' ' ∈ rule.1 ∨ Text.Clear (cName name) rule.1 := by
  decide +kernel

/-- A key that can stay behind in a text needs a capital letter or a blank. -/
theorem foreign_lingeringKey : ∀ key ∈ lingeringKeys, ∃ c ∈ key, c.isUpper = true ∨ Text.isBlank c = true := by
  have found : ∀ key ∈ lingeringKeys, (key.any fun c => c.isUpper || Text.isBlank c) = true := by decide
  intro key lingers
  simpa using found key lingers

/-- What is left of a name that shares a letter has a capital letter. -/
theorem capital_of_sharing : ∀ name ∈ epax.objects, ∀ behind, "BBLOOP".toList = name ++ behind → 'O' ∈ behind := by
  have left : ∀ name ∈ epax.objects, name <+: "BBLOOP".toList → 'O' ∈ "BBLOOP".toList.drop name.length := by decide
  intro name known behind split
  have inside := left name known ⟨behind, split.symm⟩
  rwa [split, List.drop_left] at inside

section
variable {name tail : Text}

theorem cName_append (name : Text) (lowered : ∀ c ∈ tail, c.isUpper = false) :
    cName (name ++ tail) = cName name ++ tail := by
  have unchanged : tail.map Char.toLower = tail := by
    rw [List.map_congr_left fun c inside => toLower_eq_self (by simp [lowered c inside])]
    exact List.map_id' tail
  calc cName (name ++ tail)
      = "EPAX_".toList ++ (name.map Char.toLower ++ tail.map Char.toLower) := congrArg _ List.map_append
    _ = cName name ++ tail := by rw [unchanged, ← List.append_assoc]; rfl

theorem unshared_of_lowered (known : name ∈ epax.objects) (lowered : ∀ c ∈ tail, c.isUpper = false) :
    ¬ sharesLetter (name ++ tail) = true := by
  rw [sharesLetter_iff]
  intro starts
  rcases Text.prefix_append_cases starts with within | ⟨behind, split, follows⟩
  · have longer : ∀ name ∈ epax.objects, ¬ "BBLOOP".toList <+: name := by decide
    exact longer name known within
  · have capital := lowered 'O' (follows.subset (capital_of_sharing name known behind split))
    exact absurd capital (by decide)

/-- An object with a tail in lower case is renamed, and its tail is not. -/
theorem nameObjects_lowered (known : name ∈ epax.objects) (lowered : ∀ c ∈ tail, c.isUpper = false) :
    epax.nameObjects (name ++ tail) = cName name ++ tail := by
  have untouched : epax.nameObjects tail = tail := by
    refine Text.replaceEach_eq_self fun rule naming stands => ?_
    obtain ⟨other, listed, rfl⟩ := List.mem_map.1 naming
    obtain ⟨c, inside, upper, -⟩ := exists_capital_object other listed
    simp [lowered c (stands.subset inside)] at upper
  rw [nameObjects_name known (unshared_of_lowered known lowered), untouched]

/-- A key that stands in a C name with its tail stands in the tail. -/
theorem infix_tail_of_key (known : name ∈ epax.objects) (solid : ∀ c ∈ tail, Text.isBlank c = false)
    {rule : Text × Text} (listed : rule ∈ epax.substitutions) (stands : rule.1 <:+: cName name ++ tail) :
    rule.1 <:+: tail := by
  rcases blank_or_clear name known rule listed with blank | clear
  · have unblank : ∀ name ∈ epax.objects, ' ' ∉ cName name := by decide
    rcases List.mem_append.1 (stands.subset blank) with front | behind
    · exact absurd front (unblank name known)
    · exact absurd (solid ' ' behind) (by decide)
  · exact Text.infix_of_unstarted (clear.unstarted tail) stands

/-- The declared name is the name that uses are given exactly when no key stands in the tail. -/
theorem respell_eq_cName_iff (known : name ∈ epax.objects) (lowered : ∀ c ∈ tail, c.isUpper = false)
    (solid : ∀ c ∈ tail, Text.isBlank c = false) :
    epax.respell (name ++ tail) = cName (name ++ tail) ↔ ∀ rule ∈ epax.substitutions, ¬ rule.1 <:+: tail := by
  rw [cName_append name lowered]
  constructor
  · intro agreed rule listed stands
    rcases spent_or_lingering rule listed with gone | lingers
    · -- the tail has been copied with the key in it, where no text in C spelling has it
      have copied : rule.1 <:+: epax.respell (name ++ tail) := by
        rw [agreed]
        exact stands.trans (List.suffix_append _ tail).isInfix
      exact not_infix_respell (origins_spentKey rule.1 gone) _ copied
    · obtain ⟨c, inside, foreign⟩ := foreign_lingeringKey rule.1 lingers
      simp [lowered c (stands.subset inside), solid c (stands.subset inside)] at foreign
  · intro unkeyed
    have named : epax.respell (name ++ tail) = epax.substituteAll (cName name ++ tail) :=
      congrArg epax.substituteAll (nameObjects_lowered known lowered)
    rw [named]
    exact Text.replaceEach_eq_self fun rule listed stands => unkeyed rule listed (infix_tail_of_key known solid listed stands)

end

/-- A `typedef` of an object name with a tail in lower case declares the name that uses of it are
    given, whatever the declared type, exactly when no key of the table stands in the tail. -/
theorem convert_typedef_iff {name tail : Text} (known : name ∈ epax.objects)
    (lowered : ∀ c ∈ tail, c.isUpper = false) {raw kind : Text}
    (declares : Text.tokens raw = ["typedef".toList, kind, name ++ tail]) :
    epax.convert raw = ["typedef void* ".toList ++ epax.respell (name ++ tail)] ↔
      ∀ rule ∈ epax.substitutions, ¬ rule.1 <:+: tail := by
  have solid : ∀ c ∈ tail, Text.isBlank c = false := by
    intro c inside
    have token : name ++ tail ∈ Text.tokens raw := by simp [declares]
    exact (Text.not_blank_of_mem_tokens token).2 c (List.mem_append_right name inside)
  have declared : epax.convert raw = ["typedef void* ".toList ++ cName (name ++ tail)] := by
    rw [convert_of_tokens epax declares]
    rfl
  rw [declared, ← respell_eq_cName_iff known lowered solid]
  simp only [List.cons.injEq, and_true, List.append_cancel_left_eq, eq_comm]

/-- The tail completes a `const` with the last letter of the name. -/
theorem convert_typedef_iff_const :
    ("FUNC".toList ∈ epax.objects ∧ (∀ c ∈ "onst;".toList, c.isUpper = false) ∧
        Text.tokens "\ttypedef Function*  FUNConst; \r".toList =
          ["typedef".toList, "Function*".toList, "FUNC".toList ++ "onst;".toList]) ∧
      epax.convert "\ttypedef Function*  FUNConst; \r".toList = ["typedef void* ".toList ++ epax.respell "FUNConst;".toList] := by
  have known : "FUNC".toList ∈ epax.objects := by decide
  have lowered : ∀ c ∈ "onst;".toList, c.isUpper = false := by simp
  have declares : Text.tokens "\ttypedef Function*  FUNConst; \r".toList =
      ["typedef".toList, "Function*".toList, "FUNC".toList ++ "onst;".toList] := by decide +kernel
  have unkeyed : ∀ rule ∈ epax.substitutions, ¬ rule.1 <:+: "onst;".toList := by decide +kernel
  exact ⟨⟨known, lowered, declares⟩, (convert_typedef_iff known lowered declares).2 unkeyed⟩

/-- A key in the tail is rewritten in the uses alone. -/
example : epax.convert "typedef Flag* BINbool;".toList = ["typedef void* EPAX_binbool;".toList] ∧
    epax.respell "BINbool;".toList = "EPAX_binuint32_t;".toList := by
  decide +kernel

end Rules

end PlainHeader
