import PlainHeader.Text.Replace

/-!
# Rule tables

A table names the objects of the interface, the substitutions that turn a C++ spelling
into a C one, and the lines that the result does without. Objects are renamed first, then
the substitutions run in table order. All of them are plain substring rules, and each one
sees what the rules before it have made of the text.
-/

namespace PlainHeader

/-- The C name of an object: `EPAX_` and the name in ASCII lower case. -/
def cName (name : Text) : Text := "EPAX_".toList ++ name.map Char.toLower

/-! ## Lower case -/

theorem isUpper_iff_val {c : Char} : c.isUpper = true ↔ 'A'.val ≤ c.val ∧ c.val ≤ 'Z'.val := decide_eq_true_iff

theorem isUpper_iff {c : Char} : c.isUpper = true ↔ 65 ≤ c.toNat ∧ c.toNat ≤ 90 := by
  rw [isUpper_iff_val, UInt32.le_iff_toNat_le, UInt32.le_iff_toNat_le]
  rfl

theorem toLower_eq_self {c : Char} (plain : ¬ c.isUpper = true) : c.toLower = c :=
  dif_neg (mt isUpper_iff_val.2 plain)

theorem toNat_toLower {c : Char} (capital : c.isUpper = true) : c.toLower.toNat = c.toNat + 32 := by
  obtain ⟨low, high⟩ := isUpper_iff.1 capital
  have lowered : c.toLower.val = c.val + 32 := congrArg Char.val (dif_pos (isUpper_iff_val.1 capital))
  have same : c.val.toNat = c.toNat := rfl
  show c.toLower.val.toNat = c.toNat + 32
  rw [lowered, UInt32.toNat_add, same]
  exact Nat.mod_eq_of_lt (by simp; omega)

theorem not_isUpper_toLower (c : Char) : ¬ c.toLower.isUpper = true := by
  by_cases capital : c.isUpper = true
  · have := toNat_toLower capital
    rw [isUpper_iff] at *
    omega
  · rwa [toLower_eq_self capital]

/-! ## Tables -/

/-- What turns the C++ spelling of a line into the C spelling. -/
structure Rules where
  /-- Object names, in the order in which they are renamed. -/
  objects : List Text
  /-- Keys with their replacements, in the order in which they are applied. -/
  substitutions : List (Text × Text)
  /-- Lines that are dropped, in C spelling. -/
  removed : List Text

namespace Rules

def cNames (rules : Rules) : List (Text × Text) := rules.objects.map fun name => (name, cName name)

/-- Gives every object its C name, inside longer identifiers too. -/
def nameObjects (rules : Rules) (text : Text) : Text := Text.replaceEach rules.cNames text

def substituteAll (rules : Rules) (text : Text) : Text := Text.replaceEach rules.substitutions text

/-- The C spelling of a text: objects are renamed, then the substitutions run. -/
def respell (rules : Rules) (text : Text) : Text := rules.substituteAll (rules.nameObjects text)

/-- Whether the result does without a line, given in C spelling. -/
def drops (rules : Rules) (text : Text) : Bool := rules.removed.contains text

theorem respell_eq_replaceEach (rules : Rules) (text : Text) :
    rules.respell text = Text.replaceEach (rules.cNames ++ rules.substitutions) text :=
  (Text.replaceEach_append rules.cNames rules.substitutions text).symm

@[simp] theorem drops_iff {rules : Rules} {text : Text} : rules.drops text = true ↔ text ∈ rules.removed := by
  simp [drops]

end Rules

end PlainHeader
