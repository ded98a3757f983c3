import PlainHeader.Text.Basic

/-!
# Substring replacement

`replace key new text` walks the text once from left to right. Where the key stands it
writes the new text and goes on behind the key; what it has written is not looked at
again, so occurrences neither overlap nor arise from the replacement itself. An empty key
stands in front of every character and at the end.
-/

namespace PlainHeader.Text

/-- Replacement of a key that is not empty; the next `skip` characters belong to an
    occurrence already written. -/
def replaceFrom (key new : Text) : Nat → Text → Text
  | _, [] => []
  | skip + 1, _ :: rest => replaceFrom key new skip rest
  | 0, c :: rest =>
    if key.isPrefixOf (c :: rest) then new ++ replaceFrom key new (key.length - 1) rest
    else c :: replaceFrom key new 0 rest

/-- Every occurrence of `key`, from left to right, gives way to `new`. -/
def replace (key new text : Text) : Text :=
  if key = [] then new ++ text.flatMap (· :: new) else replaceFrom key new 0 text

/-- Rules applied one after the other, each to the result of the one before. -/
def replaceEach (rules : List (Text × Text)) (text : Text) : Text :=
  rules.foldl (fun text rule => replace rule.1 rule.2 text) text

@[simp] theorem replace_empty_key (new text : Text) :
    replace [] new text = new ++ text.flatMap (· :: new) := rfl

theorem replaceFrom_drop (key new : Text) (skip : Nat) (text : Text) :
    replaceFrom key new skip text = replaceFrom key new 0 (text.drop skip) := by
  induction skip generalizing text with
  | zero => simp
  | succ skip ih => cases text <;> simp [replaceFrom, ih]

@[simp] theorem replace_nil {key : Text} (h : key ≠ []) (new : Text) : replace key new [] = [] := by
  simp [replace, h, replaceFrom]

/-- Where the key stands, the new text is written and the walk goes on behind the key. -/
theorem replace_key_append {key : Text} (h : key ≠ []) (new rest : Text) :
    replace key new (key ++ rest) = new ++ replace key new rest := by
  cases key with
  | nil => exact absurd rfl h
  | cons c key =>
    have stands : (c :: key).isPrefixOf (c :: (key ++ rest)) = true := by
      simp
    simp only [replace, h, if_false, List.cons_append, replaceFrom, stands, if_true,
      List.length_cons, Nat.add_sub_cancel]
    rw [replaceFrom_drop, List.drop_left]

/-- Where the key does not stand, one character is copied. -/
theorem replace_cons {key : Text} {c : Char} {rest : Text} (h : key.isPrefixOf (c :: rest) = false)
    (new : Text) : replace key new (c :: rest) = c :: replace key new rest := by
  have nonempty : key ≠ [] := by rintro rfl; simp at h
  simp [replace, nonempty, replaceFrom, h]

@[simp] theorem replaceEach_nil (text : Text) : replaceEach [] text = text := rfl

@[simp] theorem replaceEach_cons (rule : Text × Text) (rules : List (Text × Text)) (text : Text) :
    replaceEach (rule :: rules) text = replaceEach rules (replace rule.1 rule.2 text) := rfl

theorem replaceEach_append (first second : List (Text × Text)) (text : Text) :
    replaceEach (first ++ second) text = replaceEach second (replaceEach first text) := by
  simp [replaceEach]

end PlainHeader.Text
