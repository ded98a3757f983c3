import PlainHeader.Line.Conversion
import PlainHeader.Proofs.Blanks
import PlainHeader.Proofs.Origins
import PlainHeader.Rules.Epax

/-!
# Two other accounts of the conversion

`pipeline` puts a line through steps in a fixed order, and decides by the C spelling at the
end whether a star is indented. `byVariant` looks the line up in a table of variants, one of
which is that the line starts with a star before any rule has touched it. Both come to what
`convert` does, as long as no rule of the table can bring a star to the front of a text or
take it away: when every name, key and replacement starts with another character.
-/

namespace PlainHeader

namespace Text

/-- Whether a text has a first character, and that is not `c`. -/
def StartsApart (c : Char) (text : Text) : Prop := text ≠ [] ∧ text.head? ≠ some c

instance (c : Char) (text : Text) : Decidable (StartsApart c text) := inferInstanceAs (Decidable (_ ∧ _))

theorem StartsApart.append {c : Char} {front : Text} (apart : StartsApart c front) (rest : Text) :
    StartsApart c (front ++ rest) := by
  obtain ⟨nonempty, other⟩ := apart
  obtain ⟨d, front, rfl⟩ := List.exists_cons_of_ne_nil nonempty
  exact ⟨List.cons_ne_nil d (front ++ rest), other⟩

theorem head?_replace_iff {c : Char} {key new : Text} (keyed : StartsApart c key) (written : StartsApart c new)
    (text : Text) : (replace key new text).head? = some c ↔ text.head? = some c := by
  rcases replace_cases keyed.1 new text with ⟨rest, rfl, replaced⟩ | ⟨d, rest, rfl, -, replaced⟩ | ⟨rfl, replaced⟩
  · rw [replaced]
    exact iff_of_false (written.append _).2 (keyed.append rest).2
  · rw [replaced]
    rfl
  · rw [replaced]

theorem head?_replaceEach_iff {c : Char} {rules : List (Text × Text)}
    (apart : ∀ rule ∈ rules, StartsApart c rule.1 ∧ StartsApart c rule.2) (text : Text) :
    (replaceEach rules text).head? = some c ↔ text.head? = some c := by
  induction rules generalizing text with
  | nil => rfl
  | cons rule rules ih =>
    have here := apart rule List.mem_cons_self
    rw [replaceEach_cons, ih fun other h => apart other (List.mem_cons_of_mem rule h)]
    exact head?_replace_iff here.1 here.2 text

end Text

namespace Rules

/-- No rule of the table starts with a star on either side. -/
structure StarSafe (rules : Rules) : Prop where
  names : ∀ name ∈ rules.objects, Text.StartsApart '*' name
  keys : ∀ rule ∈ rules.substitutions, Text.StartsApart '*' rule.1
  replacements : ∀ rule ∈ rules.substitutions, Text.StartsApart '*' rule.2

theorem starSafe_epax : epax.StarSafe where
  names := by decide
  keys := by decide
  replacements := by decide +kernel

/-- The C spelling starts with a star exactly when the line does. -/
theorem StarSafe.head?_respell_iff {rules : Rules} (safe : rules.StarSafe) (text : Text) :
    (rules.respell text).head? = some '*' ↔ text.head? = some '*' := by
  rw [respell_eq_replaceEach]
  refine Text.head?_replaceEach_iff (fun rule listed => ?_) text
  rcases List.mem_append.1 listed with naming | substitution
  · obtain ⟨name, known, rfl⟩ := List.mem_map.1 naming
    exact ⟨safe.names name known, Text.StartsApart.append (by decide) _⟩
  · exact ⟨safe.keys rule substitution, safe.replacements rule substitution⟩

/-! ## By tokens -/

theorem convert_of_no_token {raw : Text} (rules : Rules) (tokenless : Text.tokens raw = []) : rules.convert raw = [] := by
  rw [convert, LineShape.ofLine, Text.tokens_trim, tokenless]
  rfl

theorem convert_of_tokens {raw head : Text} {rest : List Text} (rules : Rules) (split : Text.tokens raw = head :: rest) :
    rules.convert raw =
      if head = "class".toList then []
      else if head = "typedef".toList then (LineShape.declaredName rest).toList.map pointerTypedef
      else if rules.drops (rules.respell (Text.trim raw)) then []
      else if head = "//".toList then [[]]
      else if head = "/**".toList then [[], rules.respell (Text.trim raw)]
      else if rest.head? = some "//".toList then [rules.respell (Text.trim raw)]
      else [indentStar (rules.respell (Text.trim raw))] := by
  rw [convert, LineShape.ofLine, Text.tokens_trim, split, LineShape.ofTokens]
  by_cases ofClass : head = "class".toList
  · rw [if_pos ofClass, if_pos ofClass]
    rfl
  by_cases ofTypedef : head = "typedef".toList
  · rw [if_neg ofClass, if_neg ofClass, if_pos ofTypedef, if_pos ofTypedef]
    cases LineShape.declaredName rest <;> rfl
  rw [if_neg ofClass, if_neg ofClass, if_neg ofTypedef, if_neg ofTypedef]
  -- the shapes that are left are all dropped alike and differ in their layout only
  by_cases dropped : rules.drops (rules.respell (Text.trim raw)) = true
  · rw [if_pos dropped]
    split_ifs <;> exact if_pos dropped
  · rw [if_neg dropped]
    split_ifs <;> exact if_neg dropped

theorem mem_of_declaredName {tokens : List Text} {name : Text} (declared : LineShape.declaredName tokens = some name) :
    name ∈ tokens := by
  rcases tokens with _ | ⟨kind, _ | ⟨last, _ | ⟨_, _⟩⟩⟩
  case cons.cons.nil =>
    obtain rfl : last = name := Option.some.inj declared
    simp
  all_goals cases declared

/-- What the lines are that a raw line becomes. Only a line that becomes nothing else, and has no
    `//` as its second token, is indented. -/
theorem mem_convert_cases {rules : Rules} {raw line : Text} (converted : line ∈ rules.convert raw) :
    line = [] ∨ (∃ name ∈ Text.tokens raw, line = pointerTypedef name) ∨ line = rules.respell (Text.trim raw) ∨
      (line = ' ' :: rules.respell (Text.trim raw) ∧ (rules.respell (Text.trim raw)).head? = some '*' ∧
        rules.convert raw = [line] ∧ (Text.tokens raw)[1]? ≠ some "//".toList) := by
  cases split : Text.tokens raw with
  | nil => simp [convert_of_no_token rules split] at converted
  | cons head rest =>
    rw [convert_of_tokens rules split] at converted ⊢
    generalize rules.respell (Text.trim raw) = text at *
    by_cases ofClass : head = "class".toList
    · rw [if_pos ofClass] at converted
      cases converted
    by_cases ofTypedef : head = "typedef".toList
    · rw [if_neg ofClass, if_pos ofTypedef] at converted
      obtain ⟨name, declared, declares⟩ := List.mem_map.1 converted
      have token := mem_of_declaredName (Option.mem_toList.1 declared)
      exact .inr (.inl ⟨name, List.mem_cons_of_mem head token, declares.symm⟩)
    by_cases dropped : rules.drops text = true
    · rw [if_neg ofClass, if_neg ofTypedef, if_pos dropped] at converted
      cases converted
    rw [if_neg ofClass, if_neg ofTypedef, if_neg dropped] at converted ⊢
    by_cases comment : head = "//".toList
    · rw [if_pos comment] at converted
      exact .inl (List.mem_singleton.1 converted)
    by_cases block : head = "/**".toList
    · rw [if_neg comment, if_pos block] at converted
      exact (List.mem_pair.1 converted).imp_right fun plain => .inr (.inl plain)
    by_cases inline : rest.head? = some "//".toList
    · rw [if_neg comment, if_neg block, if_pos inline] at converted
      exact .inr (.inr (.inl (List.mem_singleton.1 converted)))
    rw [if_neg comment, if_neg block, if_neg inline, indentStar] at converted ⊢
    by_cases starred : text.head? = some '*'
    · rw [if_pos starred] at converted ⊢
      have indents := List.mem_singleton.1 converted
      refine .inr (.inr (.inr ⟨indents, starred, by rw [indents], ?_⟩))
      rwa [List.getElem?_cons_succ, ← List.head?_eq_getElem?]
    · rw [if_neg starred] at converted
      exact .inr (.inr (.inl (List.mem_singleton.1 converted)))

/-! ## Steps in order -/

/-- The lines that a raw line becomes, by steps in a fixed order. A step either settles the
    line or hands it to the next one. -/
def pipeline (rules : Rules) (raw : Text) : List Text := Id.run do
  let line := Text.trim raw
  let tokens := Text.tokens line
  if tokens = [] then return []
  if tokens[0]? = some "class".toList then return []
  if tokens[0]? = some "typedef".toList then
    if let [_, _, name] := tokens then return [pointerTypedef name] else return []
  let mut text := rules.nameObjects line
  text := rules.substituteAll text
  if rules.drops text then return []
  if tokens[0]? = some "//".toList then return [[]]
  let mut lines := []
  if tokens[0]? = some "/**".toList then lines := [[]]
  if tokens[1]? = some "//".toList then return lines ++ [text]
  if text.head? = some '*' then text := ' ' :: text
  return lines ++ [text]

theorem StarSafe.convert_eq_pipeline {rules : Rules} (safe : rules.StarSafe) (raw : Text) :
    rules.convert raw = rules.pipeline raw := by
  have spelled : rules.substituteAll (rules.nameObjects (Text.trim raw)) = rules.respell (Text.trim raw) := rfl
  unfold pipeline
  simp only [Id.run, Text.tokens_trim, spelled]
  cases split : Text.tokens raw with
  | nil => exact convert_of_no_token rules split
  | cons head rest =>
    simp only [convert_of_tokens rules split, ← List.head?_eq_getElem?, List.head?_cons, List.getElem?_cons_succ,
      Option.some.injEq, reduceCtorEq, if_false]
    refine ite_congr rfl (fun _ => rfl) fun _ => ?_
    refine ite_congr rfl (fun _ => ?_) fun _ => ?_
    · rcases rest with _ | ⟨_, _ | ⟨name, _ | ⟨_, _⟩⟩⟩ <;> rfl
    refine ite_congr rfl (fun _ => rfl) fun _ => ?_
    refine ite_congr rfl (fun _ => rfl) fun _ => ?_
    refine ite_congr rfl (fun block => ?_) fun _ => ?_
    · -- a line that starts with a slash has no star to be indented
      have slash : (Text.trim raw).head? ≠ some '*' := by
        rw [Text.head?_trim (by rw [split]; rfl), block]
        decide
      have unstarred := mt (safe.head?_respell_iff (Text.trim raw)).1 slash
      rw [if_neg unstarred, ite_self]
      rfl
    · refine ite_congr rfl (fun _ => rfl) fun _ => ?_
      unfold indentStar
      split_ifs <;> rfl

/-! ## A table of variants -/

/-- A row of the table: which lines are of a variant, and what becomes of them. -/
structure Variant where
  /-- The condition on the trimmed line and its tokens, before any rule has touched them. -/
  condition : Text → List Text → Bool
  /-- Whether the lines that the result does without are left out here too. -/
  removable : Bool := true
  /-- The output, by the tokens of the line and by its C spelling. -/
  output : List Text → Text → List Text

/-- The variants, in the order in which their conditions are tested. -/
def variants : List Variant :=
  [{ condition := fun _ tokens => tokens = [], removable := false, output := fun _ _ => [] },
   { condition := fun _ tokens => tokens[0]? = some "class".toList, removable := false, output := fun _ _ => [] },
   { condition := fun _ tokens => tokens[0]? = some "typedef".toList
     removable := false
     output := fun tokens _ => if tokens.length = 3 then tokens[2]?.toList.map pointerTypedef else [] },
   { condition := fun _ tokens => tokens[0]? = some "//".toList, output := fun _ _ => [[]] },
   { condition := fun _ tokens => tokens[0]? = some "/**".toList, output := fun _ text => [[], text] },
   { condition := fun _ tokens => tokens[1]? = some "//".toList, output := fun _ text => [text] },
   { condition := fun line _ => line.head? = some '*', output := fun _ text => [' ' :: text] },
   { condition := fun _ _ => true, output := fun _ text => [text] }]

/-- What becomes of a line of a variant. -/
def Variant.lines (variant : Variant) (rules : Rules) (tokens : List Text) (text : Text) : List Text :=
  if variant.removable && rules.drops text then [] else variant.output tokens text

/-- The lines that a raw line becomes, by the first variant whose condition it meets. -/
def byVariant (rules : Rules) (raw : Text) : List Text :=
  let line := Text.trim raw
  let tokens := Text.tokens line
  match variants.find? fun variant => variant.condition line tokens with
  | some variant => variant.lines rules tokens (rules.respell line)
  | none => []

/-- A table is looked up row by row. -/
theorem lookUp_cons (fits : Variant → Bool) (use : Variant → List Text) (row : Variant) (rows : List Variant) :
    (match (row :: rows).find? fits with | some variant => use variant | none => []) =
      if fits row then use row else match rows.find? fits with | some variant => use variant | none => [] := by
  by_cases met : fits row = true
  · rw [List.find?_cons_of_pos met, if_pos met]
  · rw [List.find?_cons_of_neg met, if_neg met]

theorem StarSafe.convert_eq_byVariant {rules : Rules} (safe : rules.StarSafe) (raw : Text) :
    rules.convert raw = rules.byVariant raw := by
  unfold byVariant variants
  simp only [Text.tokens_trim, lookUp_cons, decide_eq_true_eq, Variant.lines]
  cases split : Text.tokens raw with
  | nil => exact convert_of_no_token rules split
  | cons head rest =>
    simp only [convert_of_tokens rules split, ← List.head?_eq_getElem?, List.head?_cons, List.getElem?_cons_succ,
      Option.some.injEq, reduceCtorEq, if_false, Bool.false_and, Bool.true_and, Bool.false_eq_true, if_true]
    refine ite_congr rfl (fun _ => rfl) fun _ => ?_
    refine ite_congr rfl (fun _ => ?_) fun _ => ?_
    · rcases rest with _ | ⟨_, _ | ⟨name, _ | ⟨_, _⟩⟩⟩ <;> rfl
    by_cases dropped : rules.drops (rules.respell (Text.trim raw)) = true
    · simp only [if_pos dropped, ite_self]
    · simp only [if_neg dropped]
      refine ite_congr rfl (fun _ => rfl) fun _ => ?_
      refine ite_congr rfl (fun _ => rfl) fun _ => ?_
      refine ite_congr rfl (fun _ => rfl) fun _ => ?_
      simp only [indentStar, safe.head?_respell_iff]
      split_ifs <;> rfl

/-- The EPAX table is safe, and under every safe table every raw line is converted as the
    steps in order and as the table of variants say. -/
theorem convert_eq_accounts :
    epax.StarSafe ∧
      ∀ rules : Rules, rules.StarSafe →
        ∀ raw, rules.convert raw = rules.pipeline raw ∧ rules.convert raw = rules.byVariant raw := by
  refine ⟨starSafe_epax, ?_⟩
  intro rules safe raw
  exact ⟨safe.convert_eq_pipeline raw, safe.convert_eq_byVariant raw⟩

theorem convert_eq_accounts_star :
    epax.StarSafe ∧ epax.pipeline "\t*@param const std::string& FUNC\r".toList = [" *@param const char*& EPAX_func".toList] ∧
      epax.byVariant "\t*@param const std::string& FUNC\r".toList = [" *@param const char*& EPAX_func".toList] := by
  have converted : epax.convert "\t*@param const std::string& FUNC\r".toList = [" *@param const char*& EPAX_func".toList] := by
    decide +kernel
  obtain ⟨stepped, looked_up⟩ := convert_eq_accounts.2 epax starSafe_epax "\t*@param const std::string& FUNC\r".toList
  exact ⟨starSafe_epax, stepped ▸ converted, looked_up ▸ converted⟩

end Rules

end PlainHeader
