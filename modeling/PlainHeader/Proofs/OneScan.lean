import PlainHeader.Proofs.Locality
import Mathlib.Tactic.IntervalCases

/-!
# Nine passes as one scan

Objects are renamed by one pass for each name, and every pass sees what the passes before it
have written. As no name starts in a C name and none is completed by one, a name is renamed
where it stands in the given text, unless an earlier pass has taken a letter of it. Names share
letters in three ways. In `BINSN` and in `FUNCFG` the first name is the earlier one, and in
`BBLOOP` the second is. So one scan from left to right comes to the same, if it passes over a
`BBL` that shares its last letter with `LOOP`.
-/

namespace PlainHeader

namespace Text

/-- What a table writes is not rewritten: no key starts in a replacement, and none is completed
    by one. -/
structure WritesOnce (rules : List (Text × Text)) : Prop where
  keyed : ∀ rule ∈ rules, rule.1 ≠ []
  uncompleted : ∀ rule ∈ rules, ∀ other ∈ rules, Clear rule.1 other.2
  unstarted : ∀ rule ∈ rules, ∀ other ∈ rules, Clear other.2 rule.1

variable {rules : List (Text × Text)}

theorem WritesOnce.of_subset {fewer : List (Text × Text)} (once : WritesOnce rules) (within : fewer ⊆ rules) :
    WritesOnce fewer where
  keyed rule h := once.keyed rule (within h)
  uncompleted rule h other h' := once.uncompleted rule (within h) other (within h')
  unstarted rule h other h' := once.unstarted rule (within h) other (within h')

/-- A front in which no key starts stays as it is. -/
theorem WritesOnce.replaceEach_unstarted (once : WritesOnce rules) {front rest : Text}
    (unstarted : ∀ rule ∈ rules, Unstarted rule.1 front rest) :
    replaceEach rules (front ++ rest) = front ++ replaceEach rules rest := by
  induction rules generalizing rest with
  | nil => rfl
  | cons rule rules ih =>
    -- rewriting the rest by one rule completes no key of the others in front of it
    have still : ∀ other ∈ rules, Unstarted other.1 front (replace rule.1 rule.2 rest) := by
      intro other h
      have listed := List.mem_cons_of_mem rule h
      have clear := once.uncompleted other listed rule List.mem_cons_self
      exact (unstarted other listed).replace (once.keyed rule List.mem_cons_self) clear
    rw [replaceEach_cons, replace_unstarted rule.2 (unstarted rule List.mem_cons_self), replaceEach_cons]
    exact ih (once.of_subset (List.subset_cons_self rule rules)) still

theorem WritesOnce.replaceEach_copy (once : WritesOnce rules) {c : Char} {rest : Text}
    (absent : ∀ rule ∈ rules, ¬ rule.1 <+: c :: rest) : replaceEach rules (c :: rest) = c :: replaceEach rules rest := by
  have alone : ∀ rule ∈ rules, Unstarted rule.1 [c] rest := by
    intro rule h
    exact unstarted_singleton.2 (absent rule h)
  exact once.replaceEach_unstarted alone

variable {before after : List (Text × Text)} {rule : Text × Text}

/-- A key is rewritten where it stands behind a front, if no earlier key starts in front of its
    end, it does not start earlier itself, and no later key starts in what has been written. -/
theorem WritesOnce.replaceEach_key_behind (once : WritesOnce (before ++ rule :: after)) {front rest : Text}
    (unstarted : ∀ earlier ∈ before, Unstarted earlier.1 (front ++ rule.1) rest)
    (first : ∀ behind, Unstarted rule.1 front (rule.1 ++ behind))
    (settled : ∀ later ∈ after, Clear (front ++ rule.2) later.1) :
    replaceEach (before ++ rule :: after) (front ++ rule.1 ++ rest) =
      front ++ rule.2 ++ replaceEach (before ++ rule :: after) rest := by
  have earlier : WritesOnce before := once.of_subset fun other h => by simp [h]
  have later : WritesOnce after := once.of_subset fun other h => by simp [h]
  have nonempty := once.keyed rule (by simp)
  rw [replaceEach_append, replaceEach_append, replaceEach_cons, replaceEach_cons, earlier.replaceEach_unstarted unstarted,
    List.append_assoc, replace_unstarted rule.2 (first _), replace_key_append nonempty, ← List.append_assoc,
    later.replaceEach_unstarted fun other h => (settled other h).unstarted _]

theorem WritesOnce.replaceEach_key (once : WritesOnce (before ++ rule :: after)) {rest : Text}
    (unstarted : ∀ earlier ∈ before, Unstarted earlier.1 rule.1 rest) :
    replaceEach (before ++ rule :: after) (rule.1 ++ rest) = rule.2 ++ replaceEach (before ++ rule :: after) rest := by
  have first : ∀ behind, Unstarted rule.1 [] (rule.1 ++ behind) := by
    intro behind i below
    exact absurd below i.not_lt_zero
  have settled : ∀ later ∈ after, Clear rule.2 later.1 := by
    intro later h
    exact once.unstarted later (by simp [h]) rule (by simp)
  show replaceEach (before ++ rule :: after) ([] ++ rule.1 ++ rest) =
    [] ++ rule.2 ++ replaceEach (before ++ rule :: after) rest
  exact once.replaceEach_key_behind unstarted first settled

end Text

namespace Rules

/-! ## Names in the text -/

theorem writesOnce_cNames : Text.WritesOnce epax.cNames := by
  refine ⟨by decide, ?_, ?_⟩ <;> decide +kernel

/-- No earlier name starts in a later one, but for the last letter of `BBL`. -/
theorem objects_pairwise :
    epax.objects.Pairwise fun earlier later =>
      Text.Clear later earlier ∨ (earlier = "LOOP".toList ∧ later = "BBL".toList) := by
  decide +kernel

/-- At most one name starts at any place. -/
theorem length_starting_le_one (text : Text) : (epax.objects.filter (·.isPrefixOf text)).length ≤ 1 := by
  have apart : epax.objects.Pairwise fun name other => ¬ name <+: other ∧ ¬ other <+: name := by decide +kernel
  have starting : ∀ name ∈ epax.objects.filter (·.isPrefixOf text), name <+: text := by
    intro name h
    exact List.isPrefixOf_iff_prefix.1 (List.mem_filter.1 h).2
  have kept := apart.filter (·.isPrefixOf text)
  generalize epax.objects.filter (·.isPrefixOf text) = names at starting kept
  rcases names with _ | ⟨name, _ | ⟨other, more⟩⟩
  · exact Nat.zero_le 1
  · exact Nat.le_refl 1
  · obtain ⟨longer, shorter⟩ := List.rel_of_pairwise_cons kept List.mem_cons_self
    rcases List.prefix_or_prefix_of_prefix (starting name (by simp)) (starting other (by simp)) with inside | around
    · exact absurd inside longer
    · exact absurd around shorter

/-- Whether `BBL` starts the text and shares its last letter with a `LOOP`. -/
def sharesLetter (text : Text) : Bool := "BBL".toList.isPrefixOf text && "LOOP".toList.isPrefixOf (text.drop 2)

theorem sharesLetter_iff {text : Text} : sharesLetter text = true ↔ "BBLOOP".toList <+: text := by
  simp only [sharesLetter, Bool.and_eq_true, List.isPrefixOf_iff_prefix]
  constructor
  · rintro ⟨⟨rest, rfl⟩, follows⟩
    simpa using follows
  · rintro ⟨rest, rfl⟩
    simp

theorem unstarted_loop {rest : Text} (alone : ¬ sharesLetter ("BBL".toList ++ rest) = true) :
    Text.Unstarted "LOOP".toList "BBL".toList rest := by
  intro i below starts
  have below : i < 3 := below
  interval_cases i
  · simp at starts
  · simp at starts
  · exact alone (by simpa [sharesLetter, ← List.isPrefixOf_iff_prefix] using starts)

theorem nameObjects_name {name rest : Text} (known : name ∈ epax.objects) (alone : ¬ sharesLetter (name ++ rest) = true) :
    epax.nameObjects (name ++ rest) = cName name ++ epax.nameObjects rest := by
  obtain ⟨before, after, split⟩ := List.append_of_mem known
  have table : epax.cNames =
      before.map (fun name => (name, cName name)) ++ (name, cName name) :: after.map fun name => (name, cName name) := by
    rw [cNames, split, List.map_append, List.map_cons]
  have once := writesOnce_cNames
  rw [nameObjects, nameObjects, table] at *
  apply once.replaceEach_key
  intro rule h
  obtain ⟨earlier, first, rfl⟩ := List.mem_map.1 h
  have order := objects_pairwise
  rw [split] at order
  rcases (List.pairwise_append.1 order).2.2 earlier first name List.mem_cons_self with clear | ⟨rfl, rfl⟩
  · exact clear.unstarted rest
  · exact unstarted_loop alone

theorem cNames_eq : epax.cNames = epax.cNames.take 4 ++ ("LOOP".toList, cName "LOOP".toList) :: epax.cNames.drop 5 := by
  decide

/-- Letters of a `BBL` in front of a `LOOP` are copied, because `LOOP` is renamed first. -/
theorem nameObjects_loop {front : Text} (letters : front ∈ ["B".toList, "BB".toList]) (rest : Text) :
    epax.nameObjects (front ++ "LOOP".toList ++ rest) = front ++ cName "LOOP".toList ++ epax.nameObjects rest := by
  have earlier : ∀ front ∈ ["B".toList, "BB".toList], ∀ rule ∈ epax.cNames.take 4,
      Text.Clear (front ++ "LOOP".toList) rule.1 := by decide +kernel
  have first : ∀ front ∈ ["B".toList, "BB".toList], ∀ i < front.length,
      ¬ "LOOP".toList <+: front.drop i ++ "LOOP".toList ∧ ¬ front.drop i ++ "LOOP".toList <+: "LOOP".toList := by
    decide +kernel
  have settled : ∀ front ∈ ["B".toList, "BB".toList], ∀ rule ∈ epax.cNames.drop 5,
      Text.Clear (front ++ cName "LOOP".toList) rule.1 := by decide +kernel
  have once := writesOnce_cNames
  unfold nameObjects
  rw [cNames_eq] at once ⊢
  apply once.replaceEach_key_behind
  · intro rule h
    exact (earlier front letters rule h).unstarted rest
  · intro behind i below
    obtain ⟨longer, shorter⟩ := first front letters i below
    rw [← List.append_assoc]
    exact Text.not_prefix_append longer shorter behind
  · exact settled front letters

/-- A `BBL` that shares its last letter is passed over. -/
theorem nameObjects_shared (rest : Text) :
    epax.nameObjects ("BBLOOP".toList ++ rest) = 'B' :: epax.nameObjects ("BLOOP".toList ++ rest) := by
  have outer : "BBLOOP".toList = "BB".toList ++ "LOOP".toList := by decide
  have inner : "BLOOP".toList = "B".toList ++ "LOOP".toList := by decide
  rw [outer, inner, nameObjects_loop (by simp), nameObjects_loop (by simp)]
  rfl

/-! ## The scan -/

/-- Gives names their C names in one walk. The next `skip` characters belong to a name already
    written. -/
def scanFrom : Nat → Text → Text
  | _, [] => []
  | skip + 1, _ :: rest => scanFrom skip rest
  | 0, c :: rest =>
    if sharesLetter (c :: rest) then c :: scanFrom 0 rest
    else
      match epax.objects.find? (·.isPrefixOf (c :: rest)) with
      | some name => cName name ++ scanFrom (name.length - 1) rest
      | none => c :: scanFrom 0 rest

/-- One scan from left to right. A `BBL` that shares its last letter with a `LOOP` is passed
    over; any other name gives way to its C name; every other character is copied. -/
def scan (text : Text) : Text := scanFrom 0 text

theorem scanFrom_eq (skip : Nat) (text : Text) : scanFrom skip text = scan (text.drop skip) := by
  induction skip generalizing text with
  | zero => rfl
  | succ skip ih => cases text <;> simp [scanFrom, scan, ih]

theorem scan_shared {c : Char} {rest : Text} (shared : sharesLetter (c :: rest) = true) :
    scan (c :: rest) = c :: scan rest := by
  rw [scan, scanFrom, if_pos shared]
  rfl

theorem scan_copy {c : Char} {rest : Text} (absent : ∀ name ∈ epax.objects, ¬ name <+: c :: rest) :
    scan (c :: rest) = c :: scan rest := by
  have none_found : epax.objects.find? (·.isPrefixOf (c :: rest)) = none := by
    simpa [List.isPrefixOf_iff_prefix] using absent
  rw [scan, scanFrom, none_found]
  exact ite_self _

theorem scan_name {name rest : Text} (found : epax.objects.find? (·.isPrefixOf (name ++ rest)) = some name)
    (nonempty : name ≠ []) (alone : ¬ sharesLetter (name ++ rest) = true) :
    scan (name ++ rest) = cName name ++ scan rest := by
  obtain ⟨first, letters, rfl⟩ := List.exists_cons_of_ne_nil nonempty
  rw [List.cons_append] at found alone ⊢
  rw [scan, scanFrom, if_neg alone, found]
  simp [scanFrom_eq]

theorem nameObjects_copy {c : Char} {rest : Text} (absent : ∀ name ∈ epax.objects, ¬ name <+: c :: rest) :
    epax.nameObjects (c :: rest) = c :: epax.nameObjects rest := by
  apply writesOnce_cNames.replaceEach_copy
  intro rule h
  obtain ⟨name, known, rfl⟩ := List.mem_map.1 h
  exact absent name known

/-- The passes and the scan go on alike behind what stands at the front of a text. -/
theorem nameObjects_scan (text : Text) : epax.nameObjects text = scan text := by
  cases text with
  | nil => decide
  | cons c rest =>
    by_cases shared : sharesLetter (c :: rest) = true
    · obtain ⟨behind, split⟩ := sharesLetter_iff.1 shared
      obtain ⟨rfl, rfl⟩ : 'B' = c ∧ "BLOOP".toList ++ behind = rest := List.cons.inj split
      have passed : epax.nameObjects ('B' :: ("BLOOP".toList ++ behind)) =
        'B' :: epax.nameObjects ("BLOOP".toList ++ behind) := nameObjects_shared behind
      rw [passed, scan_shared shared, nameObjects_scan ("BLOOP".toList ++ behind)]
    · cases found : epax.objects.find? (·.isPrefixOf (c :: rest)) with
      | none =>
        have absent : ∀ name ∈ epax.objects, ¬ name <+: c :: rest := by
          simpa [List.isPrefixOf_iff_prefix] using found
        rw [nameObjects_copy absent, scan_copy absent, nameObjects_scan rest]
      | some name =>
        have known : name ∈ epax.objects := List.mem_of_find?_eq_some found
        have nonempty : name ≠ [] := writesOnce_cNames.keyed (name, cName name) (List.mem_map_of_mem known)
        have starts : name.isPrefixOf (c :: rest) = true := by
          simpa using List.find?_some found
        obtain ⟨behind, split⟩ := List.isPrefixOf_iff_prefix.1 starts
        have shorter : behind.length < rest.length + 1 := by
          rw [← List.length_cons, ← split]
          exact Text.length_lt_append nonempty behind
        rw [← split] at shared found ⊢
        rw [nameObjects_name known shared, scan_name found nonempty shared, nameObjects_scan behind]
termination_by text.length

/-- Nine passes, one for each name, come to the same as one scan. At most one name starts at any
    place of a text, so that the scan has no choice. -/
theorem nameObjects_eq_scan :
    (∀ text, (epax.objects.filter (·.isPrefixOf text)).length ≤ 1) ∧ ∀ text, epax.nameObjects text = scan text :=
  ⟨length_starting_le_one, nameObjects_scan⟩

example : scan "BINSN, FUNCFG, BBLOOP, BBBLOOP".toList =
    "EPAX_binSN, EPAX_funcFG, BBEPAX_loop, BBBEPAX_loop".toList := by decide +kernel

end Rules

end PlainHeader
