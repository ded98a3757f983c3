import PlainHeader.Proofs.Locality

/-!
# Container parameters in every context

A vector parameter goes through up to three rules, and between them it stands in the text in a
form that no rule has as its goal. None of these forms joins with what follows it. In front, the
only key that can lie across is `const const`, because `std::` starts as the word ends; for
that the text in front has to end with the beginning of the word, and no rule writes such an
end. So the parameter and both sides of it are rewritten as if each stood alone.
-/

namespace PlainHeader

namespace Text

/-! ## Ends of texts -/

/-- No replacement that ends a text, or stands in its end, contributes to `ending`. -/
def ClearEnd (ending new : Text) : Prop :=
  ∀ i ≤ ending.length, 0 < i → ¬ ending.take i <:+ new ∧ ¬ new <:+ ending.take i

instance (ending new : Text) : Decidable (ClearEnd ending new) :=
  inferInstanceAs (Decidable (∀ i ≤ ending.length, 0 < i → ¬ ending.take i <:+ new ∧ ¬ new <:+ ending.take i))

variable {ending key new : Text}

theorem ClearEnd.apart {early late : Text} (clear : ClearEnd (early ++ late) new) (nonempty : early ≠ []) :
    ¬ early <:+ new ∧ ¬ new <:+ early := by
  have within : early.length ≤ (early ++ late).length := by simp
  have here := clear early.length within (List.length_pos_iff.2 nonempty)
  rwa [List.take_left] at here

/-- An ending to which the replacement contributes nothing has been there before. -/
theorem suffix_of_suffix_replace (nonempty : key ≠ []) (clear : ClearEnd ending new) (text : Text)
    (ends : ending <:+ replace key new text) : ending <:+ text := by
  rcases replace_cases nonempty new text with ⟨rest, rfl, replaced⟩ | ⟨c, rest, rfl, -, replaced⟩ | ⟨rfl, replaced⟩
  · have shorter := length_lt_append nonempty rest
    have later : ending <:+ replace key new rest → ending <:+ key ++ rest := by
      intro within
      exact (suffix_of_suffix_replace nonempty clear rest within).trans (List.suffix_append key rest)
    rw [replaced] at ends
    rcases List.suffix_or_suffix_of_suffix ends (List.suffix_append new _) with within | ⟨early, rfl⟩
    · exact later within
    · by_cases copied : early = []
      · exact later (by rw [copied]; exact List.suffix_rfl)
      · have contributes : early <:+ new := List.suffix_append_self_iff.1 ends
        exact absurd contributes (clear.apart copied).1
  · rw [replaced] at ends
    rcases List.suffix_cons_iff.1 ends with whole | within
    · rcases replace_eq_self_or_infix nonempty new rest with same | ⟨before, after, split⟩
      · rw [whole, same]
      · -- the ending is the whole text, with a replacement in it
        obtain rfl : ending = (c :: before ++ new) ++ after := by rw [whole, ← split]; rfl
        exact absurd (List.suffix_append (c :: before) new) (clear.apart (List.cons_ne_nil c _)).2
    · exact (suffix_of_suffix_replace nonempty clear rest within).trans (List.suffix_cons c rest)
  · rwa [replaced] at ends
termination_by text.length

/-! ## Sealed patterns -/

/-- No occurrence of the key lies across the back of the pattern, and none across its front
    unless the text there ends with `ending`. -/
def Sealed (ending key pattern : Text) : Prop :=
  ∀ i < key.length, 0 < i →
    (ending <:+ key.take i ∨ ¬ key.drop i <+: pattern) ∧ ¬ key.take i <:+ pattern ∧ ¬ pattern <:+ key.take i

instance (ending key pattern : Text) : Decidable (Sealed ending key pattern) :=
  inferInstanceAs (Decidable (∀ i < key.length, 0 < i →
    (ending <:+ key.take i ∨ ¬ key.drop i <+: pattern) ∧ ¬ key.take i <:+ pattern ∧ ¬ pattern <:+ key.take i))

theorem Sealed.replace {pattern front : Text} (closed : Sealed ending key pattern) (nonempty : key ≠ [])
    (unended : ¬ ending <:+ front) (new rest : Text) :
    replace key new (front ++ pattern ++ rest) =
      replace key new front ++ replace key new pattern ++ replace key new rest := by
  have behind : Uncrossed key (front ++ pattern) rest := by
    intro i inside below taken _
    rcases List.suffix_or_suffix_of_suffix taken (List.suffix_append front pattern) with within | around
    · exact (closed i below inside).2.1 within
    · exact (closed i below inside).2.2 around
  have ahead : Uncrossed key front pattern := by
    intro i inside below taken follows
    rcases (closed i below inside).1 with ended | apart
    · exact unended (ended.trans taken)
    · exact apart follows
  rw [replace_append nonempty new behind, replace_append nonempty new ahead]

/-- A pattern is sealed for every rule of a table, in the form that the rules before it have
    given it. -/
def SealedEach (ending : Text) : List (Text × Text) → Text → Prop
  | [], _ => True
  | rule :: rules, pattern => Sealed ending rule.1 pattern ∧ SealedEach ending rules (Text.replace rule.1 rule.2 pattern)

instance SealedEach.decidable (ending : Text) :
    (rules : List (Text × Text)) → (pattern : Text) → Decidable (SealedEach ending rules pattern)
  | [], _ => isTrue trivial
  | rule :: rules, pattern =>
    have := SealedEach.decidable ending rules (Text.replace rule.1 rule.2 pattern)
    inferInstanceAs (Decidable (_ ∧ _))

theorem SealedEach.replaceEach {rules : List (Text × Text)} {pattern front : Text} (closed : SealedEach ending rules pattern)
    (sound : ∀ rule ∈ rules, rule.1 ≠ [] ∧ ClearEnd ending rule.2) (unended : ¬ ending <:+ front) (rest : Text) :
    replaceEach rules (front ++ pattern ++ rest) =
      replaceEach rules front ++ replaceEach rules pattern ++ replaceEach rules rest := by
  induction rules generalizing front pattern rest with
  | nil => rfl
  | cons rule rules ih =>
    obtain ⟨nonempty, clear⟩ := sound rule List.mem_cons_self
    have still : ¬ ending <:+ Text.replace rule.1 rule.2 front := by
      intro ends
      exact unended (suffix_of_suffix_replace nonempty clear front ends)
    simp only [replaceEach_cons]
    rw [closed.1.replace nonempty unended]
    exact ih closed.2 (fun other h => sound other (List.mem_cons_of_mem rule h)) still _

end Text

namespace Rules

/-- The container parameters of the interface, with the C parameters that they become. -/
def containers : List (Text × Text) :=
  [("std::vector<BBL>&".toList, "EPAX_bbl*".toList),
   ("std::vector<INSN>&".toList, "EPAX_insn*".toList),
   ("std::vector<FUNC>&".toList, "EPAX_func*".toList),
   ("std::vector<uint64_t>&".toList, "uint64_t*".toList),
   ("std::vector<std::string>&".toList, "char**".toList),
   ("std::vector<const std::string>&".toList, "char**".toList),
   ("std::vector<const char*>&".toList, "char**".toList)]

theorem sealedEach_containers :
    ∀ container ∈ containers, Text.SealedEach " con".toList (epax.cNames ++ epax.substitutions) container.1 := by
  unfold cNames epax linkageOpen linkageClose cName containers
  dsimp only [List.map]
  simp only [String.reduceToList]
  decide +kernel

theorem clearEnd_con : ∀ rule ∈ epax.cNames ++ epax.substitutions, Text.ClearEnd " con".toList rule.2 := by
  decide +kernel

theorem respell_containers : ∀ container ∈ containers, epax.respell container.1 = container.2 := by
  decide +kernel

/-- A container parameter becomes its C parameter in every context that does not break off
    within a `const` in front of it, and what stands around it becomes what it would alone. -/
theorem respell_container {front : Text} (complete : ¬ "con".toList <:+ front) (rest : Text) :
    ∀ container ∈ containers,
      epax.respell (front ++ container.1 ++ rest) = epax.respell front ++ container.2 ++ epax.respell rest := by
  intro container listed
  have unended : ¬ " con".toList <:+ front := by
    intro ends
    have shorter : "con".toList <:+ " con".toList := by decide
    exact complete (shorter.trans ends)
  have sound : ∀ rule ∈ epax.cNames ++ epax.substitutions, rule.1 ≠ [] ∧ Text.ClearEnd " con".toList rule.2 := by
    intro rule h
    exact ⟨(epax_nonempty rule h).1, clearEnd_con rule h⟩
  rw [← respell_containers container listed]
  simp only [respell_eq_replaceEach]
  exact (sealedEach_containers container listed).replaceEach sound unended rest

/-- A run of `const` in front of the parameter loses its own words only. -/
theorem respell_container_const :
    (¬ "con".toList <:+ "BBLOOP_names(const const const ".toList ∧
        ("std::vector<const std::string>&".toList, "char**".toList) ∈ containers) ∧
      epax.respell ("BBLOOP_names(const const const ".toList ++ "std::vector<const std::string>&".toList ++ " const const".toList) =
        "BBEPAX_loop_names(const const ".toList ++ "char**".toList ++ " const".toList := by
  have complete : ¬ "con".toList <:+ "BBLOOP_names(const const const ".toList := by decide
  have listed : ("std::vector<const std::string>&".toList, "char**".toList) ∈ containers := by decide
  refine ⟨⟨complete, listed⟩, ?_⟩
  rw [respell_container complete " const const".toList _ listed]
  decide +kernel

/-- In front of a parameter, a word that breaks off is completed by it and lost to the one before. -/
example : epax.respell ("const con".toList ++ "std::vector<uint64_t>&".toList) = "conuint64_t*".toList := by
  decide +kernel

end Rules

end PlainHeader
