import PlainHeader.Proofs.Origins
import PlainHeader.Rules.Epax

/-!
# What the EPAX table leaves in a text

No object name and nine of the thirteen keys stand in no text in C spelling, whatever the
text was before. The other four keys can stay behind: a replacement may stand beside what
completes its own key or another one. Five patterns of the old text are the only occasions
for that, and a text without them is in C form after one application, so that a second
one changes nothing.
-/

namespace PlainHeader

namespace Text

theorem replace_eq_self {key text : Text} (absent : ¬ key <:+: text) (new : Text) : replace key new text = text := by
  induction text with
  | nil =>
    have nonempty : key ≠ [] := by rintro rfl; exact absent List.nil_infix
    exact replace_nil nonempty new
  | cons c rest ih =>
    rw [replace_copy fun starts => absent starts.isInfix, ih fun h => absent (h.trans (List.suffix_cons c rest).isInfix)]

/-- A replacement that changes a text leaves the new text in it. -/
theorem replace_eq_self_or_infix {key : Text} (nonempty : key ≠ []) (new text : Text) :
    replace key new text = text ∨ new <:+: replace key new text := by
  induction text with
  | nil => exact .inl (replace_nil nonempty new)
  | cons c rest ih =>
    rcases replace_cases nonempty new (c :: rest) with ⟨behind, -, replaced⟩ | ⟨d, behind, split, -, replaced⟩ | ⟨none, -⟩
    · exact .inr (replaced ▸ (List.prefix_append new _).isInfix)
    · obtain ⟨rfl, rfl⟩ := List.cons.inj split
      rw [replaced]
      exact ih.imp (congrArg (c :: ·)) fun stands => stands.trans (List.suffix_cons c _).isInfix
    · cases none

theorem replaceEach_eq_self {rules : List (Text × Text)} {text : Text} (absent : ∀ rule ∈ rules, ¬ rule.1 <:+: text) :
    replaceEach rules text = text := by
  induction rules with
  | nil => rfl
  | cons rule rules ih =>
    rw [replaceEach_cons, replace_eq_self (absent rule List.mem_cons_self)]
    exact ih fun other h => absent other (List.mem_cons_of_mem rule h)

end Text

namespace Rules

/-- A text in C form holds nothing that a table would rewrite. -/
structure CForm (rules : Rules) (text : Text) : Prop where
  unnamed : ∀ name ∈ rules.objects, ¬ name <:+: text
  unkeyed : ∀ rule ∈ rules.substitutions, ¬ rule.1 <:+: text

theorem CForm.respell_eq {rules : Rules} {text : Text} (form : rules.CForm text) : rules.respell text = text := by
  rw [respell_eq_replaceEach]
  refine Text.replaceEach_eq_self fun rule listed => ?_
  rcases List.mem_append.1 listed with naming | substitution
  · obtain ⟨name, known, rfl⟩ := List.mem_map.1 naming
    exact form.unnamed name known
  · exact form.unkeyed rule substitution

/-- The patterns of which one stands in a text when `pattern` stands in its C spelling. -/
def origins (rules : Rules) (pattern : Text) : List Text :=
  Text.originsEach (rules.cNames ++ rules.substitutions) pattern

theorem epax_nonempty : ∀ rule ∈ epax.cNames ++ epax.substitutions, rule.1 ≠ [] ∧ rule.2 ≠ [] := by
  decide +kernel

theorem exists_origin_respell {pattern text : Text} (stands : pattern <:+: epax.respell text) :
    ∃ origin ∈ epax.origins pattern, origin <:+: text := by
  rw [respell_eq_replaceEach] at stands
  exact Text.exists_originEach epax_nonempty stands

theorem not_infix_respell {pattern : Text} (rootless : epax.origins pattern = []) (text : Text) :
    ¬ pattern <:+: epax.respell text := by
  rw [respell_eq_replaceEach]
  exact Text.not_infix_replaceEach epax_nonempty rootless text

/-! ## Names and keys -/

/-- Keys that stand in no text in C spelling. -/
def spentKeys : List Text :=
  ["namespace EPAX \x7b".toList, "std::vector<EPAX_bbl>&".toList, "std::string".toList,
   "std::vector<EPAX_insn>&".toList, "std::vector<const char*>&".toList, "std::vector<uint64_t>&".toList,
   "std::vector<EPAX_func>&".toList, "bool".toList, "std::vector<std::string>&".toList]

/-- Keys that can stand in a text in C spelling. -/
def lingeringKeys : List Text :=
  ["Interface_hpp".toList, "\x7d // namespace EPAX".toList, "const const".toList, "Interface.hpp".toList]

/-- The patterns out of which a rule can make a lingering key. -/
def compoundPatterns : List Text :=
  ["Interface_hpppp".toList, "Interface.hpppp".toList, "const const".toList, "FUNConst".toList,
   "\x7d // namespace std::vector<".toList]

theorem origins_object : ∀ name ∈ epax.objects, epax.origins name = [] := by
  unfold origins cNames epax linkageOpen linkageClose cName
  dsimp only [List.map]
  simp only [String.reduceToList]
  decide +kernel

theorem origins_spentKey : ∀ key ∈ spentKeys, epax.origins key = [] := by
  unfold origins cNames epax linkageOpen linkageClose cName spentKeys
  dsimp only [List.map]
  simp only [String.reduceToList]
  decide +kernel

/-- A lingering key has been made out of one of the compound patterns. -/
theorem origins_lingeringKey :
    ∀ key ∈ lingeringKeys, ∀ origin ∈ epax.origins key, ∃ pattern ∈ compoundPatterns, pattern <:+: origin := by
  unfold origins cNames epax linkageOpen linkageClose cName lingeringKeys compoundPatterns
  dsimp only [List.map]
  simp only [String.reduceToList]
  decide +kernel

theorem spent_or_lingering : ∀ rule ∈ epax.substitutions, rule.1 ∈ spentKeys ∨ rule.1 ∈ lingeringKeys := by
  decide +kernel

/-- Every lingering key stays behind in the C spelling of some text. -/
theorem exists_lingering : ∀ key ∈ lingeringKeys, ∃ text, key <:+: epax.respell text := by
  have made : ∀ key ∈ lingeringKeys, ∃ text ∈ ["Interface_hpppp".toList, "\x7d // namespace std::vector<BBL>&".toList,
      "const const const".toList, "Interface.hpppp".toList], key <:+: epax.respell text := by
    decide +kernel
  intro key lingers
  obtain ⟨text, -, stands⟩ := made key lingers
  exact ⟨text, stands⟩

/-- Nine keys stand in no text in C spelling, and exactly the lingering keys stand in some. -/
theorem key_infix_respell_iff :
    (∀ text, ∀ key ∈ spentKeys, ¬ key <:+: epax.respell text) ∧
      ∀ rule ∈ epax.substitutions, (∃ text, rule.1 <:+: epax.respell text) ↔ rule.1 ∈ lingeringKeys := by
  have spent : ∀ text, ∀ key ∈ spentKeys, ¬ key <:+: epax.respell text := by
    intro text key listed
    exact not_infix_respell (origins_spentKey key listed) text
  refine ⟨spent, ?_⟩
  intro rule listed
  constructor
  · rintro ⟨text, stands⟩
    rcases spent_or_lingering rule listed with gone | lingers
    · exact absurd stands (spent text rule.1 gone)
    · exact lingers
  · exact exists_lingering rule.1

theorem no_string_in_strings :
    "std::string".toList ∈ spentKeys ∧
      ¬ "std::string".toList <:+: epax.respell "f(std::vector<const std::string>& names);".toList :=
  ⟨by decide, key_infix_respell_iff.1 _ _ (by decide)⟩

theorem respell_cForm {text : Text} (plain : ∀ pattern ∈ compoundPatterns, ¬ pattern <:+: text) :
    epax.CForm (epax.respell text) where
  unnamed name listed := not_infix_respell (origins_object name listed) text
  unkeyed rule listed := by
    rcases spent_or_lingering rule listed with gone | lingers
    · exact not_infix_respell (origins_spentKey rule.1 gone) text
    · intro stands
      obtain ⟨origin, known, inside⟩ := exists_origin_respell stands
      obtain ⟨pattern, compound, within⟩ := origins_lingeringKey rule.1 lingers origin known
      exact plain pattern compound (within.trans inside)

/-- A text without compound patterns reaches its C form at once: one application leaves no
    object name and no key, and a second one changes nothing. -/
theorem respell_respell {text : Text} (plain : ∀ pattern ∈ compoundPatterns, ¬ pattern <:+: text) :
    (∀ name ∈ epax.objects, ¬ name <:+: epax.respell text) ∧
      (∀ rule ∈ epax.substitutions, ¬ rule.1 <:+: epax.respell text) ∧
        epax.respell (epax.respell text) = epax.respell text := by
  have form := respell_cForm plain
  exact ⟨form.unnamed, form.unkeyed, form.respell_eq⟩

theorem respell_respell_declaration :
    (∀ pattern ∈ compoundPatterns, ¬ pattern <:+: "bool FUNCFG_names(const std::string& bbl);".toList) ∧
      epax.respell (epax.respell "bool FUNCFG_names(const std::string& bbl);".toList) =
        epax.respell "bool FUNCFG_names(const std::string& bbl);".toList := by
  have plain : ∀ pattern ∈ compoundPatterns, ¬ pattern <:+: "bool FUNCFG_names(const std::string& bbl);".toList := by
    decide +kernel
  exact ⟨plain, (respell_respell plain).2.2⟩

end Rules

end PlainHeader
