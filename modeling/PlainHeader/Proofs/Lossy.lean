import PlainHeader.Proofs.Utf8

/-!
# What reading any bytes as text keeps

Bytes that are no UTF-8 are read with replacement characters. The reader is either between two
characters or has `Begun` a sequence, and then it holds the bytes of that sequence, which are all
beyond ASCII. A sequence that is completed gives a character beyond ASCII, and one that breaks off
gives a replacement character, so that every ASCII byte is still shown as its character, and no
ASCII character is shown where there is no such byte.
-/

namespace PlainHeader.Utf8

variable {part : Bytes} {begun : Begun} {b : UInt8}

theorem replacement_far : 0x80 ≤ replacement.toNat := by decide

/-! ## One byte -/

/-- An ASCII byte is a character at once, and no other byte is. -/
theorem first_cases (b : UInt8) :
    (∃ c, first b = .char c ∧ c.toNat < 0x80 ∧ b.toNat = c.toNat) ∨
      (0x80 ≤ b.toNat ∧ (first b = .misfit ∨ ∃ begun, first b = .more begun ∧ 0x80 ≤ begun.low.toNat)) := by
  by_cases one : b.toNat < 0x80
  · have valid : b.toNat.isValidChar := .inl (by omega)
    have same : (Char.ofNat b.toNat).toNat = b.toNat := toNat_ofNat valid
    exact .inl ⟨_, first_one one, by rwa [same], same.symm⟩
  refine .inr ⟨by omega, ?_⟩
  by_cases misfit : b.toNat < 0xC2 ∨ 0xF5 ≤ b.toNat
  · exact .inl (first_misfit (by omega))
  by_cases two : b.toNat < 0xE0
  · exact .inr ⟨_, first_two (by omega) two, Nat.le_refl 0x80⟩
  by_cases three : b.toNat < 0xF0
  · refine .inr ⟨_, first_three (by omega) three, ?_⟩
    split <;> simp
  · refine .inr ⟨_, first_four (by omega) (by omega), ?_⟩
    split <;> simp

/-- A byte that continues a sequence lies in its range, and the next one must lie beyond ASCII. -/
theorem next_more {after : Begun} (read : next begun b = .more after) : begun.low ≤ b ∧ after.low = 0x80 := by
  unfold next at read
  split at read
  case isTrue fits =>
    refine ⟨fits.1, ?_⟩
    cases more : begun.after with
    | zero => simp [more] at read
    | succ n =>
      simp only [more, Effect.more.injEq] at read
      rw [← read]
  case isFalse => cases read

theorem decodeLossyFrom_none (b : UInt8) (rest : Bytes) :
    decodeLossyFrom none (b :: rest) =
      match first b with
      | .char c => c :: decodeLossyFrom none rest
      | .more begun => decodeLossyFrom (some begun) rest
      | .misfit => replacement :: decodeLossyFrom none rest := by
  simp only [decodeLossyFrom, advance, restart]
  cases first b <;> rfl

theorem decodeLossyFrom_some (begun : Begun) (b : UInt8) (rest : Bytes) :
    decodeLossyFrom (some begun) (b :: rest) =
      match next begun b with
      | .char c => c :: decodeLossyFrom none rest
      | .more after => decodeLossyFrom (some after) rest
      | .misfit => replacement :: decodeLossyFrom none (b :: rest) := by
  simp only [decodeLossyFrom, advance]
  cases next begun b <;> rfl

/-! ## Sequences -/

/-- The bytes that have been read of a sequence. -/
structure Begun.Holds (begun : Begun) (part : Bytes) : Prop where
  started : part ≠ []
  high : ∀ b ∈ part, 0x80 ≤ b.toNat
  /-- No ASCII byte continues the sequence. -/
  low : 0x80 ≤ begun.low.toNat
  reads : ∀ rest, decodeFrom none (part ++ rest) = decodeFrom (some begun) rest

theorem holds_of_first (read : first b = .more begun) : begun.Holds [b] := by
  rcases first_cases b with ⟨c, single, -⟩ | ⟨high, misfit | ⟨begun', more, low⟩⟩
  · cases read.symm.trans single
  · cases read.symm.trans misfit
  · obtain rfl : begun = begun' := Effect.more.inj (read.symm.trans more)
    exact ⟨List.cons_ne_nil b [], by simpa using high, low, decodeFrom_more read⟩

theorem Begun.Holds.more {after : Begun} (holds : begun.Holds part) (read : next begun b = .more after) :
    after.Holds (part ++ [b]) := by
  obtain ⟨fits, low⟩ := next_more read
  have high : 0x80 ≤ b.toNat := holds.low.trans (UInt8.le_iff_toNat_le.1 fits)
  refine ⟨by simp, ?_, by rw [low]; decide, ?_⟩
  · rw [List.forall_mem_append, List.forall_mem_singleton]
    exact ⟨holds.high, high⟩
  · intro rest
    rw [List.append_assoc, holds.reads, List.singleton_append]
    simp only [decodeFrom, effect, read]

/-- A sequence that is completed is that of a character beyond ASCII, being longer than one byte. -/
theorem Begun.Holds.char {c : Char} (holds : begun.Holds part) (read : next begun b = .char c) :
    (∀ d ∈ part ++ [b], 0x80 ≤ d.toNat) ∧ 0x80 ≤ c.toNat := by
  have whole : decodeFrom none (part ++ [b]) = some [c] := by
    rw [holds.reads]
    simp [decodeFrom, effect, read]
  have encoded : String.utf8EncodeChar c = part ++ [b] := by
    rw [← encode_of_decodeFrom whole, encode_cons, encode_nil, List.append_nil]
  have far : 0x80 ≤ c.toNat := by
    by_contra near
    obtain ⟨d, single, -⟩ := encodeChar_ascii (c := c) (by omega)
    have lengths := congrArg List.length (encoded.symm.trans single)
    have := List.length_pos_iff.2 holds.started
    simp only [List.length_append, List.length_singleton] at lengths
    omega
  exact ⟨encoded ▸ le_of_mem_encodeChar far, far⟩

/-! ## Any bytes -/

theorem shownAs_decodeLossyFrom (bytes : Bytes) :
    ShownAs bytes (decodeLossyFrom none bytes) ∧
      ∀ {begun : Begun} {part : Bytes}, begun.Holds part → ShownAs (part ++ bytes) (decodeLossyFrom (some begun) bytes) := by
  induction bytes with
  | nil =>
    refine ⟨.nil, fun {begun part} holds => ?_⟩
    exact .beyond holds.started holds.high replacement_far .nil
  | cons b rest ih =>
    obtain ⟨between, within⟩ := ih
    have afresh : ShownAs (b :: rest) (decodeLossyFrom none (b :: rest)) := by
      rw [decodeLossyFrom_none]
      rcases first_cases b with ⟨c, read, low, same⟩ | ⟨high, read | ⟨begun, read, -⟩⟩
      · rw [read]
        exact .ascii low same between
      · rw [read]
        exact .beyond (List.cons_ne_nil b []) (by simpa using high) replacement_far between
      · rw [read]
        exact within (holds_of_first read)
    refine ⟨afresh, fun {begun part} holds => ?_⟩
    rw [decodeLossyFrom_some]
    cases read : next begun b with
    | char c =>
      obtain ⟨high, far⟩ := holds.char read
      rw [List.append_cons]
      exact .beyond (by simp) high far between
    | more after =>
      rw [List.append_cons]
      exact within (holds.more read)
    | misfit => exact .beyond holds.started holds.high replacement_far afresh

/-- Any bytes are shown as the text that they are read as. -/
theorem shownAs_decodeLossy (bytes : Bytes) : ShownAs bytes (decodeLossy bytes) := (shownAs_decodeLossyFrom bytes).1

end PlainHeader.Utf8
