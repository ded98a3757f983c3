import PlainHeader.Text.Utf8
import Mathlib.Data.List.Infix

/-!
# UTF-8 reads back what it writes

`decode?` accepts exactly the bytes of texts, and answers the text that they are the bytes
of. The sequence of one character decides everything: `decode_char` says that it is read
as that character, whatever follows, and `exists_char` that nothing else begins bytes
that are accepted.

Bytes below 0x80 are characters of their own and lie in no longer sequence, so an ASCII
pattern stands in the bytes of a text only where it stands in the text.
-/

namespace PlainHeader.Utf8

/-- Bytes are UTF-8 when they are the bytes of a text. -/
def Valid (bytes : Bytes) : Prop := ∃ text, encode text = bytes

/-! ## Bytes of a sequence -/

section
variable {b : UInt8}

theorem first_one (high : b.toNat < 0x80) : first b = .char (Char.ofNat b.toNat) := by
  simp [first, UInt8.lt_iff_toNat_lt, high]

theorem first_two (low : 0xC2 ≤ b.toNat) (high : b.toNat < 0xE0) :
    first b = .more ⟨b.toNat - 0xC0, 0x80, 0xBF, 0⟩ := by
  have : ¬ b.toNat < 0x80 := by omega
  have : ¬ b.toNat < 0xC2 := by omega
  simp [first, UInt8.lt_iff_toNat_lt, *]

theorem first_three (low : 0xE0 ≤ b.toNat) (high : b.toNat < 0xF0) :
    first b = .more ⟨b.toNat - 0xE0, if b = 0xE0 then 0xA0 else 0x80, if b = 0xED then 0x9F else 0xBF, 1⟩ := by
  have : ¬ b.toNat < 0x80 := by omega
  have : ¬ b.toNat < 0xC2 := by omega
  have : ¬ b.toNat < 0xE0 := by omega
  simp [first, UInt8.lt_iff_toNat_lt, *]

theorem first_four (low : 0xF0 ≤ b.toNat) (high : b.toNat < 0xF5) :
    first b = .more ⟨b.toNat - 0xF0, if b = 0xF0 then 0x90 else 0x80, if b = 0xF4 then 0x8F else 0xBF, 2⟩ := by
  have : ¬ b.toNat < 0x80 := by omega
  have : ¬ b.toNat < 0xC2 := by omega
  have : ¬ b.toNat < 0xE0 := by omega
  have : ¬ b.toNat < 0xF0 := by omega
  simp [first, UInt8.lt_iff_toNat_lt, *]

theorem first_misfit (h : 0x80 ≤ b.toNat ∧ b.toNat < 0xC2 ∨ 0xF5 ≤ b.toNat) : first b = .misfit := by
  have : ¬ b.toNat < 0x80 := by omega
  rcases h with ⟨_, high⟩ | low
  · simp [first, UInt8.lt_iff_toNat_lt, *]
  · have : ¬ b.toNat < 0xC2 := by omega
    have : ¬ b.toNat < 0xE0 := by omega
    have : ¬ b.toNat < 0xF0 := by omega
    have : ¬ b.toNat < 0xF5 := by omega
    simp [first, UInt8.lt_iff_toNat_lt, *]

/-- The last byte of a sequence completes a character. -/
private theorem decodeFrom_last {value : Nat} {low high : UInt8} {bytes : Bytes} {text : Text} :
    decodeFrom (some ⟨value, low, high, 0⟩) bytes = some text ↔
      ∃ b rest text', bytes = b :: rest ∧ low ≤ b ∧ b ≤ high ∧
        text = Char.ofNat (value * 64 + (b.toNat - 0x80)) :: text' ∧ decodeFrom none rest = some text' := by
  cases bytes with
  | nil => simp [decodeFrom]
  | cons b rest =>
    by_cases fits : low ≤ b ∧ b ≤ high
    · simp only [decodeFrom, effect, next, fits, and_self, if_true, Option.map_eq_some_iff]
      constructor
      · rintro ⟨text', decoded, rfl⟩
        exact ⟨b, rest, text', rfl, fits.1, fits.2, rfl, decoded⟩
      · rintro ⟨b', rest', text', same, -, -, rfl, decoded⟩
        obtain ⟨rfl, rfl⟩ := List.cons.inj same
        exact ⟨text', decoded, rfl⟩
    · simp only [decodeFrom, effect, next, fits, if_false]
      grind

/-- A byte before the last one adds its bits to the value. -/
private theorem decodeFrom_inner {value after : Nat} {low high : UInt8} {bytes : Bytes} {text : Text} :
    decodeFrom (some ⟨value, low, high, after + 1⟩) bytes = some text ↔
      ∃ b rest, bytes = b :: rest ∧ low ≤ b ∧ b ≤ high ∧
        decodeFrom (some ⟨value * 64 + (b.toNat - 0x80), 0x80, 0xBF, after⟩) rest = some text := by
  cases bytes with
  | nil => simp [decodeFrom]
  | cons b rest =>
    by_cases fits : low ≤ b ∧ b ≤ high
    · simp [decodeFrom, effect, next, fits]
    · simp only [decodeFrom, effect, next, fits, if_false]
      grind

end

/-! ## Characters -/

theorem toNat_ofNat {value : Nat} (valid : value.isValidChar) : (Char.ofNat value).val.toNat = value := by
  rw [Char.ofNat, dif_pos valid]
  rfl

private theorem toNat_byte {n : Nat} (h : n < 256) : (UInt8.ofNat n).toNat = n := UInt8.toNat_ofNat_of_lt' h

private theorem encode_one {value : Nat} (high : value < 0x80) :
    ∃ b, String.utf8EncodeChar (Char.ofNat value) = [b] ∧ b.toNat = value := by
  have valid : value.isValidChar := .inl (by omega)
  have : value ≤ 0x7F := by omega
  exact ⟨UInt8.ofNat value, by simp only [String.utf8EncodeChar, toNat_ofNat valid, this, if_true], toNat_byte (by omega)⟩

private theorem encode_two (value : Nat) (low : 0x80 ≤ value) (high : value < 0x800) :
    ∃ b b₁, String.utf8EncodeChar (Char.ofNat value) = [b, b₁] ∧ b.toNat = value / 64 + 0xC0 ∧
      b₁.toNat = value % 64 + 0x80 := by
  have valid : value.isValidChar := .inl (by omega)
  have : ¬ value ≤ 0x7F := by omega
  have : value ≤ 0x7FF := by omega
  have : value / 64 % 32 = value / 64 := by omega
  refine ⟨UInt8.ofNat (value / 64 + 0xC0), UInt8.ofNat (value % 64 + 0x80), ?_, toNat_byte (by omega),
    toNat_byte (by omega)⟩
  simp only [String.utf8EncodeChar, toNat_ofNat valid, *, if_true, if_false]

private theorem encode_three (value : Nat) (valid : value.isValidChar) (low : 0x800 ≤ value) (high : value < 0x10000) :
    ∃ b b₁ b₂, String.utf8EncodeChar (Char.ofNat value) = [b, b₁, b₂] ∧ b.toNat = value / 4096 + 0xE0 ∧
      b₁.toNat = value / 64 % 64 + 0x80 ∧ b₂.toNat = value % 64 + 0x80 := by
  have : ¬ value ≤ 0x7F := by omega
  have : ¬ value ≤ 0x7FF := by omega
  have : value ≤ 0xFFFF := by omega
  have : value / 4096 % 16 = value / 4096 := by omega
  refine ⟨UInt8.ofNat (value / 4096 + 0xE0), UInt8.ofNat (value / 64 % 64 + 0x80), UInt8.ofNat (value % 64 + 0x80), ?_,
    toNat_byte (by omega), toNat_byte (by omega), toNat_byte (by omega)⟩
  simp only [String.utf8EncodeChar, toNat_ofNat valid, *, if_true, if_false]

private theorem encode_four (value : Nat) (valid : value.isValidChar) (low : 0x10000 ≤ value) :
    ∃ b b₁ b₂ b₃, String.utf8EncodeChar (Char.ofNat value) = [b, b₁, b₂, b₃] ∧ b.toNat = value / 262144 + 0xF0 ∧
      b₁.toNat = value / 4096 % 64 + 0x80 ∧ b₂.toNat = value / 64 % 64 + 0x80 ∧ b₃.toNat = value % 64 + 0x80 := by
  have high : value < 0x110000 := by
    unfold Nat.isValidChar at valid
    omega
  have : ¬ value ≤ 0x7F := by omega
  have : ¬ value ≤ 0x7FF := by omega
  have : ¬ value ≤ 0xFFFF := by omega
  have : value / 262144 % 8 = value / 262144 := by omega
  refine ⟨UInt8.ofNat (value / 262144 + 0xF0), UInt8.ofNat (value / 4096 % 64 + 0x80),
    UInt8.ofNat (value / 64 % 64 + 0x80), UInt8.ofNat (value % 64 + 0x80), ?_,
    toNat_byte (by omega), toNat_byte (by omega), toNat_byte (by omega), toNat_byte (by omega)⟩
  simp only [String.utf8EncodeChar, toNat_ofNat valid, *, if_false]

private theorem tail_byte {b : UInt8} (low : 0x80 ≤ b.toNat) (high : b.toNat ≤ 0xBF) : 0x80 ≤ b ∧ b ≤ 0xBF :=
  ⟨UInt8.le_iff_toNat_le.2 low, UInt8.le_iff_toNat_le.2 high⟩

/-- The second byte of a longer sequence lies in a range that the first byte can narrow. -/
private theorem second_byte {b b₁ : UInt8} (lowest least highest greatest : UInt8) (low : 0x80 ≤ least.toNat)
    (high : greatest.toNat ≤ 0xBF) :
    ((if b = lowest then least else 0x80) ≤ b₁ ∧ b₁ ≤ if b = highest then greatest else 0xBF) ↔
      0x80 ≤ b₁.toNat ∧ b₁.toNat ≤ 0xBF ∧ (b.toNat = lowest.toNat → least.toNat ≤ b₁.toNat) ∧
        (b.toNat = highest.toNat → b₁.toNat ≤ greatest.toNat) := by
  simp only [← UInt8.toNat_inj]
  split_ifs <;> simp only [UInt8.le_iff_toNat_le, UInt8.reduceToNat] <;> omega

theorem decodeFrom_more {b : UInt8} {begun : Begun} (h : first b = .more begun) (rest : Bytes) :
    decodeFrom none (b :: rest) = decodeFrom (some begun) rest := by
  simp only [decodeFrom, effect, h]

/-- Accepted bytes begin with the sequence of the first character. -/
theorem exists_char {b : UInt8} {bytes : Bytes} {text : Text} (decoded : decodeFrom none (b :: bytes) = some text) :
    ∃ c rest text', b :: bytes = String.utf8EncodeChar c ++ rest ∧ text = c :: text' ∧
      decodeFrom none rest = some text' := by
  by_cases one : b.toNat < 0x80
  · simp only [decodeFrom, effect, first_one one, Option.map_eq_some_iff] at decoded
    obtain ⟨text', later, rfl⟩ := decoded
    obtain ⟨d, encoded, is⟩ := encode_one one
    obtain rfl : b = d := UInt8.toNat_inj.1 is.symm
    exact ⟨_, bytes, text', by rw [encoded]; rfl, rfl, later⟩
  by_cases misfit : b.toNat < 0xC2 ∨ 0xF5 ≤ b.toNat
  · have misfit : 0x80 ≤ b.toNat ∧ b.toNat < 0xC2 ∨ 0xF5 ≤ b.toNat := by omega
    simp [decodeFrom, effect, first_misfit misfit] at decoded
  by_cases two : b.toNat < 0xE0
  · rw [decodeFrom_more (first_two (by omega) two)] at decoded
    obtain ⟨b₁, rest, text', rfl, low, high, rfl, later⟩ := decodeFrom_last.1 decoded
    simp only [UInt8.le_iff_toNat_le, UInt8.reduceToNat] at low high
    obtain ⟨d, d₁, encoded, is, is₁⟩ :=
      encode_two ((b.toNat - 0xC0) * 64 + (b₁.toNat - 0x80)) (by omega) (by omega)
    obtain rfl : b = d := UInt8.toNat_inj.1 (by omega)
    obtain rfl : b₁ = d₁ := UInt8.toNat_inj.1 (by omega)
    exact ⟨_, rest, text', by rw [encoded]; rfl, rfl, later⟩
  by_cases three : b.toNat < 0xF0
  · rw [decodeFrom_more (first_three (by omega) three)] at decoded
    obtain ⟨b₁, rest, rfl, low, high, decoded₁⟩ := decodeFrom_inner.1 decoded
    obtain ⟨b₂, rest, text', rfl, low₂, high₂, rfl, later⟩ := decodeFrom_last.1 decoded₁
    have bounds := (second_byte _ _ _ _ (by decide) (by decide)).1 ⟨low, high⟩
    simp only [UInt8.le_iff_toNat_le, UInt8.reduceToNat] at bounds low₂ high₂
    obtain ⟨d, d₁, d₂, encoded, is, is₁, is₂⟩ :=
      encode_three (((b.toNat - 0xE0) * 64 + (b₁.toNat - 0x80)) * 64 + (b₂.toNat - 0x80))
        (by unfold Nat.isValidChar; omega) (by omega) (by omega)
    obtain rfl : b = d := UInt8.toNat_inj.1 (by omega)
    obtain rfl : b₁ = d₁ := UInt8.toNat_inj.1 (by omega)
    obtain rfl : b₂ = d₂ := UInt8.toNat_inj.1 (by omega)
    exact ⟨_, rest, text', by rw [encoded]; rfl, rfl, later⟩
  · rw [decodeFrom_more (first_four (by omega) (by omega))] at decoded
    obtain ⟨b₁, rest, rfl, low, high, decoded₁⟩ := decodeFrom_inner.1 decoded
    obtain ⟨b₂, rest, rfl, low₂, high₂, decoded₂⟩ := decodeFrom_inner.1 decoded₁
    obtain ⟨b₃, rest, text', rfl, low₃, high₃, rfl, later⟩ := decodeFrom_last.1 decoded₂
    have bounds := (second_byte _ _ _ _ (by decide) (by decide)).1 ⟨low, high⟩
    simp only [UInt8.le_iff_toNat_le, UInt8.reduceToNat] at bounds low₂ high₂ low₃ high₃
    obtain ⟨d, d₁, d₂, d₃, encoded, is, is₁, is₂, is₃⟩ :=
      encode_four ((((b.toNat - 0xF0) * 64 + (b₁.toNat - 0x80)) * 64 + (b₂.toNat - 0x80)) * 64 + (b₃.toNat - 0x80))
        (by unfold Nat.isValidChar; omega) (by omega)
    obtain rfl : b = d := UInt8.toNat_inj.1 (by omega)
    obtain rfl : b₁ = d₁ := UInt8.toNat_inj.1 (by omega)
    obtain rfl : b₂ = d₂ := UInt8.toNat_inj.1 (by omega)
    obtain rfl : b₃ = d₃ := UInt8.toNat_inj.1 (by omega)
    exact ⟨_, rest, text', by rw [encoded]; rfl, rfl, later⟩

/-- The sequence of a character is read as that character, whatever follows. -/
theorem decode_char (c : Char) {rest : Bytes} {text : Text} (decoded : decodeFrom none rest = some text) :
    decodeFrom none (String.utf8EncodeChar c ++ rest) = some (c :: text) := by
  obtain ⟨value, valid, rfl⟩ : ∃ value : Nat, value.isValidChar ∧ c = Char.ofNat value :=
    ⟨c.toNat, c.valid, (Char.ofNat_toNat c).symm⟩
  by_cases one : value < 0x80
  · obtain ⟨b, encoded, rfl⟩ := encode_one one
    rw [encoded]
    simp [decodeFrom, effect, first_one one, decoded]
  by_cases two : value < 0x800
  · obtain ⟨b, b₁, encoded, is, is₁⟩ := encode_two value (by omega) two
    have fits : (0x80 : UInt8) ≤ b₁ ∧ b₁ ≤ 0xBF := tail_byte (by omega) (by omega)
    have whole : (b.toNat - 0xC0) * 64 + (b₁.toNat - 0x80) = value := by omega
    rw [encoded, List.cons_append, decodeFrom_more (first_two (by omega) (by omega))]
    exact decodeFrom_last.2 ⟨b₁, rest, text, rfl, fits.1, fits.2, by rw [whole], decoded⟩
  by_cases three : value < 0x10000
  · obtain ⟨b, b₁, b₂, encoded, is, is₁, is₂⟩ := encode_three value valid (by omega) three
    unfold Nat.isValidChar at valid
    have fits := (@second_byte b b₁ 0xE0 0xA0 0xED 0x9F (by decide) (by decide)).2
      (by simp only [UInt8.reduceToNat]; omega)
    have fits₂ : (0x80 : UInt8) ≤ b₂ ∧ b₂ ≤ 0xBF := tail_byte (by omega) (by omega)
    have whole : ((b.toNat - 0xE0) * 64 + (b₁.toNat - 0x80)) * 64 + (b₂.toNat - 0x80) = value := by omega
    rw [encoded, List.cons_append, decodeFrom_more (first_three (by omega) (by omega))]
    refine decodeFrom_inner.2 ⟨b₁, _, rfl, fits.1, fits.2, ?_⟩
    exact decodeFrom_last.2 ⟨b₂, rest, text, rfl, fits₂.1, fits₂.2, by rw [whole], decoded⟩
  · obtain ⟨b, b₁, b₂, b₃, encoded, is, is₁, is₂, is₃⟩ := encode_four value valid (by omega)
    unfold Nat.isValidChar at valid
    have fits := (@second_byte b b₁ 0xF0 0x90 0xF4 0x8F (by decide) (by decide)).2
      (by simp only [UInt8.reduceToNat]; omega)
    have fits₂ : (0x80 : UInt8) ≤ b₂ ∧ b₂ ≤ 0xBF := tail_byte (by omega) (by omega)
    have fits₃ : (0x80 : UInt8) ≤ b₃ ∧ b₃ ≤ 0xBF := tail_byte (by omega) (by omega)
    have whole : (((b.toNat - 0xF0) * 64 + (b₁.toNat - 0x80)) * 64 + (b₂.toNat - 0x80)) * 64 + (b₃.toNat - 0x80) =
        value := by omega
    rw [encoded, List.cons_append, decodeFrom_more (first_four (by omega) (by omega))]
    refine decodeFrom_inner.2 ⟨b₁, _, rfl, fits.1, fits.2, ?_⟩
    refine decodeFrom_inner.2 ⟨b₂, _, rfl, fits₂.1, fits₂.2, ?_⟩
    exact decodeFrom_last.2 ⟨b₃, rest, text, rfl, fits₃.1, fits₃.2, by rw [whole], decoded⟩

/-! ## Texts -/

theorem decode?_encode (text : Text) : decode? (encode text) = some text := by
  induction text with
  | nil => rfl
  | cons c text ih => exact decode_char c ih

theorem encode_of_decodeFrom {bytes : Bytes} {text : Text} (decoded : decodeFrom none bytes = some text) :
    encode text = bytes := by
  cases bytes with
  | nil =>
    obtain rfl : [] = text := by simpa [decodeFrom] using decoded
    rfl
  | cons b bytes =>
    obtain ⟨c, rest, text', split, rfl, later⟩ := exists_char decoded
    have shorter : rest.length < (b :: bytes).length := by
      have := congrArg List.length split
      have := List.length_pos_iff.2 (String.utf8EncodeChar_ne_nil (c := c))
      simp only [List.length_append] at *
      omega
    rw [encode_cons, encode_of_decodeFrom later, split]
termination_by bytes.length

/-- Bytes are read as a text exactly when they are its bytes. -/
theorem decode?_eq_some_iff {bytes : Bytes} {text : Text} : decode? bytes = some text ↔ encode text = bytes := by
  constructor
  · exact encode_of_decodeFrom
  · rintro rfl
    exact decode?_encode text

theorem isSome_decode?_iff {bytes : Bytes} : (decode? bytes).isSome ↔ Valid bytes := by
  simp only [Option.isSome_iff_exists, decode?_eq_some_iff, Valid]

instance (bytes : Bytes) : Decidable (Valid bytes) := decidable_of_iff _ isSome_decode?_iff

/-! ## ASCII patterns -/

/-- Every character of the text is a byte of its own. -/
def Ascii (text : Text) : Prop := ∀ c ∈ text, c.toNat < 0x80

instance (text : Text) : Decidable (Ascii text) := List.decidableBAll (fun c : Char => c.toNat < 0x80) text

theorem encodeChar_ascii {c : Char} (ascii : c.toNat < 0x80) :
    ∃ b, String.utf8EncodeChar c = [b] ∧ b.toNat = c.toNat := by
  simpa only [Char.ofNat_toNat] using encode_one ascii

theorem le_of_mem_encodeChar {c : Char} (beyond : 0x80 ≤ c.toNat) :
    ∀ b ∈ String.utf8EncodeChar c, 0x80 ≤ b.toNat := by
  have valid : c.toNat.isValidChar := c.valid
  rw [← Char.ofNat_toNat c]
  by_cases two : c.toNat < 0x800
  · obtain ⟨b, b₁, encoded, is, is₁⟩ := encode_two c.toNat beyond two
    simp only [encoded, List.mem_cons, List.not_mem_nil, or_false]
    rintro d (rfl | rfl) <;> omega
  by_cases three : c.toNat < 0x10000
  · obtain ⟨b, b₁, b₂, encoded, is, is₁, is₂⟩ := encode_three c.toNat valid (by omega) three
    simp only [encoded, List.mem_cons, List.not_mem_nil, or_false]
    rintro d (rfl | rfl | rfl) <;> omega
  · obtain ⟨b, b₁, b₂, b₃, encoded, is, is₁, is₂, is₃⟩ := encode_four c.toNat valid (by omega)
    simp only [encoded, List.mem_cons, List.not_mem_nil, or_false]
    rintro d (rfl | rfl | rfl | rfl) <;> omega

private theorem lt_of_mem_encode {pattern : Text} (ascii : Ascii pattern) : ∀ b ∈ encode pattern, b.toNat < 0x80 := by
  intro b member
  obtain ⟨c, within, member⟩ := List.mem_flatMap.1 member
  obtain ⟨d, encoded, is⟩ := encodeChar_ascii (ascii c within)
  obtain rfl : b = d := by simpa [encoded] using member
  exact is ▸ ascii c within

/-- Bytes shown as a text: an ASCII byte is shown as its character, and other bytes, some at a time,
    as a character beyond ASCII. -/
inductive ShownAs : Bytes → Text → Prop
  | nil : ShownAs [] []
  | ascii {b : UInt8} {c : Char} {bytes : Bytes} {text : Text} (low : c.toNat < 0x80) (same : b.toNat = c.toNat)
      (rest : ShownAs bytes text) : ShownAs (b :: bytes) (c :: text)
  | beyond {part : Bytes} {c : Char} {bytes : Bytes} {text : Text} (started : part ≠ [])
      (high : ∀ b ∈ part, 0x80 ≤ b.toNat) (far : 0x80 ≤ c.toNat) (rest : ShownAs bytes text) :
      ShownAs (part ++ bytes) (c :: text)

theorem shownAs_encode (text : Text) : ShownAs (encode text) text := by
  induction text with
  | nil => exact .nil
  | cons c text ih =>
    rw [encode_cons]
    by_cases far : 0x80 ≤ c.toNat
    · exact .beyond String.utf8EncodeChar_ne_nil (le_of_mem_encodeChar far) far ih
    · have low : c.toNat < 0x80 := by omega
      obtain ⟨b, encoded, same⟩ := encodeChar_ascii low
      rw [encoded, List.singleton_append]
      exact .ascii low same ih

theorem ShownAs.prefix_iff {bytes : Bytes} {text pattern : Text} (shown : ShownAs bytes text) (ascii : Ascii pattern) :
    encode pattern <+: bytes ↔ pattern <+: text := by
  cases pattern with
  | nil => exact iff_of_true List.nil_prefix List.nil_prefix
  | cons p pattern =>
    have low := ascii p List.mem_cons_self
    have later : Ascii pattern := fun d inside => ascii d (List.mem_cons_of_mem p inside)
    obtain ⟨d, encoded, is⟩ := encodeChar_ascii low
    rw [encode_cons, encoded, List.singleton_append]
    cases shown with
    | nil => exact iff_of_false (by simp) (by simp)
    | @ascii b c bytes text _ same rest =>
      have first : d = b ↔ p = c := by rw [← UInt8.toNat_inj, ← Char.toNat_inj, is, same]
      rw [List.cons_prefix_cons, List.cons_prefix_cons, first, rest.prefix_iff later]
    | @beyond part c bytes text started high far rest =>
      obtain ⟨b, part, rfl⟩ := List.exists_cons_of_ne_nil started
      have := high b List.mem_cons_self
      rw [List.cons_append, List.cons_prefix_cons, List.cons_prefix_cons]
      refine iff_of_false ?_ ?_
      · rintro ⟨rfl, -⟩
        omega
      · rintro ⟨rfl, -⟩
        omega
termination_by pattern.length

theorem infix_append_iff_of_foreign {α : Type} {pattern part : List α} (nonempty : pattern ≠ [])
    (foreign : ∀ x ∈ part, x ∉ pattern) (rest : List α) : pattern <:+: part ++ rest ↔ pattern <:+: rest := by
  obtain ⟨y, behind, rfl⟩ := List.exists_cons_of_ne_nil nonempty
  induction part with
  | nil => rfl
  | cons x part ih =>
    have unstarted : ¬ y :: behind <+: x :: (part ++ rest) := by
      intro starts
      exact foreign x List.mem_cons_self ((List.cons_prefix_cons.1 starts).1 ▸ List.mem_cons_self)
    rw [List.cons_append, List.infix_cons_iff, or_iff_right unstarted]
    exact ih fun z inside => foreign z (List.mem_cons_of_mem x inside)

/-- An ASCII pattern stands in the bytes where it stands in the text that they are shown as. -/
theorem ShownAs.infix_iff {bytes : Bytes} {text pattern : Text} (shown : ShownAs bytes text) (ascii : Ascii pattern)
    (nonempty : pattern ≠ []) : encode pattern <:+: bytes ↔ pattern <:+: text := by
  have written : encode pattern ≠ [] := by
    obtain ⟨p, rest, rfl⟩ := List.exists_cons_of_ne_nil nonempty
    simp [String.utf8EncodeChar_ne_nil]
  induction shown with
  | nil => rw [List.infix_nil, List.infix_nil, iff_false_intro written, iff_false_intro nonempty]
  | ascii low same rest ih =>
    rw [List.infix_cons_iff, List.infix_cons_iff, (ShownAs.ascii low same rest).prefix_iff ascii]
    exact or_congr_right ih
  | @beyond part c bytes text started high far rest ih =>
    have apart : ∀ b ∈ part, b ∉ encode pattern := by
      intro b inside member
      have := high b inside
      have := lt_of_mem_encode ascii b member
      omega
    have unlike : ∀ d ∈ [c], d ∉ pattern := by
      intro d is inside
      obtain rfl := List.mem_singleton.1 is
      have := ascii d inside
      omega
    rw [infix_append_iff_of_foreign written apart, ← List.singleton_append, infix_append_iff_of_foreign nonempty unlike]
    exact ih

/-- An ASCII pattern that stands in the bytes of a text stands in the text. -/
theorem infix_of_encode_infix {pattern text : Text} (ascii : Ascii pattern) (nonempty : pattern ≠ [])
    (stands : encode pattern <:+: encode text) : pattern <:+: text :=
  ((shownAs_encode text).infix_iff ascii nonempty).1 stands

end PlainHeader.Utf8
