import Companions.Json.Text
/-!
What stands between two quotes is scanned whole, however its bytes are escaped. Strings survive
being written: every byte is written in one of three ways, and in each of them a decoder gives it
back.
-/
namespace Companions.Json

theorem hexValue_hexDigit : ∀ n < 16, hexValue (hexDigit n) = some n := by decide

theorem encodeScalar_control : ∀ n < 0x20, encodeScalar n = [UInt8.ofNat n] := by decide

theorem hexFour_control {b : UInt8} (h : b < 0x20) :
    hexFour 0x30 0x30 (hexDigit (b.toNat / 16)) (hexDigit (b.toNat % 16)) = some b.toNat := by
  have small : b.toNat < 0x20 := h
  have zero : hexValue 0x30 = some 0 := by decide
  have high := hexValue_hexDigit (b.toNat / 16) (by omega)
  have low := hexValue_hexDigit (b.toNat % 16) (by omega)
  rw [hexFour, zero, high, low]
  simp only [Option.bind_eq_bind, Option.bind_some, Option.pure_def, Option.some.injEq]
  omega

/-- A byte is written with a letter of its own, by its number, or as it is. -/
theorem escapeByte_cases (b : UInt8) :
    (∃ e, escapeByte b = [0x5C, e] ∧ e ≠ 0x75 ∧ shortEscapes.lookup e = some b) ∨
    (b < 0x20 ∧ escapeByte b =
      [0x5C, 0x75, 0x30, 0x30, hexDigit (b.toNat / 16), hexDigit (b.toNat % 16)]) ∨
    (escapeByte b = [b] ∧ b ≠ 0x22 ∧ b ≠ 0x5C ∧ ¬ b < 0x20) := by
  unfold escapeByte
  -- the seven bytes with a letter
  iterate 7
    split
    · next h =>
        subst h
        exact .inl ⟨_, rfl, by decide, by decide⟩
  split
  · next control => exact .inr (.inl ⟨control, rfl⟩)
  · next quote backslash _ _ _ _ _ control =>
      exact .inr (.inr ⟨rfl, quote, backslash, control⟩)

/-- What may stand between two quotes: bytes as they are, escapes with a letter, and escapes with
four hexadecimal digits. -/
inductive Raw : Bytes → Prop where
  | nil : Raw []
  | plain {b : UInt8} {raw : Bytes} (quote : b ≠ 0x22) (backslash : b ≠ 0x5C)
      (control : ¬ b < 0x20) (rest : Raw raw) : Raw (b :: raw)
  | short {e : UInt8} {raw : Bytes} (known : (shortEscapes.lookup e).isSome) (rest : Raw raw) :
      Raw (0x5C :: e :: raw)
  | unicode {h₁ h₂ h₃ h₄ : UInt8} {raw : Bytes} (digits : (hexFour h₁ h₂ h₃ h₄).isSome)
      (rest : Raw raw) : Raw (0x5C :: 0x75 :: h₁ :: h₂ :: h₃ :: h₄ :: raw)

theorem scanText?_raw {raw : Bytes} (h : Raw raw) (r : Bytes) :
    scanText? (raw ++ 0x22 :: r) = some (raw, r) := by
  induction h with
  | nil =>
      rw [scanText?.eq_def]
      rfl
  | plain quote backslash control _ ih =>
      rw [List.cons_append, scanText?.eq_def]
      simp [quote, backslash, control, ih]
  | @short e raw known _ ih =>
      have other : e ≠ 0x75 := by
        rintro rfl
        exact absurd known (by decide)
      rw [List.cons_append, List.cons_append, scanText?.eq_def]
      simp [other, known, ih]
  | unicode digits _ ih =>
      simp only [List.cons_append]
      rw [scanText?.eq_def]
      simp [digits, ih]

/-- What is scanned may stand there. -/
theorem raw_of_scanText? {bs raw r : Bytes} (h : scanText? bs = some (raw, r)) :
    Raw raw ∧ bs = raw ++ 0x22 :: r := by
  fun_induction scanText? bs generalizing raw r with
  | case2 rest =>
      cases h
      exact ⟨.nil, rfl⟩
  | case4 h₁ h₂ h₃ h₄ rest digits _ ih =>
      obtain ⟨⟨t, r'⟩, scanned, eq⟩ := Option.map_eq_some_iff.mp h
      cases eq
      obtain ⟨formed, rfl⟩ := ih scanned
      exact ⟨.unicode digits formed, rfl⟩
  | case7 e rest _ known _ ih =>
      obtain ⟨⟨t, r'⟩, scanned, eq⟩ := Option.map_eq_some_iff.mp h
      cases eq
      obtain ⟨formed, rfl⟩ := ih scanned
      exact ⟨.short known formed, rfl⟩
  | case10 b rest quote backslash control ih =>
      obtain ⟨⟨t, r'⟩, scanned, eq⟩ := Option.map_eq_some_iff.mp h
      cases eq
      obtain ⟨formed, rfl⟩ := ih scanned
      exact ⟨.plain quote backslash control formed, rfl⟩
  | case1 | case3 | case5 | case6 | case8 | case9 => cases h

theorem raw_escape (bs : Bytes) : Raw (escape bs) := by
  induction bs with
  | nil => exact .nil
  | cons b bs ih =>
      rw [escape, List.flatMap_cons]
      change Raw (escapeByte b ++ escape bs)
      obtain ⟨e, eq, -, short⟩ | ⟨control, eq⟩ | ⟨eq, quote, backslash, plain⟩ :=
        escapeByte_cases b
      · rw [eq]
        exact .short (by rw [short]; rfl) ih
      · rw [eq]
        exact .unicode (by rw [hexFour_control control]; rfl) ih
      · rw [eq]
        exact .plain quote backslash plain ih

theorem unescape?_escapeByte (b : UInt8) (r : Bytes) :
    unescape? (escapeByte b ++ r) = (unescape? r).map (b :: ·) := by
  obtain ⟨e, eq, other, short⟩ | ⟨control, eq⟩ | ⟨eq, quote, backslash, plain⟩ :=
    escapeByte_cases b
  · rw [eq, unescape?.eq_def]
    simp [other, short]
  · have small : b.toNat < 0x20 := control
    rw [eq, unescape?.eq_def]
    simp only [List.cons_append, List.nil_append, if_true, hexFour_control control]
    rw [if_neg (by omega), if_neg (by omega), encodeScalar_control b.toNat small]
    simp
  · rw [eq, List.singleton_append, unescape?.eq_def]
    simp [backslash]

theorem unescape?_escape (bs : Bytes) : unescape? (escape bs) = some bs := by
  induction bs with
  | nil => rfl
  | cons b bs ih =>
      rw [escape, List.flatMap_cons, unescape?_escapeByte]
      change (unescape? (escape bs)).map _ = _
      rw [ih]
      rfl

@[simp] theorem decode?_encode (s : String) : decode? (encode s) = some s := by
  rw [decode?, encode, unescape?_escape, Option.bind_some, ofUtf8?_utf8]

end Companions.Json
