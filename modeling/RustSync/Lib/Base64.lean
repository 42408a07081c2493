/-
Base64

Three bytes are four digits of six bits each, in the URL-safe alphabet and
without padding. One or two bytes that are left are two or three digits, whose
last bits are zero: the decoder refuses others, as it refuses a single digit
and characters of no digit. What is encoded decodes to itself
(`base64Decode_encode`).

Key definitions: `base64Encode`, `base64Decode`.
-/
import Mathlib.Data.List.Basic
import Mathlib.Tactic.Common

namespace RustSync

/-- A digit of the URL-safe base64 alphabet. -/
def base64Char (n : ℕ) : Char :=
  if n < 26 then Char.ofNat (n + 65)
  else if n < 52 then Char.ofNat (n - 26 + 97)
  else if n < 62 then Char.ofNat (n - 52 + 48)
  else if n = 62 then '-'
  else '_'

/-- What a digit stands for. -/
def base64Value (c : Char) : Option ℕ :=
  if 'A' ≤ c ∧ c ≤ 'Z' then some (c.toNat - 65)
  else if 'a' ≤ c ∧ c ≤ 'z' then some (c.toNat - 97 + 26)
  else if '0' ≤ c ∧ c ≤ '9' then some (c.toNat - 48 + 52)
  else if c = '-' then some 62
  else if c = '_' then some 63
  else none

/-- `URL_SAFE_NO_PAD.encode`. -/
def base64Encode : List UInt8 → List Char
  | [] => []
  | [a] => [base64Char (a.toNat / 4), base64Char (a.toNat % 4 * 16)]
  | [a, b] =>
    [base64Char (a.toNat / 4), base64Char (a.toNat % 4 * 16 + b.toNat / 16),
      base64Char (b.toNat % 16 * 4)]
  | a :: b :: c :: rest =>
    base64Char (a.toNat / 4) :: base64Char (a.toNat % 4 * 16 + b.toNat / 16) ::
      base64Char (b.toNat % 16 * 4 + c.toNat / 64) :: base64Char (c.toNat % 64) :: base64Encode rest

/-- `URL_SAFE_NO_PAD.decode`. -/
def base64Decode : List Char → Option (List UInt8)
  | [] => some []
  | [_] => none
  | [w, x] => do
    let w ← base64Value w
    let x ← base64Value x
    if x % 16 = 0 then some [UInt8.ofNat (w * 4 + x / 16)] else none
  | [w, x, y] => do
    let w ← base64Value w
    let x ← base64Value x
    let y ← base64Value y
    if y % 4 = 0 then some [UInt8.ofNat (w * 4 + x / 16), UInt8.ofNat (x % 16 * 16 + y / 4)] else none
  | w :: x :: y :: z :: rest => do
    let w ← base64Value w
    let x ← base64Value x
    let y ← base64Value y
    let z ← base64Value z
    let bytes ← base64Decode rest
    return UInt8.ofNat (w * 4 + x / 16) :: UInt8.ofNat (x % 16 * 16 + y / 4) :: UInt8.ofNat (y % 4 * 64 + z) :: bytes

theorem base64Value_char {n : ℕ} (h : n < 64) : base64Value (base64Char n) = some n := by
  have hdigits : ∀ n < 64, base64Value (base64Char n) = some n := by decide
  exact hdigits n h

/-- A byte is put together from its parts. -/
theorem ofNat_eq_of_toNat {b : UInt8} {n : ℕ} (h : n = b.toNat) : UInt8.ofNat n = b := by
  rw [h, UInt8.ofNat_toNat]

/-- **What is encoded decodes to itself.** -/
theorem base64Decode_encode : ∀ bytes : List UInt8, base64Decode (base64Encode bytes) = some bytes
  | [] => rfl
  | [a] => by
    have ha := a.toNat_lt
    have hlow : a.toNat % 4 * 16 % 16 = 0 := by omega
    have hbyte : a.toNat / 4 * 4 + a.toNat % 4 * 16 / 16 = a.toNat := by omega
    rw [base64Encode, base64Decode, base64Value_char (by omega), base64Value_char (by omega)]
    simp only [Option.bind_eq_bind, Option.bind_some]
    rw [if_pos hlow, ofNat_eq_of_toNat hbyte]
  | [a, b] => by
    have ha := a.toNat_lt
    have hb := b.toNat_lt
    have hlow : b.toNat % 16 * 4 % 4 = 0 := by omega
    have hfirst : a.toNat / 4 * 4 + (a.toNat % 4 * 16 + b.toNat / 16) / 16 = a.toNat := by omega
    have hsecond : (a.toNat % 4 * 16 + b.toNat / 16) % 16 * 16 + b.toNat % 16 * 4 / 4 = b.toNat := by omega
    rw [base64Encode, base64Decode, base64Value_char (by omega), base64Value_char (by omega),
      base64Value_char (by omega)]
    simp only [Option.bind_eq_bind, Option.bind_some]
    rw [if_pos hlow, ofNat_eq_of_toNat hfirst, ofNat_eq_of_toNat hsecond]
  | a :: b :: c :: rest => by
    have ha := a.toNat_lt
    have hb := b.toNat_lt
    have hc := c.toNat_lt
    have hfirst : a.toNat / 4 * 4 + (a.toNat % 4 * 16 + b.toNat / 16) / 16 = a.toNat := by omega
    have hsecond : (a.toNat % 4 * 16 + b.toNat / 16) % 16 * 16 + (b.toNat % 16 * 4 + c.toNat / 64) / 4 = b.toNat := by
      omega
    have hthird : (b.toNat % 16 * 4 + c.toNat / 64) % 4 * 64 + c.toNat % 64 = c.toNat := by omega
    rw [base64Encode, base64Decode, base64Value_char (by omega), base64Value_char (by omega),
      base64Value_char (by omega), base64Value_char (by omega), base64Decode_encode rest]
    simp only [Option.bind_eq_bind, Option.bind_some]
    rw [ofNat_eq_of_toNat hfirst, ofNat_eq_of_toNat hsecond, ofNat_eq_of_toNat hthird]
    rfl

/-- Digits are letters, digits, `-` and `_`. -/
theorem mem_base64Encode : ∀ {bytes : List UInt8} {c : Char}, c ∈ base64Encode bytes → ∃ n < 64, c = base64Char n
  | [], _, h => by cases h
  | [a], c, h => by
    have ha := a.toNat_lt
    simp only [base64Encode, List.mem_cons, List.not_mem_nil, or_false] at h
    rcases h with rfl | rfl
    · exact ⟨_, by omega, rfl⟩
    · exact ⟨_, by omega, rfl⟩
  | [a, b], c, h => by
    have ha := a.toNat_lt
    have hb := b.toNat_lt
    simp only [base64Encode, List.mem_cons, List.not_mem_nil, or_false] at h
    rcases h with rfl | rfl | rfl
    · exact ⟨_, by omega, rfl⟩
    · exact ⟨_, by omega, rfl⟩
    · exact ⟨_, by omega, rfl⟩
  | a :: b :: d :: rest, c, h => by
    have ha := a.toNat_lt
    have hb := b.toNat_lt
    have hd := d.toNat_lt
    simp only [base64Encode, List.mem_cons] at h
    rcases h with rfl | rfl | rfl | rfl | h
    · exact ⟨_, by omega, rfl⟩
    · exact ⟨_, by omega, rfl⟩
    · exact ⟨_, by omega, rfl⟩
    · exact ⟨_, by omega, rfl⟩
    · exact mem_base64Encode h

end RustSync
