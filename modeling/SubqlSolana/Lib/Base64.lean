import Mathlib.Tactic.Common

/-!
# Base64

Three bytes are four digits of six bits; one or two bytes left over are two or three digits, filled
with zero bits, and the text is padded. Reading stops at the first padding character, ignores every
other character that is no digit, and takes the digits of the URL alphabet, too. Of a character it
reads the low bytes of its UTF-16 code units, so that `Ł`, U+0141, is read as an `A`.

The text of a list of bytes is read back as that list (`decode_encode`).
-/

set_option autoImplicit false

namespace SubqlSolana.Lib.Base64

def alphabet : List Char :=
  "ABCDEFGHIJKLMNOPQRSTUVWXYZabcdefghijklmnopqrstuvwxyz0123456789+/".toList

def digit (n : Nat) : Char := alphabet.getD n 'A'

def value (c : Char) : Option Nat :=
  if 'A' ≤ c ∧ c ≤ 'Z' then some (c.toNat - 'A'.toNat)
  else if 'a' ≤ c ∧ c ≤ 'z' then some (c.toNat - 'a'.toNat + 26)
  else if '0' ≤ c ∧ c ≤ '9' then some (c.toNat - '0'.toNat + 52)
  else if c = '+' ∨ c = '-' then some 62
  else if c = '/' ∨ c = '_' then some 63
  else none

theorem value_digit : ∀ n < 64, value (digit n) = some n := by decide +kernel

/-! ## Digits -/

/-- The digits of a list of bytes. -/
def sextets : List UInt8 → List Nat
  | [] => []
  | [a] => [a.toNat / 4, a.toNat % 4 * 16]
  | [a, b] => [a.toNat / 4, a.toNat % 4 * 16 + b.toNat / 16, b.toNat % 16 * 4]
  | a :: b :: c :: rest =>
    a.toNat / 4 :: (a.toNat % 4 * 16 + b.toNat / 16) :: (b.toNat % 16 * 4 + c.toNat / 64) ::
      c.toNat % 64 :: sextets rest

/-- The bytes of a list of digits. A single digit is not enough for a byte. -/
def octets : List Nat → List UInt8
  | x :: y :: z :: w :: rest =>
    UInt8.ofNat (x * 4 + y / 16) :: UInt8.ofNat (y % 16 * 16 + z / 4) ::
      UInt8.ofNat (z % 4 * 64 + w) :: octets rest
  | [x, y, z] => [UInt8.ofNat (x * 4 + y / 16), UInt8.ofNat (y % 16 * 16 + z / 4)]
  | [x, y] => [UInt8.ofNat (x * 4 + y / 16)]
  | _ => []

theorem sextets_lt (bytes : List UInt8) : ∀ n ∈ sextets bytes, n < 64 := by
  fun_induction sextets bytes with
  | case1 => simp
  | case2 a =>
    have ha := a.toNat_lt
    simp
    omega
  | case3 a b =>
    have ha := a.toNat_lt
    have hb := b.toNat_lt
    simp
    omega
  | case4 a b c rest ih =>
    have ha := a.toNat_lt
    have hb := b.toNat_lt
    have hc := c.toNat_lt
    simp only [List.mem_cons, forall_eq_or_imp]
    exact ⟨by omega, by omega, by omega, by omega, ih⟩

/-- A byte is put together of what it was taken apart into. -/
theorem ofNat_eq {byte : UInt8} {n : Nat} (h : n = byte.toNat) : UInt8.ofNat n = byte := by
  rw [h]
  exact UInt8.ofNat_toNat

theorem octets_sextets (bytes : List UInt8) : octets (sextets bytes) = bytes := by
  fun_induction sextets bytes with
  | case1 => rfl
  | case2 a =>
    have ha := a.toNat_lt
    have hfirst : UInt8.ofNat (a.toNat / 4 * 4 + a.toNat % 4 * 16 / 16) = a := ofNat_eq (by omega)
    simp only [octets, hfirst]
  | case3 a b =>
    have ha := a.toNat_lt
    have hb := b.toNat_lt
    have hfirst : UInt8.ofNat (a.toNat / 4 * 4 + (a.toNat % 4 * 16 + b.toNat / 16) / 16) = a :=
      ofNat_eq (by omega)
    have hsecond : UInt8.ofNat
        ((a.toNat % 4 * 16 + b.toNat / 16) % 16 * 16 + b.toNat % 16 * 4 / 4) = b :=
      ofNat_eq (by omega)
    simp only [octets, hfirst, hsecond]
  | case4 a b c rest ih =>
    have ha := a.toNat_lt
    have hb := b.toNat_lt
    have hc := c.toNat_lt
    have hfirst : UInt8.ofNat (a.toNat / 4 * 4 + (a.toNat % 4 * 16 + b.toNat / 16) / 16) = a :=
      ofNat_eq (by omega)
    have hsecond : UInt8.ofNat ((a.toNat % 4 * 16 + b.toNat / 16) % 16 * 16 +
        (b.toNat % 16 * 4 + c.toNat / 64) / 4) = b := ofNat_eq (by omega)
    have hthird : UInt8.ofNat ((b.toNat % 16 * 4 + c.toNat / 64) % 4 * 64 + c.toNat % 64) = c :=
      ofNat_eq (by omega)
    simp only [octets, hfirst, hsecond, hthird, ih]

/-! ## Texts -/

def padding (bytes : List UInt8) : List Char := List.replicate ((3 - bytes.length % 3) % 3) '='

/-- `buffer.toString('base64')`. -/
def encode (bytes : List UInt8) : String :=
  String.ofList ((sextets bytes).map digit ++ padding bytes)

/-- The low bytes of the UTF-16 code units of a character. Above U+FFFF these are two surrogates. -/
def lowBytes (c : Char) : List Char :=
  if c.toNat < 0x10000 then [Char.ofNat (c.toNat % 256)]
  else [Char.ofNat ((c.toNat - 0x10000) / 1024 % 256), Char.ofNat (c.toNat % 256)]

/-- The characters that are read: up to the first padding character. -/
def read (text : List Char) : List Char := (text.flatMap lowBytes).takeWhile (· ≠ '=')

/-- `Buffer.from(text, 'base64')`. -/
def decode (text : String) : List UInt8 := octets ((read text.toList).filterMap value)

theorem lowBytes_digit : ∀ n < 64, lowBytes (digit n) = [digit n] ∧ digit n ≠ '=' := by
  decide +kernel

/-- Of digits and the padding behind them, the digits are read. -/
theorem read_digits {digits : List Nat} (h : ∀ n ∈ digits, n < 64) (padded : Nat) :
    read (digits.map digit ++ List.replicate padded '=') = digits.map digit := by
  induction digits with
  | nil =>
    cases padded with
    | zero => rfl
    | succ padded => rfl
  | cons n digits ih =>
    obtain ⟨hlow, hne⟩ := lowBytes_digit n (h n List.mem_cons_self)
    have hrest := ih fun m hm => h m (List.mem_cons_of_mem _ hm)
    unfold read at hrest ⊢
    rw [List.map_cons, List.cons_append, List.flatMap_cons, hlow, List.singleton_append,
      List.takeWhile_cons_of_pos (by simpa using hne), hrest]

theorem filterMap_value_digit {digits : List Nat} (h : ∀ n ∈ digits, n < 64) :
    (digits.map digit).filterMap value = digits := by
  induction digits with
  | nil => rfl
  | cons n digits ih =>
    rw [List.map_cons, List.filterMap_cons_some (value_digit n (h n List.mem_cons_self))]
    rw [ih fun m hm => h m (List.mem_cons_of_mem _ hm)]

/-- **What was written is read back.** -/
theorem decode_encode (bytes : List UInt8) : decode (encode bytes) = bytes := by
  have hdigits := sextets_lt bytes
  unfold decode encode padding
  rw [String.toList_ofList, read_digits hdigits, filterMap_value_digit hdigits, octets_sextets]

-- it is read up to the padding, and `Ł` as an `A`
example : decode "QQ==QUJD" = [65] := by decide
example : decode "QUŁ" = [65, 64] := by decide

end SubqlSolana.Lib.Base64
