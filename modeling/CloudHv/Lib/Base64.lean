import Mathlib.Data.List.Basic

/-!
# Base64 — bytes as text

The standard alphabet of RFC 4648 with padding: three bytes are four characters, and one or two bytes at the end are
filled up.  A text is decoded only if its padding is complete and the bits that are filled in are zero, so that
`decode` takes exactly what `encode` gives (`decode_encode`).
-/

namespace Base64

/-- The character of a value below 64. -/
def sextet (n : ℕ) : Char :=
  if n < 26 then Char.ofNat (65 + n)
  else if n < 52 then Char.ofNat (71 + n)
  else if n < 62 then Char.ofNat (n - 4)
  else if n = 62 then '+' else '/'

def value (c : Char) : Option ℕ :=
  if 'A' ≤ c ∧ c ≤ 'Z' then some (c.toNat - 65)
  else if 'a' ≤ c ∧ c ≤ 'z' then some (c.toNat - 71)
  else if c.isDigit then some (c.toNat + 4)
  else if c = '+' then some 62 else if c = '/' then some 63 else none

def encode : List UInt8 → List Char
  | [] => []
  | [a] => [sextet (a.toNat / 4), sextet (a.toNat % 4 * 16), '=', '=']
  | [a, b] => [sextet (a.toNat / 4), sextet (a.toNat % 4 * 16 + b.toNat / 16), sextet (b.toNat % 16 * 4), '=']
  | a :: b :: c :: bs => sextet (a.toNat / 4) :: sextet (a.toNat % 4 * 16 + b.toNat / 16) ::
      sextet (b.toNat % 16 * 4 + c.toNat / 64) :: sextet (c.toNat % 64) :: encode bs

def decode : List Char → Option (List UInt8)
  | [] => some []
  | w :: x :: y :: z :: cs =>
    match value w, value x, value y, value z with
    | some m, some n, some p, some q => (decode cs).map fun bs =>
      UInt8.ofNat (m * 4 + n / 16) :: UInt8.ofNat (n % 16 * 16 + p / 4) :: UInt8.ofNat (p % 4 * 64 + q) :: bs
    | some m, some n, some p, none =>
      if z = '=' ∧ cs = [] ∧ p % 4 = 0 then
        some [UInt8.ofNat (m * 4 + n / 16), UInt8.ofNat (n % 16 * 16 + p / 4)]
      else none
    | some m, some n, none, none =>
      if y = '=' ∧ z = '=' ∧ cs = [] ∧ n % 16 = 0 then some [UInt8.ofNat (m * 4 + n / 16)] else none
    | _, _, _, _ => none
  | _ => none

theorem value_sextet {n : ℕ} (h : n < 64) : value (sextet n) = some n := by
  have hall : ∀ m < 64, value (sextet m) = some m := by decide
  exact hall n h

theorem value_pad : value '=' = none := by decide

theorem ofNat_eq {a : UInt8} {n : ℕ} (h : n = a.toNat) : UInt8.ofNat n = a := by
  rw [h, UInt8.ofNat_toNat]

/-- **What was encoded is decoded.** -/
theorem decode_encode (bs : List UInt8) : decode (encode bs) = some bs := by
  induction bs using encode.induct with
  | case1 => rfl
  | case2 a =>
    have ha := a.toNat_lt
    rw [encode, decode, value_sextet (by omega), value_sextet (by omega), value_pad]
    have hzero : a.toNat % 4 * 16 % 16 = 0 := by omega
    have hone : UInt8.ofNat (a.toNat / 4 * 4 + a.toNat % 4 * 16 / 16) = a := ofNat_eq (by omega)
    show (if _ ∧ _ ∧ _ ∧ _ then some [UInt8.ofNat (a.toNat / 4 * 4 + a.toNat % 4 * 16 / 16)] else none) = _
    rw [if_pos ⟨rfl, rfl, rfl, hzero⟩, hone]
  | case3 a b =>
    have ha := a.toNat_lt
    have hb := b.toNat_lt
    rw [encode, decode, value_sextet (by omega), value_sextet (by omega), value_sextet (by omega), value_pad]
    have hzero : b.toNat % 16 * 4 % 4 = 0 := by omega
    have hone : UInt8.ofNat (a.toNat / 4 * 4 + (a.toNat % 4 * 16 + b.toNat / 16) / 16) = a := ofNat_eq (by omega)
    have htwo : UInt8.ofNat ((a.toNat % 4 * 16 + b.toNat / 16) % 16 * 16 + b.toNat % 16 * 4 / 4) = b := ofNat_eq (by omega)
    show (if _ ∧ _ ∧ _ then some [UInt8.ofNat (a.toNat / 4 * 4 + (a.toNat % 4 * 16 + b.toNat / 16) / 16),
      UInt8.ofNat ((a.toNat % 4 * 16 + b.toNat / 16) % 16 * 16 + b.toNat % 16 * 4 / 4)] else none) = _
    rw [if_pos ⟨rfl, rfl, hzero⟩, hone, htwo]
  | case4 a b c bs ih =>
    have ha := a.toNat_lt
    have hb := b.toNat_lt
    have hc := c.toNat_lt
    rw [encode, decode, value_sextet (by omega), value_sextet (by omega), value_sextet (by omega),
      value_sextet (by omega)]
    have hone : UInt8.ofNat (a.toNat / 4 * 4 + (a.toNat % 4 * 16 + b.toNat / 16) / 16) = a := ofNat_eq (by omega)
    have htwo : UInt8.ofNat ((a.toNat % 4 * 16 + b.toNat / 16) % 16 * 16 + (b.toNat % 16 * 4 + c.toNat / 64) / 4) = b :=
      ofNat_eq (by omega)
    have hthree : UInt8.ofNat ((b.toNat % 16 * 4 + c.toNat / 64) % 4 * 64 + c.toNat % 64) = c := ofNat_eq (by omega)
    show (decode (encode bs)).map _ = _
    rw [ih, Option.map_some, hone, htwo, hthree]

/-- `base64::engine::general_purpose::STANDARD`. -/
def text (bs : List UInt8) : String := String.ofList (encode bs)

def ofText (s : String) : Option (List UInt8) := decode s.toList

theorem ofText_text (bs : List UInt8) : ofText (text bs) = some bs := by
  rw [ofText, text, String.toList_ofList, decode_encode]

/-- A library that encodes and decodes, as far as its callers rely on it. -/
structure Codec where
  encode : List UInt8 → String
  decode : String → Option (List UInt8)
  decode_encode : ∀ bs, decode (encode bs) = some bs
  encode_nil : encode [] = ""

namespace Codec

theorem encode_eq_empty (B : Codec) {bs : List UInt8} : B.encode bs = "" ↔ bs = [] := by
  constructor
  · intro h
    have hbs := B.decode_encode bs
    rw [h, ← B.encode_nil, B.decode_encode] at hbs
    exact (Option.some.inj hbs).symm
  · rintro rfl
    exact B.encode_nil

def standard : Codec := ⟨text, ofText, ofText_text, rfl⟩

end Codec

example : text [0x7b, 0x7d] = "e30=" := by decide

end Base64
