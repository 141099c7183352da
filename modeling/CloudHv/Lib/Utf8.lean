import Mathlib.Data.List.Basic
import Mathlib.Data.List.DropRight

/-!
# Utf8 — text in bytes

`encode` is the UTF-8 of a list of characters, and `decode` reads any bytes: a part of them that is no character becomes
one U+FFFD, as `String::from_utf8_lossy` has it.  What was encoded is read back (`decode_encode`), and what is read
without an U+FFFD was encoded (`encode_decode`).
-/

namespace Utf8

def encode (cs : List Char) : List UInt8 := cs.flatMap String.utf8EncodeChar

theorem encode_nil : encode [] = [] := rfl

theorem encode_cons (c : Char) (cs : List Char) : encode (c :: cs) = String.utf8EncodeChar c ++ encode cs := rfl

theorem encode_append (cs ds : List Char) : encode (cs ++ ds) = encode cs ++ encode ds := List.flatMap_append

/-- The bytes of a string. -/
theorem data_toByteArray (s : String) : s.toByteArray.data.toList = encode s.toList := by
  have harr : s.toByteArray = (encode s.toList).toByteArray := by
    have hs : (String.ofList s.toList).toByteArray = s.toList.utf8Encode := String.toByteArray_ofList
    rwa [String.ofList_toList] at hs
  rw [harr, List.toList_data_toByteArray]

/-- The character at the front of the bytes, if there is one. -/
def first (bs : List UInt8) : Option Char := (ByteArray.mk bs.toArray).utf8DecodeChar? 0

theorem mk_toArray (bs : List UInt8) : ByteArray.mk bs.toArray = bs.toByteArray := by
  apply ByteArray.ext
  rw [List.data_toByteArray]

theorem first_encode (c : Char) (bs : List UInt8) : first (String.utf8EncodeChar c ++ bs) = some c := by
  rw [first, mk_toArray, List.toByteArray_append]
  exact ByteArray.utf8DecodeChar?_utf8EncodeChar_append

theorem eq_of_first {bs : List UInt8} {c : Char} (h : first bs = some c) :
    bs = String.utf8EncodeChar c ++ bs.drop c.utf8Size := by
  rw [first, mk_toArray] at h
  obtain ⟨l, hl⟩ := ByteArray.exists_of_utf8DecodeChar?_eq_some h
  have hbs : bs = String.utf8EncodeChar c ++ l.data.toList := by
    have hlist : bs.toByteArray.data.toList = ((String.utf8EncodeChar c).toByteArray ++ l).data.toList := by rw [hl]
    simpa using hlist
  rw [hbs]
  have hlen : (String.utf8EncodeChar c).length = c.utf8Size := String.length_utf8EncodeChar c
  rw [List.drop_left' hlen]

def isTail (b : UInt8) : Bool := 0x80 ≤ b && b ≤ 0xBF

/-- The second byte goes with the first one, of three or four. -/
def goesOn (a b : UInt8) : Bool :=
  if a = 0xE0 then 0xA0 ≤ b && b ≤ 0xBF
  else if a = 0xED then 0x80 ≤ b && b ≤ 0x9F
  else if a = 0xF0 then 0x90 ≤ b && b ≤ 0xBF
  else if a = 0xF4 then 0x80 ≤ b && b ≤ 0x8F
  else 0xE1 ≤ a && a ≤ 0xF3 && isTail b

/-- The number of bytes at the front that begin a character and break off, or one. -/
def broken : List UInt8 → ℕ
  | a :: b :: rest =>
    if goesOn a b then if 0xF0 ≤ a && rest.head?.any isTail then 3 else 2
    else 1
  | _ => 1

def decodeN : ℕ → List UInt8 → List Char
  | 0, _ => []
  | _, [] => []
  | k + 1, b :: bs =>
    match first (b :: bs) with
    | some c => c :: decodeN k ((b :: bs).drop c.utf8Size)
    | none => '\uFFFD' :: decodeN k ((b :: bs).drop (broken (b :: bs)))

def decode (bs : List UInt8) : List Char := decodeN bs.length bs

theorem decodeN_encode (cs : List Char) {k : ℕ} (hk : (encode cs).length ≤ k) : decodeN k (encode cs) = cs := by
  induction cs generalizing k with
  | nil => cases k <;> rfl
  | cons c cs ih =>
    have hpos : 0 < (String.utf8EncodeChar c).length := by
      rw [String.length_utf8EncodeChar]
      exact c.utf8Size_pos
    rw [encode_cons, List.length_append] at hk
    obtain ⟨j, rfl⟩ : ∃ j, k = j + 1 := ⟨k - 1, by omega⟩
    have hfirst := first_encode c (encode cs)
    have hrest : (String.utf8EncodeChar c ++ encode cs).drop c.utf8Size = encode cs :=
      List.drop_left' (String.length_utf8EncodeChar c)
    rw [encode_cons]
    cases hb : String.utf8EncodeChar c ++ encode cs with
    | nil =>
      have hlen := congrArg List.length hb
      rw [List.length_append, List.length_nil] at hlen
      omega
    | cons b bs =>
      rw [hb] at hfirst hrest
      rw [decodeN, hfirst]
      dsimp only
      rw [hrest, ih (by omega)]

/-- **What was encoded is read back.** -/
theorem decode_encode (cs : List Char) : decode (encode cs) = cs := decodeN_encode cs (Nat.le_refl _)

theorem encode_decodeN {k : ℕ} {bs : List UInt8} (hk : bs.length ≤ k) (h : '\uFFFD' ∉ decodeN k bs) :
    encode (decodeN k bs) = bs := by
  induction k generalizing bs with
  | zero =>
    rw [List.length_eq_zero_iff.mp (Nat.le_zero.mp hk)]
    rfl
  | succ k ih =>
    cases bs with
    | nil => rfl
    | cons b bs =>
      rw [decodeN] at h ⊢
      cases hf : first (b :: bs) with
      | none =>
        rw [hf] at h
        exact absurd List.mem_cons_self h
      | some c =>
        rw [hf] at h
        dsimp only at h ⊢
        have heq := eq_of_first hf
        have hlen : ((b :: bs).drop c.utf8Size).length ≤ k := by
          have hpos := c.utf8Size_pos
          rw [List.length_drop]
          omega
        rw [encode_cons, ih hlen fun hmem => h (List.mem_cons_of_mem c hmem)]
        exact heq.symm

/-- **What is read without an U+FFFD was encoded.** -/
theorem encode_decode {bs : List UInt8} (h : '\uFFFD' ∉ decode bs) : encode (decode bs) = bs :=
  encode_decodeN (Nat.le_refl _) h

/-- The bytes of a text without an U+FFFD are the only ones that are read as the text. -/
theorem decode_eq_iff {bs : List UInt8} {cs : List Char} (h : '\uFFFD' ∉ cs) : decode bs = cs ↔ bs = encode cs := by
  constructor
  · rintro rfl
    exact (encode_decode h).symm
  · rintro rfl
    exact decode_encode cs

/-! ### Zeros at the end -/

theorem ofNat_ne_zero {n : ℕ} (hpos : 0 < n) (hlt : n < 256) : UInt8.ofNat n ≠ 0 := by
  intro h
  have hnat : (UInt8.ofNat n).toNat = n := UInt8.toNat_ofNat_of_lt' hlt
  rw [h] at hnat
  exact absurd hnat (Nat.ne_of_lt hpos)

/-- The last byte of a character other than NUL. -/
theorem encodeChar_last {c : Char} (h : c ≠ '\x00') : ∃ l x, String.utf8EncodeChar c = l ++ [x] ∧ x ≠ 0 := by
  have htail : UInt8.ofNat (c.val.toNat % 64 + 128) ≠ 0 := ofNat_ne_zero (by omega) (by omega)
  unfold String.utf8EncodeChar
  dsimp only
  by_cases h1 : c.val.toNat ≤ 127
  · have hpos : 0 < c.val.toNat := by
      rcases Nat.eq_zero_or_pos c.val.toNat with hz | hp
      · exact absurd (Char.ext (UInt32.toNat_inj.mp hz)) h
      · exact hp
    refine ⟨[], _, ?_, ofNat_ne_zero hpos (by omega)⟩
    rw [if_pos h1, List.nil_append]
  · rw [if_neg h1]
    by_cases h2 : c.val.toNat ≤ 2047
    · rw [if_pos h2]
      exact ⟨[_], _, rfl, htail⟩
    · rw [if_neg h2]
      by_cases h3 : c.val.toNat ≤ 65535
      · rw [if_pos h3]
        exact ⟨[_, _], _, rfl, htail⟩
      · rw [if_neg h3]
        exact ⟨[_, _, _], _, rfl, htail⟩

/-- The NULs at the end of a text are the zeros at the end of its bytes. -/
theorem encode_rdropWhile (cs : List Char) :
    encode (cs.rdropWhile (· = '\x00')) = (encode cs).rdropWhile (· = 0) := by
  induction cs using List.reverseRecOn with
  | nil => rfl
  | append_singleton cs c ih =>
    have hsplit : encode (cs ++ [c]) = encode cs ++ String.utf8EncodeChar c := by
      rw [encode_append, encode_cons, encode_nil, List.append_nil]
    by_cases hc : c = '\x00'
    · have hzero : String.utf8EncodeChar c = [0] := by
        rw [hc]
        rfl
      rw [List.rdropWhile_concat, if_pos (decide_eq_true hc), ih, hsplit, hzero, List.rdropWhile_concat,
        if_pos (decide_eq_true rfl)]
    · obtain ⟨l, x, hl, hx⟩ := encodeChar_last hc
      rw [List.rdropWhile_concat, if_neg (by simpa using hc), hsplit, hl, ← List.append_assoc, List.rdropWhile_concat,
        if_neg (by simpa using hx)]

/-! ### Bytes that are text -/

/-- `str::from_utf8`: bytes that are no text are refused. -/
def strict (bs : List UInt8) : Option (List Char) := if encode (decode bs) = bs then some (decode bs) else none

theorem strict_encode (cs : List Char) : strict (encode cs) = some cs := by
  rw [strict, decode_encode, if_pos rfl]

/-- An ASCII byte is there only as its own character. -/
theorem mem_encodeChar {c : Char} {b : UInt8} (hb : b.toNat < 128) (h : b ∈ String.utf8EncodeChar c) :
    c.toNat = b.toNat := by
  have hbig : ∀ n, 128 ≤ n → n < 256 → b ≠ UInt8.ofNat n := by
    rintro n hn hlt rfl
    have hnat : (UInt8.ofNat n).toNat = n := UInt8.toNat_ofNat_of_lt' hlt
    omega
  unfold String.utf8EncodeChar at h
  dsimp only at h
  split_ifs at h with h1 h2 h3
  · rw [List.mem_singleton.mp h, UInt8.toNat_ofNat_of_lt' (show c.val.toNat < 256 by omega)]
    rfl
  · simp only [List.mem_cons, List.not_mem_nil, or_false] at h
    rcases h with h | h
    · exact absurd h (hbig _ (by omega) (by omega))
    · exact absurd h (hbig _ (by omega) (by omega))
  · simp only [List.mem_cons, List.not_mem_nil, or_false] at h
    rcases h with h | h | h
    · exact absurd h (hbig _ (by omega) (by omega))
    · exact absurd h (hbig _ (by omega) (by omega))
    · exact absurd h (hbig _ (by omega) (by omega))
  · simp only [List.mem_cons, List.not_mem_nil, or_false] at h
    rcases h with h | h | h | h
    · exact absurd h (hbig _ (by omega) (by omega))
    · exact absurd h (hbig _ (by omega) (by omega))
    · exact absurd h (hbig _ (by omega) (by omega))
    · exact absurd h (hbig _ (by omega) (by omega))

theorem not_mem_encode {cs : List Char} {b : UInt8} (hb : b.toNat < 128) (h : ∀ c ∈ cs, c.toNat ≠ b.toNat) :
    b ∉ encode cs := by
  intro hmem
  obtain ⟨c, hc, hbc⟩ := List.mem_flatMap.mp hmem
  exact h c hc (mem_encodeChar hb hbc)

/-- `String::from_utf8_lossy`. -/
def lossy (bs : List UInt8) : String := String.ofList (decode bs)

example : decode [0x76, 0xE2, 0x82, 0x64, 0xFF] = ['v', '\uFFFD', 'd', '\uFFFD'] := by decide

end Utf8
