import CloudHv.Lib.Walk
import Mathlib.Data.List.Basic
import Mathlib.Tactic.Ring

/-!
# Wire — numbers, buffers and attributes in bytes

Numbers of a fixed width in either byte order (`bytes`, `value`), writes into a buffer that must lie inside it
(`write`), and attributes: a 16-bit length that counts itself, a 16-bit type and the payload, padded to a
multiple of four bytes.  `decode` reads a payload that attributes fill without a gap, and `decode_encode` is
its round trip.  `attrs` reads any bytes, up to the first attribute that is too short or runs past the end, and
`loop_attrs` is the rule for a loop that does.
-/

namespace Wire

/-! ### Numbers -/

inductive ByteOrder where
  | little
  | big
  deriving DecidableEq

/-- The `w` bytes of `n`, the lowest first. -/
def low : ℕ → ℕ → List UInt8
  | 0, _ => []
  | w + 1, n => UInt8.ofNat n :: low w (n / 256)

/-- The number whose bytes these are, the lowest first. -/
def ofLow : List UInt8 → ℕ
  | [] => 0
  | b :: bs => b.toNat + 256 * ofLow bs

@[simp] theorem length_low (w n : ℕ) : (low w n).length = w := by
  induction w generalizing n with
  | zero => rfl
  | succ w ih => rw [low, List.length_cons, ih]

theorem ofLow_low (w n : ℕ) : ofLow (low w n) = n % 256 ^ w := by
  induction w generalizing n with
  | zero => rw [pow_zero, Nat.mod_one]; rfl
  | succ w ih =>
    have hbyte : (UInt8.ofNat n).toNat = n % 256 := UInt8.toNat_ofNat'
    rw [low, ofLow, ih, hbyte, pow_succ', Nat.mod_mul]

def bytes (o : ByteOrder) (w n : ℕ) : List UInt8 :=
  match o with
  | .little => low w n
  | .big => (low w n).reverse

def value (o : ByteOrder) (bs : List UInt8) : ℕ :=
  match o with
  | .little => ofLow bs
  | .big => ofLow bs.reverse

section Numbers

variable {o : ByteOrder} {w n : ℕ}

@[simp] theorem length_bytes : (bytes o w n).length = w := by
  cases o with
  | little => exact length_low w n
  | big => rw [bytes, List.length_reverse, length_low]

theorem value_bytes : value o (bytes o w n) = n % 256 ^ w := by
  cases o with
  | little => exact ofLow_low w n
  | big => rw [bytes, value, List.reverse_reverse, ofLow_low]

theorem value_bytes_of_lt (h : n < 256 ^ w) : value o (bytes o w n) = n := by
  rw [value_bytes, Nat.mod_eq_of_lt h]

/-- The first number of a buffer. -/
theorem value_take (h : n < 256 ^ w) (rest : List UInt8) : value o ((bytes o w n ++ rest).take w) = n := by
  rw [List.take_left' length_bytes, value_bytes_of_lt h]

end Numbers

/-! ### Buffers -/

def zeros (n : ℕ) : List UInt8 := List.replicate n 0

@[simp] theorem length_zeros (n : ℕ) : (zeros n).length = n := List.length_replicate

@[simp] theorem zeros_zero : zeros 0 = [] := rfl

theorem zeros_add (m n : ℕ) : zeros (m + n) = zeros m ++ zeros n := List.replicate_add m n 0

theorem bytes_zero (o : ByteOrder) (w : ℕ) : bytes o w 0 = zeros w := by
  have hlow : low w 0 = zeros w := by
    induction w with
    | zero => rfl
    | succ w ih =>
      rw [low, Nat.zero_div, ih]
      rfl
  cases o with
  | little => exact hlow
  | big => rw [bytes, hlow, zeros, List.reverse_replicate]

/-- Overwrite the bytes at `pos`; it is an error if they are not all in the buffer. -/
def write (buf : List UInt8) (pos : ℕ) (bs : List UInt8) : Option (List UInt8) :=
  if pos + bs.length ≤ buf.length then some (buf.take pos ++ bs ++ buf.drop (pos + bs.length)) else none

/-- The write is behind the first part of the buffer. -/
theorem write_skip {pre buf new : List UInt8} {pos : ℕ} (h : pre.length ≤ pos) :
    write (pre ++ buf) pos new = (write buf (pos - pre.length) new).map (pre ++ ·) := by
  obtain ⟨k, rfl⟩ := Nat.exists_eq_add_of_le h
  have hk : pre.length + k - pre.length = k := Nat.add_sub_cancel_left _ _
  have hfit : pre.length + k + new.length ≤ (pre ++ buf).length ↔ k + new.length ≤ buf.length := by
    rw [List.length_append]
    omega
  have htake : (pre ++ buf).take (pre.length + k) = pre ++ buf.take k := List.take_length_add_append k
  have hdrop : (pre ++ buf).drop (pre.length + k + new.length) = buf.drop (k + new.length) := by
    rw [Nat.add_assoc]
    exact List.drop_length_add_append _
  rw [write, write, hk, htake, hdrop]
  by_cases hle : k + new.length ≤ buf.length
  · rw [if_pos (hfit.mpr hle), if_pos hle, Option.map_some]
    simp only [List.append_assoc]
  · rw [if_neg (fun h => hle (hfit.mp h)), if_neg hle]
    rfl

theorem write_cons {b : UInt8} {buf new : List UInt8} {pos : ℕ} (h : 0 < pos) :
    write (b :: buf) pos new = (write buf (pos - 1) new).map (b :: ·) := by
  have hpre : [b].length ≤ pos := h
  exact write_skip hpre

/-- The write replaces the first part of the buffer. -/
theorem write_here {old new rest : List UInt8} (h : old.length = new.length) :
    write (old ++ rest) 0 new = some (new ++ rest) := by
  have hfit : 0 + new.length ≤ (old ++ rest).length := by
    rw [List.length_append]
    omega
  rw [write, if_pos hfit, Nat.zero_add, List.drop_left' h, List.take_zero]
  rfl

theorem write_all {old new : List UInt8} (h : old.length = new.length) : write old 0 new = some new := by
  have hw : write (old ++ []) 0 new = some (new ++ []) := write_here h
  rwa [List.append_nil, List.append_nil] at hw

/-- Change the part of the buffer from `pos` on. -/
def onTail (buf : List UInt8) (pos : ℕ) (f : List UInt8 → Option (List UInt8)) : Option (List UInt8) :=
  if pos ≤ buf.length then (f (buf.drop pos)).map (buf.take pos ++ ·) else none

theorem onTail_skip {pre buf : List UInt8} {pos : ℕ} {f : List UInt8 → Option (List UInt8)}
    (h : pre.length ≤ pos) : onTail (pre ++ buf) pos f = (onTail buf (pos - pre.length) f).map (pre ++ ·) := by
  obtain ⟨k, rfl⟩ := Nat.exists_eq_add_of_le h
  have hk : pre.length + k - pre.length = k := Nat.add_sub_cancel_left _ _
  have hfit : pre.length + k ≤ (pre ++ buf).length ↔ k ≤ buf.length := by
    rw [List.length_append]
    omega
  have htake : (pre ++ buf).take (pre.length + k) = pre ++ buf.take k := List.take_length_add_append k
  have hdrop : (pre ++ buf).drop (pre.length + k) = buf.drop k := List.drop_length_add_append k
  rw [onTail, onTail, hk, htake, hdrop]
  by_cases hle : k ≤ buf.length
  · rw [if_pos (hfit.mpr hle), if_pos hle, Option.map_map]
    refine congrArg (Option.map · (f (buf.drop k))) (funext fun t => ?_)
    exact List.append_assoc _ _ _
  · rw [if_neg (fun h => hle (hfit.mp h)), if_neg hle]
    rfl

theorem onTail_cons {b : UInt8} {buf : List UInt8} {pos : ℕ} {f : List UInt8 → Option (List UInt8)} (h : 0 < pos) :
    onTail (b :: buf) pos f = (onTail buf (pos - 1) f).map (b :: ·) := by
  have hpre : [b].length ≤ pos := h
  exact onTail_skip hpre

theorem onTail_zero {buf : List UInt8} {f : List UInt8 → Option (List UInt8)} : onTail buf 0 f = f buf := by
  rw [onTail, if_pos (Nat.zero_le _), List.drop_zero, List.take_zero]
  exact Option.map_id'

/-! ### Attributes -/

/-- The next multiple of four. -/
def align4 (n : ℕ) : ℕ := (n + 3) / 4 * 4

theorem le_align4 (n : ℕ) : n ≤ align4 n := by
  unfold align4
  omega

structure Attr where
  ty : ℕ
  payload : List UInt8
  deriving DecidableEq

namespace Attr

/-- The length of the attribute, without the padding. -/
def len (a : Attr) : ℕ := 4 + a.payload.length

def encode (o : ByteOrder) (a : Attr) : List UInt8 :=
  bytes o 2 a.len ++ (bytes o 2 a.ty ++ (a.payload ++ zeros (align4 a.len - a.len)))

/-- Length and type fit in 16 bits. -/
def Fits (a : Attr) : Prop := a.len < 256 ^ 2 ∧ a.ty < 256 ^ 2

theorem length_encode (o : ByteOrder) (a : Attr) : (a.encode o).length = align4 a.len := by
  have hle := le_align4 a.len
  simp only [encode, List.length_append, length_bytes, length_zeros]
  unfold len at *
  omega

end Attr

def encode (o : ByteOrder) (as : List Attr) : List UInt8 := as.flatMap (Attr.encode o)

theorem encode_one (o : ByteOrder) (a : Attr) : encode o [a] = a.encode o := List.append_nil _

theorem encode_two (o : ByteOrder) (a b : Attr) : encode o [a, b] = a.encode o ++ b.encode o :=
  congrArg (a.encode o ++ ·) (encode_one o b)

/-- Attributes end on a multiple of four. -/
theorem Attr.encode_aligned (o : ByteOrder) (a : Attr) : (a.encode o).length % 4 = 0 := by
  rw [a.length_encode o, align4]
  omega

theorem encode_aligned (o : ByteOrder) (as : List Attr) : (encode o as).length % 4 = 0 := by
  induction as with
  | nil => rfl
  | cons a as ih =>
    have ha := a.encode_aligned o
    rw [encode, List.flatMap_cons, List.length_append]
    rw [encode] at ih
    omega

/-- Read at most `k` attributes.  They have to fill the bytes, each with its padding. -/
def decodeN (o : ByteOrder) : ℕ → List UInt8 → Option (List Attr)
  | _, [] => some []
  | 0, _ :: _ => none
  | k + 1, b :: bs =>
    let buf := b :: bs
    let len := value o (buf.take 2)
    if 4 ≤ len ∧ align4 len ≤ buf.length then
      (decodeN o k (buf.drop (align4 len))).map
        (⟨value o ((buf.drop 2).take 2), (buf.drop 4).take (len - 4)⟩ :: ·)
    else none

def decode (o : ByteOrder) (buf : List UInt8) : Option (List Attr) := decodeN o buf.length buf

section Decode

variable {o : ByteOrder}

/-- One attribute, and what comes after it. -/
theorem decodeN_attr {a : Attr} (ha : a.Fits) (rest : List UInt8) (k : ℕ) :
    decodeN o (k + 1) (a.encode o ++ rest) = (decodeN o k rest).map (a :: ·) := by
  have hlen : value o ((a.encode o ++ rest).take 2) = a.len := by
    rw [Attr.encode, List.append_assoc]
    exact value_take ha.1 _
  have hty : value o (((a.encode o ++ rest).drop 2).take 2) = a.ty := by
    rw [Attr.encode, List.append_assoc, List.drop_left' length_bytes, List.append_assoc]
    exact value_take ha.2 _
  have hpay : ((a.encode o ++ rest).drop 4).take (a.len - 4) = a.payload := by
    have hfour : (bytes o 2 a.len ++ bytes o 2 a.ty).length = 4 := by
      rw [List.length_append, length_bytes, length_bytes]
    have hn : a.len - 4 = a.payload.length := by
      unfold Attr.len
      omega
    have hsplit : a.encode o ++ rest = (bytes o 2 a.len ++ bytes o 2 a.ty) ++
        (a.payload ++ (zeros (align4 a.len - a.len) ++ rest)) := by
      simp only [Attr.encode, List.append_assoc]
    rw [hsplit, List.drop_left' hfour, List.take_left' hn.symm]
  have hdrop : (a.encode o ++ rest).drop (align4 a.len) = rest := List.drop_left' (a.length_encode o)
  have hfit : 4 ≤ a.len ∧ align4 a.len ≤ (a.encode o ++ rest).length := by
    rw [List.length_append, a.length_encode o]
    unfold Attr.len
    omega
  have hpos : 0 < (a.encode o ++ rest).length := by
    have := le_align4 a.len
    omega
  cases hb : a.encode o ++ rest with
  | nil => rw [hb] at hpos; cases hpos
  | cons b bs =>
    rw [hb] at hlen hty hpay hdrop hfit
    simp only [decodeN, hlen, if_pos hfit, hty, hpay, hdrop]

/-- **Round trip.** -/
theorem decode_encode {as : List Attr} (h : ∀ a ∈ as, a.Fits) : decode o (encode o as) = some as := by
  have hk : ∀ (as : List Attr) (k : ℕ), (∀ a ∈ as, a.Fits) → (encode o as).length ≤ k →
      decodeN o k (encode o as) = some as := by
    intro as
    induction as with
    | nil => intro k _ _; cases k <;> rfl
    | cons a as ih =>
      intro k hfits hle
      have hsplit : encode o (a :: as) = a.encode o ++ encode o as := rfl
      rw [hsplit, List.length_append, a.length_encode o] at hle
      have hpos := le_align4 a.len
      have hfour : 4 ≤ a.len := Nat.le_add_right 4 _
      cases k with
      | zero => omega
      | succ k =>
        rw [hsplit, decodeN_attr (hfits a List.mem_cons_self),
          ih k (fun b hb => hfits b (List.mem_cons_of_mem a hb)) (by omega)]
        rfl
  exact hk as _ h (le_refl _)

end Decode

/-! ### Walks over attributes -/

namespace Attr

/-- The attribute without its padding. -/
def bare (o : ByteOrder) (a : Attr) : List UInt8 := bytes o 2 a.len ++ (bytes o 2 a.ty ++ a.payload)

theorem length_bare (o : ByteOrder) (a : Attr) : (a.bare o).length = a.len := by
  rw [bare, List.length_append, List.length_append, length_bytes, length_bytes, len]
  omega

theorem encode_eq (o : ByteOrder) (a : Attr) : a.encode o = a.bare o ++ zeros (align4 a.len - a.len) := by
  simp only [encode, bare, List.append_assoc]

/-- The attribute at the front of the bytes, unless its length is below 4 or past the end. -/
def atFront (o : ByteOrder) (b : List UInt8) : Option Attr :=
  if 4 ≤ b.length ∧ 4 ≤ value o (b.take 2) ∧ value o (b.take 2) ≤ b.length then
    some ⟨value o ((b.drop 2).take 2), (b.drop 4).take (value o (b.take 2) - 4)⟩
  else none

theorem atFront_bare {o : ByteOrder} {a : Attr} (ha : a.Fits) (rest : List UInt8) :
    atFront o (a.bare o ++ rest) = some a := by
  have hlen : value o ((a.bare o ++ rest).take 2) = a.len := by
    rw [bare, List.append_assoc]
    exact value_take ha.1 _
  have hty : value o (((a.bare o ++ rest).drop 2).take 2) = a.ty := by
    rw [bare, List.append_assoc, List.drop_left' length_bytes, List.append_assoc]
    exact value_take ha.2 _
  have hpay : ((a.bare o ++ rest).drop 4).take (a.len - 4) = a.payload := by
    have hfour : (bytes o 2 a.len ++ bytes o 2 a.ty).length = 4 := by
      rw [List.length_append, length_bytes, length_bytes]
    have hn : a.payload.length = a.len - 4 := by
      unfold len
      omega
    have hsplit : a.bare o ++ rest = (bytes o 2 a.len ++ bytes o 2 a.ty) ++ (a.payload ++ rest) := by
      simp only [bare, List.append_assoc]
    rw [hsplit, List.drop_left' hfour, List.take_left' hn]
  have hfit : 4 ≤ (a.bare o ++ rest).length ∧ 4 ≤ a.len ∧ a.len ≤ (a.bare o ++ rest).length := by
    rw [List.length_append, a.length_bare o]
    unfold len
    omega
  rw [atFront, hlen, hty, hpay, if_pos hfit]

end Attr

/-- The attributes of the bytes from an offset on, and the offset behind them. -/
def attrsFrom (o : ByteOrder) (b : List UInt8) : (fuel : ℕ) → (off : ℕ) → List Attr × ℕ
  | 0, off => ([], off)
  | k + 1, off =>
    match Attr.atFront o (b.drop off) with
    | none => ([], off)
    | some a => (a :: (attrsFrom o b k (off + align4 a.len)).1, (attrsFrom o b k (off + align4 a.len)).2)

/-- The attributes of the bytes, up to the first that is too short or runs past the end. -/
def attrs (o : ByteOrder) (b : List UInt8) : List Attr := (attrsFrom o b b.length 0).1

/-- The offset of the first attribute that is too short or runs past the end. -/
def attrsEnd (o : ByteOrder) (b : List UInt8) : ℕ := (attrsFrom o b b.length 0).2

/-- From the first offset to the last there are these attributes, and then there is none. -/
inductive Attrs (o : ByteOrder) (b : List UInt8) : ℕ → List Attr → ℕ → Prop where
  | nil {off : ℕ} (h : Attr.atFront o (b.drop off) = none) : Attrs o b off [] off
  | cons {off stop : ℕ} {a : Attr} {as : List Attr} (h : Attr.atFront o (b.drop off) = some a)
      (hrest : Attrs o b (off + align4 a.len) as stop) : Attrs o b off (a :: as) stop

section Attrs

variable {o : ByteOrder} {b : List UInt8} {off stop : ℕ} {a : Attr} {as : List Attr}

theorem Attr.atFront_le (h : atFront o (b.drop off) = some a) : off + a.len ≤ b.length ∧
    value o ((b.drop off).take 2) = a.len := by
  unfold atFront at h
  split at h
  · next hc =>
    cases h
    rw [List.length_drop] at hc
    have hlen : (⟨value o (((b.drop off).drop 2).take 2),
        ((b.drop off).drop 4).take (value o ((b.drop off).take 2) - 4)⟩ : Attr).len =
          value o ((b.drop off).take 2) := by
      rw [len, List.length_take, List.length_drop, List.length_drop]
      omega
    rw [hlen]
    omega
  · cases h

theorem attrsFrom_attrs {k : ℕ} (hk : b.length ≤ off + k) :
    Attrs o b off (attrsFrom o b k off).1 (attrsFrom o b k off).2 := by
  induction k generalizing off with
  | zero =>
    have hnil : b.drop off = [] := List.drop_eq_nil_of_le hk
    refine .nil ?_
    rw [hnil]
    rfl
  | succ k ih =>
    rw [attrsFrom]
    cases hf : Attr.atFront o (b.drop off) with
    | none => exact .nil hf
    | some a =>
      have hpos : 4 ≤ a.len := Nat.le_add_right 4 _
      have hle := le_align4 a.len
      exact .cons hf (ih (by omega))

theorem attrs_spec (o : ByteOrder) (b : List UInt8) : Attrs o b 0 (attrs o b) (attrsEnd o b) :=
  attrsFrom_attrs (Nat.le_add_left _ 0)

theorem Attrs.unique (h : Attrs o b off as stop) {as' : List Attr} {stop' : ℕ} (h' : Attrs o b off as' stop') :
    as = as' ∧ stop = stop' := by
  induction h generalizing as' with
  | nil h =>
    cases h' with
    | nil _ => exact ⟨rfl, rfl⟩
    | cons hc _ => rw [h] at hc; cases hc
  | cons h _ ih =>
    cases h' with
    | nil hc => rw [h] at hc; cases hc
    | cons hc hrest =>
      rw [h] at hc
      cases hc
      obtain ⟨rfl, rfl⟩ := ih hrest
      exact ⟨rfl, rfl⟩

theorem Attrs.le (h : Attrs o b off as stop) : off + 4 * as.length ≤ stop := by
  induction h with
  | nil h => simp
  | @cons off stop a as h _ ih =>
    have hpos : 4 ≤ a.len := Nat.le_add_right 4 _
    have hle := le_align4 a.len
    rw [List.length_cons]
    omega

/-- The last attribute may lack its padding. -/
theorem Attrs.stop_le (h : Attrs o b off as stop) : as = [] ∧ stop = off ∨ stop < b.length + 4 := by
  induction h with
  | nil h => exact .inl ⟨rfl, rfl⟩
  | @cons off stop a as h hrest ih =>
    right
    have hin := (Attr.atFront_le h).1
    have hround : align4 a.len < a.len + 4 := by
      unfold align4
      omega
    rcases ih with ⟨-, rfl⟩ | hlt
    · omega
    · exact hlt

/-- There are no more attributes than bytes. -/
theorem Attrs.length_le (h : Attrs o b 0 as stop) : as.length ≤ b.length := by
  have hle := h.le
  rcases h.stop_le with ⟨rfl, -⟩ | hlt
  · exact Nat.zero_le _
  · omega

end Attrs

section Loops

open Walk Walk.Read

variable {o : ByteOrder} {b : List UInt8} {off stop j : ℕ} {as : List Attr} {σ ρ : Type} {s : σ}
  {body : ℕ × σ → Read (Turn (ℕ × σ) ρ)}

/-- A loop whose rounds visit the attributes, and that ends at the first that is too short or runs past the end, gives
what the visits give.  It indexes of this one the header only, and nothing behind it. -/
theorem loop_attrs {visit : Attr → σ → Turn σ ρ} {fin : σ → ρ} (has : Attrs o b off as stop)
    (hvisit : ∀ off s a, Attr.atFront o (b.drop off) = some a →
      ∃ spans, body (off, s) = done ((visit a s).at (off + align4 a.len)) spans ∧ ∀ y ∈ spans, y.stop ≤ off + a.len)
    (hend : ∀ s, ∃ spans, loop body j (stop, s) = done (some (fin s)) spans ∧
      ∀ y ∈ spans, y.stop ≤ b.length ∧ y.stop ≤ stop + 4) :
    ∃ k spans, k ≤ as.length + j ∧ loop body k (off, s) = done (some (sweep visit fin as s)) spans ∧
      ∀ y ∈ spans, y.stop ≤ b.length ∧ y.stop ≤ stop + 4 := by
  induction has generalizing s with
  | nil h =>
    obtain ⟨spans, hloop, hin⟩ := hend s
    exact ⟨j, spans, Nat.le_add_left _ _, hloop, hin⟩
  | @cons off stop a as h hrest ih =>
    obtain ⟨spans, hbody, hin⟩ := hvisit off s a h
    have hlen := (Attr.atFront_le h).1
    have hle := le_align4 a.len
    have hstop := hrest.le
    have hhere : ∀ y ∈ spans, y.stop ≤ b.length ∧ y.stop ≤ stop + 4 := by
      intro y hy
      have := hin y hy
      omega
    cases hv : visit a s with
    | stop r =>
      rw [hv] at hbody
      refine ⟨1, spans, ?_, ?_, hhere⟩
      · rw [List.length_cons]
        omega
      · rw [loop_stop hbody, sweep, hv]
    | next s' =>
      rw [hv] at hbody
      obtain ⟨k, more, hk, hloop, hmore⟩ := ih (s := s') hend
      refine ⟨k + 1, spans ++ more, ?_, ?_, List.forall_mem_append.mpr ⟨hhere, hmore⟩⟩
      · rw [List.length_cons]
        omega
      · rw [loop_next hbody, hloop, behind_done, sweep, hv]

/-- A loop whose visits go on comes to the end of the attributes. -/
theorem loop_reaches (has : Attrs o b off as stop)
    (hvisit : ∀ off s a, Attr.atFront o (b.drop off) = some a →
      ∃ s' spans, body (off, s) = done (.next (off + align4 a.len, s')) spans) :
    ∃ s' spans, ∀ k, loop body (as.length + k) (off, s) = (loop body k (stop, s')).behind spans := by
  induction has generalizing s with
  | nil h =>
    refine ⟨s, [], fun k => ?_⟩
    rw [behind_nil, List.length_nil, Nat.zero_add]
  | @cons off stop a as h hrest ih =>
    obtain ⟨s', spans, hbody⟩ := hvisit off s a h
    obtain ⟨s'', more, hloop⟩ := ih (s := s')
    refine ⟨s'', spans ++ more, fun k => ?_⟩
    have hk : (a :: as).length + k = as.length + k + 1 := by
      rw [List.length_cons]
      omega
    rw [hk, loop_next hbody, hloop, behind_behind]

end Loops

end Wire
