import CloudHv.Common.Socket
import CloudHv.Daemon.Lifecycle

/-!
# Gateway — the gateway of a pod without a default route

`infer_gateway` takes the first host address of the pod's subnet.  Its 32-bit arithmetic is that of a debug build,
where an overflow panics, or of a release build, where it wraps and a shift takes its amount modulo 32.
-/

namespace CloudHv.Daemon

open Netlink (Ipv4Addr)

inductive Build where
  | debug | release
  deriving DecidableEq

/-- The value of an operation that overflows, and the panic of a debug build. -/
def Build.overflowing (b : Build) (what : String) (wrapped : UInt32) : Except String UInt32 :=
  match b with
  | .debug => .error ("attempt to " ++ what ++ " with overflow")
  | .release => .ok wrapped

/-- `UInt32` shifts by the amount modulo 32, as a release build does. -/
def Build.shl (b : Build) (x n : UInt32) : Except String UInt32 :=
  if n.toNat < 32 then .ok (x <<< n) else b.overflowing "shift left" (x <<< n)

def Build.sub (b : Build) (x y : UInt32) : Except String UInt32 :=
  if y.toNat ≤ x.toNat then .ok (x - y) else b.overflowing "subtract" (x - y)

def Build.add (b : Build) (x y : UInt32) : Except String UInt32 :=
  if x.toNat + y.toNat < 2 ^ 32 then .ok (x + y) else b.overflowing "add" (x + y)

/-! ### Addresses -/

def Ipv4Addr.toNat (ip : Ipv4Addr) : ℕ := ip.a.toNat * 2 ^ 24 + ip.b.toNat * 2 ^ 16 + ip.c.toNat * 2 ^ 8 + ip.d.toNat

def Ipv4Addr.ofNat (n : ℕ) : Ipv4Addr :=
  ⟨UInt8.ofNat (n / 2 ^ 24), UInt8.ofNat (n / 2 ^ 16), UInt8.ofNat (n / 2 ^ 8), UInt8.ofNat n⟩

def decimal (ds : List Char) : ℕ := ds.foldl (fun n c => n * 10 + (c.toNat - 48)) 0

/-- A decimal octet: one to three digits, without a leading zero. -/
def parseOctet (ds : List Char) : Option UInt8 :=
  if ds.isEmpty || 3 < ds.length || !ds.all isDigit || (ds.head? = some '0' && 1 < ds.length) then none
  else if decimal ds < 256 then some (UInt8.ofNat (decimal ds)) else none

/-- `str::parse::<Ipv4Addr>`. -/
def parseIpv4 (s : String) : Option Ipv4Addr :=
  match (s.toList.splitOn '.').map parseOctet with
  | [some a, some b, some c, some d] => some ⟨a, b, c, d⟩
  | _ => none

/-- `infer_gateway`. -/
def inferGateway (b : Build) (ipCidr : String) : Except String (Option String) :=
  let parts := splitCidr ipCidr
  match parts.head?.bind parseIpv4, (parts[1]?).bind parseU32 with
  | some ip, some len =>
    if len > 30 then .ok none
    else do
      let bit ← b.shl 1 (UInt32.ofNat (32 - len))
      let low ← b.sub bit 1
      let network := UInt32.ofNat (Ipv4Addr.toNat ip) &&& ~~~ low
      let gateway ← b.add network 1
      .ok (some (Ipv4Addr.ofNat gateway.toNat).text)
  | _, _ => .ok none

/-- The address with the low `32 - p` bits cleared, plus one. -/
def firstHost (ip : Ipv4Addr) (p : ℕ) : Ipv4Addr :=
  Ipv4Addr.ofNat (Ipv4Addr.toNat ip / 2 ^ (32 - p) * 2 ^ (32 - p) + 1)

/-! ### Reading the text back -/

theorem splitSlash_eq (l : List Char) : splitSlash l = l.splitOn '/' := by
  induction l with
  | nil => rfl
  | cons c l ih =>
    rw [splitSlash, List.splitOn_cons_eq_if_modifyHead, ← ih]
    by_cases hc : c = '/'
    · simp [hc]
    · have hne : (c == '/') = false := beq_eq_false_iff_ne.mpr hc
      rw [if_neg hc, hne]
      cases hl : splitSlash l with
      | nil => rw [ih] at hl; exact absurd hl (List.splitOn_ne_nil _ _)
      | cons w ws => rfl

theorem isDigit_of_mem {n : ℕ} {c : Char} (h : c ∈ Nat.toDigits 10 n) : isDigit c = true := by
  have hd : c.isDigit = true := Nat.isDigit_of_mem_toDigits (by decide) (by decide) h
  rw [Char.isDigit, Bool.and_eq_true, decide_eq_true_eq, decide_eq_true_eq] at hd
  exact decide_eq_true hd

theorem not_mem_toDigits {n : ℕ} {c : Char} (h : isDigit c = false) : c ∉ Nat.toDigits 10 n := by
  intro hmem
  rw [isDigit_of_mem hmem] at h
  cases h

theorem decimal_toDigits (n : ℕ) : decimal (Nat.toDigits 10 n) = n := by
  have hfold : decimal (Nat.toDigits 10 n) = Nat.ofDigitChars 10 (Nat.toDigits 10 n) 0 := by
    unfold decimal Nat.ofDigitChars
    congr 1
    funext n c
    rw [Nat.mul_comm]
    rfl
  rw [hfold, Nat.ofDigitChars_ten_toDigits]

theorem parseU32_toString (p : ℕ) : parseU32 (toString p) = if p < 2 ^ 32 then some p else none := by
  have hlist : (toString p).toList = Nat.toDigits 10 p := by simp
  have hplus : '+' ∉ Nat.toDigits 10 p := not_mem_toDigits (by decide)
  have hall : (Nat.toDigits 10 p).all isDigit = true := List.all_eq_true.mpr fun c hc => isDigit_of_mem hc
  have hne : (Nat.toDigits 10 p).isEmpty = false := List.isEmpty_eq_false_iff.mpr Nat.toDigits_ne_nil
  have hnum : (Nat.toDigits 10 p).foldl (fun n c => n * 10 + (c.toNat - 48)) 0 = p := decimal_toDigits p
  unfold parseU32
  rw [hlist]
  split
  · next ds hcons => exact absurd (hcons ▸ List.mem_cons_self) hplus
  · simp only [hne, hall, hnum, Bool.not_true, Bool.or_self, Bool.false_eq_true, if_false]

theorem parseOctet_toDigits (o : UInt8) : parseOctet (Nat.toDigits 10 o.toNat) = some o := by
  have hall : ∀ n < 256, parseOctet (Nat.toDigits 10 n) = some (UInt8.ofNat n) := by decide +kernel
  have ho : parseOctet (Nat.toDigits 10 o.toNat) = some (UInt8.ofNat o.toNat) := hall o.toNat o.toNat_lt
  rw [ho, UInt8.ofNat_toNat]

theorem text_toList (ip : Ipv4Addr) : ip.text.toList = Nat.toDigits 10 ip.a.toNat ++ '.' ::
    (Nat.toDigits 10 ip.b.toNat ++ '.' :: (Nat.toDigits 10 ip.c.toNat ++ '.' :: Nat.toDigits 10 ip.d.toNat)) := by
  simp [Ipv4Addr.text]

theorem parseIpv4_text (ip : Ipv4Addr) : parseIpv4 ip.text = some ip := by
  have hdot : ∀ n, '.' ∉ Nat.toDigits 10 n := fun n => not_mem_toDigits (by decide)
  unfold parseIpv4
  rw [text_toList, List.splitOn_append_cons_self_of_not_mem (hdot _),
    List.splitOn_append_cons_self_of_not_mem (hdot _), List.splitOn_append_cons_self_of_not_mem (hdot _),
    List.splitOn_eq_singleton (hdot _)]
  simp only [List.map_cons, List.map_nil, parseOctet_toDigits]

theorem splitCidr_text (ip : Ipv4Addr) (p : ℕ) : splitCidr (ip.text ++ "/" ++ toString p) = [ip.text, toString p] := by
  have hslash : ∀ n, '/' ∉ Nat.toDigits 10 n := fun n => not_mem_toDigits (by decide)
  have hip : '/' ∉ ip.text.toList := by
    simp [text_toList, hslash]
  have hp : '/' ∉ (toString p).toList := by
    simp [hslash]
  have hlist : (ip.text ++ "/" ++ toString p).toList = ip.text.toList ++ '/' :: (toString p).toList := by simp
  rw [splitCidr, splitSlash_eq, hlist, List.splitOn_append_cons_self_of_not_mem hip, List.splitOn_eq_singleton hp,
    List.map_cons, List.map_cons, String.ofList_toList, String.ofList_toList]
  rfl

/-! ### The arithmetic -/

theorem toNat_bit {k : ℕ} (hk : k < 32) : ((1 : UInt32) <<< UInt32.ofNat k).toNat = 2 ^ k := by
  have hmod : (UInt32.ofNat k).toNat % 32 = k := by
    rw [UInt32.toNat_ofNat', Nat.mod_eq_of_lt (show k < 2 ^ 32 by omega), Nat.mod_eq_of_lt hk]
  have hlt : 2 ^ k < 2 ^ 32 := Nat.pow_lt_pow_right (by omega) hk
  rw [UInt32.toNat_shiftLeft, hmod, UInt32.toNat_one, Nat.one_shiftLeft, Nat.mod_eq_of_lt hlt]

/-- The mask clears the low bits. -/
theorem toNat_mask (x low : UInt32) {k : ℕ} (hk : k < 32) (hlow : low.toNat = 2 ^ k - 1) :
    (x &&& ~~~ low).toNat = x.toNat / 2 ^ k * 2 ^ k := by
  have hlt : 2 ^ k - 1 < 2 ^ 32 := by
    have : 2 ^ k < 2 ^ 32 := Nat.pow_lt_pow_right (by omega) hk
    omega
  have hnot : (~~~ low).toNat = 2 ^ 32 - (2 ^ k - 1 + 1) := by
    rw [UInt32.toNat_not, hlow]
    show 2 ^ 32 - 1 - (2 ^ k - 1) = 2 ^ 32 - (2 ^ k - 1 + 1)
    omega
  refine Nat.eq_of_testBit_eq fun i => ?_
  rw [UInt32.toNat_and, Nat.testBit_and, hnot, Nat.testBit_two_pow_sub_succ hlt, Nat.testBit_two_pow_sub_one,
    Nat.testBit_mul_two_pow, Nat.testBit_div_two_pow]
  by_cases hi : i < 32
  · by_cases hik : i < k
    · have hki : ¬ k ≤ i := by omega
      simp [hi, hik, hki]
    · have hki : k ≤ i := by omega
      simp [hi, hik, hki, Nat.sub_add_cancel hki]
  · -- an address has no bits from 32 on
    have hx : x.toNat.testBit i = false :=
      Nat.testBit_lt_two_pow (lt_of_lt_of_le x.toNat_lt (Nat.pow_le_pow_right (by omega) (by omega)))
    by_cases hki : k ≤ i
    · simp [hi, hx, Nat.sub_add_cancel hki]
    · simp [hi, hki]

theorem toNat_lt (ip : Ipv4Addr) : Ipv4Addr.toNat ip < 2 ^ 32 := by
  have ha : ip.a.toNat < 256 := ip.a.toNat_lt
  have hb : ip.b.toNat < 256 := ip.b.toNat_lt
  have hc : ip.c.toNat < 256 := ip.c.toNat_lt
  have hd : ip.d.toNat < 256 := ip.d.toNat_lt
  unfold Ipv4Addr.toNat
  omega

theorem inferGateway_text (b : Build) (ip : Ipv4Addr) (p : ℕ) : inferGateway b (ip.text ++ "/" ++ toString p) =
    if p ≤ 30 then do
      let bit ← b.shl 1 (UInt32.ofNat (32 - p))
      let low ← b.sub bit 1
      let gateway ← b.add (UInt32.ofNat (Ipv4Addr.toNat ip) &&& ~~~ low) 1
      .ok (some (Ipv4Addr.ofNat gateway.toNat).text)
    else .ok none := by
  unfold inferGateway
  simp only [splitCidr_text, List.head?_cons, Option.bind_some, parseIpv4_text, List.getElem?_cons_succ,
    List.getElem?_cons_zero, parseU32_toString]
  by_cases hp : p < 2 ^ 32
  · rw [if_pos hp]
    by_cases h30 : p ≤ 30
    · simp only [if_pos h30, if_neg (show ¬ p > 30 by omega)]
    · simp only [if_neg h30, if_pos (show p > 30 by omega)]
  · rw [if_neg hp, if_neg (by omega)]

theorem shl_ok (b : Build) {k : ℕ} (hk : k < 32) : b.shl 1 (UInt32.ofNat k) = .ok (1 <<< UInt32.ofNat k) := by
  refine if_pos ?_
  rw [UInt32.toNat_ofNat', Nat.mod_eq_of_lt (by omega)]
  exact hk

/-- There is room for the addition below the next subnet. -/
theorem cleared_lt {n p : ℕ} (hn : n < 2 ^ 32) (h1 : 1 ≤ p) (h30 : p ≤ 30) :
    n / 2 ^ (32 - p) * 2 ^ (32 - p) + 1 < 2 ^ 32 := by
  have hsplit : 2 ^ p * 2 ^ (32 - p) = 2 ^ 32 := by rw [← Nat.pow_add, show p + (32 - p) = 32 by omega]
  have hq : n / 2 ^ (32 - p) < 2 ^ p := Nat.div_lt_of_lt_mul (by rw [Nat.mul_comm, hsplit]; exact hn)
  have hstep : (n / 2 ^ (32 - p) + 1) * 2 ^ (32 - p) ≤ 2 ^ 32 := hsplit ▸ Nat.mul_le_mul_right _ hq
  have htwo : 2 ≤ 2 ^ (32 - p) := Nat.le_self_pow (by omega) 2
  rw [Nat.add_mul, Nat.one_mul] at hstep
  omega

theorem steps_ok {b : Build} {k x bit low gateway : UInt32} (hshl : b.shl 1 k = .ok bit) (hsub : b.sub bit 1 = .ok low)
    (hadd : b.add (x &&& ~~~ low) 1 = .ok gateway) : (do
      let bit ← b.shl 1 k
      let low ← b.sub bit 1
      let gateway ← b.add (x &&& ~~~ low) 1
      .ok (some (Ipv4Addr.ofNat gateway.toNat).text) : Except String (Option String)) =
    .ok (some (Ipv4Addr.ofNat gateway.toNat).text) := by
  simp only [hshl, hsub, hadd, bind, Except.bind]

/-- From prefix length 1 on nothing overflows. -/
theorem inferGateway_firstHost (b : Build) (ip : Ipv4Addr) {p : ℕ} (h1 : 1 ≤ p) (h30 : p ≤ 30) :
    inferGateway b (ip.text ++ "/" ++ toString p) = .ok (some (firstHost ip p).text) := by
  have hk : 32 - p < 32 := by omega
  obtain ⟨bit, hshl, hbit⟩ : ∃ bit, b.shl 1 (UInt32.ofNat (32 - p)) = .ok bit ∧ bit.toNat = 2 ^ (32 - p) :=
    ⟨_, shl_ok b hk, toNat_bit hk⟩
  have hone : (1 : UInt32).toNat ≤ bit.toNat := by
    rw [hbit, UInt32.toNat_one]
    exact Nat.one_le_two_pow
  have hlow : (bit - 1).toNat = 2 ^ (32 - p) - 1 := by
    rw [UInt32.toNat_sub_of_le _ _ (UInt32.le_iff_toNat_le.mpr hone), hbit, UInt32.toNat_one]
  have hnet : (UInt32.ofNat (Ipv4Addr.toNat ip) &&& ~~~ (bit - 1)).toNat =
      Ipv4Addr.toNat ip / 2 ^ (32 - p) * 2 ^ (32 - p) := by
    rw [toNat_mask _ _ hk hlow, UInt32.toNat_ofNat', Nat.mod_eq_of_lt (toNat_lt ip)]
  have hroom : Ipv4Addr.toNat ip / 2 ^ (32 - p) * 2 ^ (32 - p) + 1 < 2 ^ 32 := cleared_lt (toNat_lt ip) h1 h30
  have hadd : (UInt32.ofNat (Ipv4Addr.toNat ip) &&& ~~~ (bit - 1)).toNat + (1 : UInt32).toNat < 2 ^ 32 := by
    rw [hnet, UInt32.toNat_one]
    exact hroom
  have hgw : ((UInt32.ofNat (Ipv4Addr.toNat ip) &&& ~~~ (bit - 1)) + 1).toNat =
      Ipv4Addr.toNat ip / 2 ^ (32 - p) * 2 ^ (32 - p) + 1 := by
    rw [UInt32.toNat_add, hnet, UInt32.toNat_one, Nat.mod_eq_of_lt hroom]
  rw [inferGateway_text, if_pos h30, steps_ok hshl (if_pos hone) (if_pos hadd), hgw, firstHost]

/-- With prefix length 0 the shift is by 32. -/
theorem inferGateway_zero (ip : Ipv4Addr) : inferGateway .debug (ip.text ++ "/" ++ toString 0) =
    .error "attempt to shift left with overflow" := by
  have hshl : Build.debug.shl 1 (UInt32.ofNat (32 - 0)) = .error "attempt to shift left with overflow" := by decide
  rw [inferGateway_text, if_pos (Nat.zero_le 30), hshl]
  rfl

/-- **The first host of the subnet is inferred from every prefix length but 0**, where the shift overflows. -/
theorem infer_gateway_iff (ip : Ipv4Addr) (p : ℕ) :
    (∀ b, inferGateway b (ip.text ++ "/" ++ toString p) = .ok (if p ≤ 30 then some (firstHost ip p).text else none)) ↔
      p ≠ 0 := by
  constructor
  · rintro h rfl
    have hdebug := h .debug
    rw [inferGateway_zero] at hdebug
    cases hdebug
  · intro hp b
    by_cases h30 : p ≤ 30
    · rw [if_pos h30, inferGateway_firstHost b ip (by omega) h30]
    · rw [if_neg h30, inferGateway_text, if_neg h30]

/-- `10.0.0.2/0` in a debug build. -/
theorem infer_gateway_overflows : ¬ ∀ (ip : Ipv4Addr) (p : ℕ) (b : Build),
    inferGateway b (ip.text ++ "/" ++ toString p) = .ok (if p ≤ 30 then some (firstHost ip p).text else none) := by
  intro h
  have hzero := h ⟨10, 0, 0, 2⟩ 0 .debug
  rw [inferGateway_zero] at hzero
  cases hzero

end CloudHv.Daemon
