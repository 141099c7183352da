import CloudHv.Common.Socket
import CloudHv.Lib.Walk

/-!
# Dump — a dump, byte by byte

`Netlink::dump` of `crates/common/src/netlink.rs` receives datagrams into one buffer of 32768 bytes and goes from
message to message by their lengths.  The kernel's datagrams are cut into the messages they were packed from
(`dump_exact`).

The loop over a datagram reads the code of an NLMSG_ERROR without a look at what has been received, and a message of
length 0 holds it up.  The datagrams without either are the `Sound` ones (`scan_contained_iff`).
-/

namespace CloudHv.Netlink.Raw

open Wire Walk Walk.Read

section Code

variable (o : ByteOrder)

/-- `u16_at`, of a position in the buffer. -/
def u16At (b : List UInt8) (pos : ℕ) : ℕ := value o ((b.drop pos).take 2)

/-- `u16_at`. -/
def readU16 (b : List UInt8) (pos : ℕ) : Read ℕ := do
  let bs ← get b pos 2
  pure (value o bs)

/-- `u32_at`. -/
def readU32 (b : List UInt8) (pos : ℕ) : Read ℕ := do
  let bs ← get b pos 4
  pure (value o bs)

/-- `i32_at`. -/
def readI32 (b : List UInt8) (pos : ℕ) : Read Int32 := do
  let bs ← get b pos 4
  pure (.ofBitVec (BitVec.ofNat 32 (value o bs)))

/-- The buffer `r` and the number of bytes that were received into it. -/
structure Received where
  buf : List UInt8
  n : ℕ
  size : buf.length = 32768
  fits : n ≤ 32768

namespace Received

def bytes (v : Received) : List UInt8 := v.buf.take v.n

def empty : Received := ⟨zeros 32768, 0, length_zeros _, Nat.zero_le _⟩

/-- `recv_buf`.  What does not fit is cut off; behind the datagram the buffer is as it was. -/
def recv (v : Received) (d : List UInt8) : Received where
  buf := d.take 32768 ++ v.buf.drop (min 32768 d.length)
  n := min 32768 d.length
  size := by
    have hsize := v.size
    rw [List.length_append, List.length_take, List.length_drop]
    omega
  fits := Nat.min_le_left _ _

end Received

/-- How the loop over a datagram ends: `dump` receives the next one, or it returns. -/
inductive Scanned where
  | more (out : List (List UInt8))
  | over (r : Except NlError (List (List UInt8)))

/-- The code of an NLMSG_ERROR, and 0 for other messages. -/
def codeAt (v : Received) (off ty : ℕ) : Read Int32 := if ty = 2 then readI32 o v.buf (off + 16) else pure 0

/-- The messages with the one at the offset, if it has been received as a whole. -/
def push (v : Received) (off len : ℕ) (out : List (List UInt8)) : Read (List (List UInt8)) :=
  if 0 < len ∧ off + len ≤ v.n then do
    let m ← get v.buf off len
    pure (out ++ [m])
  else pure out

/-- A round of the loop over a datagram, from the offset and the messages so far.  The negation of the code wraps, as in a
release build. -/
def scanRound (strerror : Int32 → String) (v : Received) :
    ℕ × List (List UInt8) → Read (Turn (ℕ × List (List UInt8)) Scanned)
  | (off, out) =>
    if off + 16 ≤ v.n then do
      let len ← readU32 o v.buf off
      let ty ← readU16 o v.buf (off + 4)
      if ty = 3 then pure (.stop (.over (.ok out)))
      else do
        let e ← codeAt o v off ty
        if e ≠ 0 then pure (.stop (.over (.error ⟨"nl dump: " ++ strerror (-e), none⟩)))
        else do
          let out ← push v off len out
          pure (.next (off + align4 len, out))
    else pure (.stop (.more out))

def scan (strerror : Int32 → String) (v : Received) (fuel : ℕ) (out : List (List UInt8)) : Read (Option Scanned) :=
  loop (scanRound o strerror v) fuel (0, out)

/-- What becomes of a call: its result with what is left to receive, a `recv` with nothing to receive, an inner loop
that is not over with this fuel, or a panic. -/
inductive Outcome where
  | returned (r : Except NlError (List (List UInt8))) (rest : List (Except ℕ (List UInt8)))
  | waits
  | spins
  | panics

/-- The outer loop of `dump`, on what `recv` gives: datagrams, or errors. -/
def dumpFrom (strerror : Int32 → String) (fuel : ℕ) :
    List (Except ℕ (List UInt8)) → Received → List (List UInt8) → Outcome
  | [], _, _ => .waits
  | .error e :: rest, _, _ => .returned (.error ⟨"nl recv", some e⟩) rest
  | .ok d :: rest, v, out =>
    match scan o strerror (v.recv d) fuel out with
    | .panic => .panics
    | .done none _ => .spins
    | .done (some (.more out)) _ => dumpFrom strerror fuel rest (v.recv d) out
    | .done (some (.over r)) _ => .returned r rest

/-- `Netlink::dump`, after `send` with its result. -/
def dump (strerror : Int32 → String) (fuel : ℕ) (sent : Except ℕ Unit) (incoming : List (Except ℕ (List UInt8))) :
    Outcome :=
  match sent with
  | .error e => .returned (.error ⟨"nl send", some e⟩) incoming
  | .ok () => dumpFrom o strerror fuel incoming .empty []

end Code

/-! ### A round of the loop -/

section Round

variable {o : ByteOrder} {v : Received} {b : List UInt8} {pos off : ℕ} (strerror : Int32 → String)
  (out : List (List UInt8))

theorem readU16_eq (h : pos + 2 ≤ b.length) : readU16 o b pos = done (u16At o b pos) [⟨pos, 2⟩] := by
  rw [readU16, get_eq h, done_bind]
  rfl

theorem readU32_eq (h : pos + 4 ≤ b.length) : readU32 o b pos = done (u32At o b pos) [⟨pos, 4⟩] := by
  rw [readU32, get_eq h, done_bind]
  rfl

theorem readI32_eq (h : pos + 4 ≤ b.length) : readI32 o b pos = done (i32At o b pos) [⟨pos, 4⟩] := by
  rw [readI32, get_eq h, done_bind]
  rfl

theorem Received.length_bytes (v : Received) : v.bytes.length = v.n := by
  have hfits := v.fits
  rw [Received.bytes, List.length_take, v.size]
  omega

variable {d : List UInt8}

/-- What has been received from an offset on. -/
theorem length_rest (hd : v.bytes.drop off = d) : d.length = v.n - off := by
  rw [← hd, List.length_drop, v.length_bytes]

/-- The header of the message at an offset. -/
theorem read_header (hd : v.bytes.drop off = d) (h : 16 ≤ d.length) :
    readU32 o v.buf off = done (u32At o d 0) [⟨off, 4⟩] ∧
      readU16 o v.buf (off + 4) = done (u16At o d 4) [⟨off + 4, 2⟩] := by
  have hlen := length_rest hd
  have hsize := v.size
  have hfits := v.fits
  have hfour : (v.buf.drop off).take 4 = (d.drop 0).take 4 := part_received 0 hd (by omega)
  have htwo : (v.buf.drop (off + 4)).take 2 = (d.drop 4).take 2 := part_received 4 hd (by omega)
  rw [readU32_eq (by omega), readU16_eq (by omega), u32At, u16At, hfour, htwo]
  exact ⟨rfl, rfl⟩

theorem read_code (hd : v.bytes.drop off = d) (h : 20 ≤ d.length) :
    readI32 o v.buf (off + 16) = done (i32At o d 16) [⟨off + 16, 4⟩] := by
  have hlen := length_rest hd
  have hsize := v.size
  have hfits := v.fits
  have hfour : (v.buf.drop (off + 16)).take 4 = (d.drop 16).take 4 := part_received 16 hd (by omega)
  rw [readI32_eq (by omega), i32At, u32At, hfour]
  rfl

theorem round_short (hd : v.bytes.drop off = d) (h : d.length < 16) :
    scanRound o strerror v (off, out) = done (.stop (.more out)) [] := by
  have hlen := length_rest hd
  have hend : ¬ off + 16 ≤ v.n := by omega
  rw [scanRound, if_neg hend]
  rfl

/-- The spans of the header of a message. -/
def headSpans (off : ℕ) : List Span := [⟨off, 4⟩, ⟨off + 4, 2⟩]

theorem headSpans_le {n : ℕ} (h : off + 16 ≤ n) : ∀ y ∈ headSpans off, y.stop ≤ n := by
  have hfour : off + 4 ≤ n := by omega
  have htwo : off + 4 + 2 ≤ n := by omega
  exact List.forall_mem_cons.mpr ⟨hfour, List.forall_mem_singleton.mpr htwo⟩

theorem round_done (hd : v.bytes.drop off = d) (h : 16 ≤ d.length) (hty : u16At o d 4 = 3) :
    scanRound o strerror v (off, out) = done (.stop (.over (.ok out))) (headSpans off) := by
  have hlen := length_rest hd
  have hon : off + 16 ≤ v.n := by omega
  obtain ⟨hfour, htwo⟩ := read_header (o := o) hd h
  rw [scanRound, if_pos hon, hfour, done_bind, htwo, done_bind, if_pos hty]
  rfl

theorem round_error (hd : v.bytes.drop off = d) (h : 20 ≤ d.length) (hty : u16At o d 4 = 2) (he : i32At o d 16 ≠ 0) :
    scanRound o strerror v (off, out) =
      done (.stop (.over (.error ⟨"nl dump: " ++ strerror (-i32At o d 16), none⟩)))
        (headSpans off ++ [⟨off + 16, 4⟩]) := by
  have hlen := length_rest hd
  have hon : off + 16 ≤ v.n := by omega
  have hdone : u16At o d 4 ≠ 3 := by omega
  obtain ⟨hfour, htwo⟩ := read_header (o := o) hd (by omega)
  rw [scanRound, if_pos hon, hfour, done_bind, htwo, done_bind, if_neg hdone, codeAt, if_pos hty, read_code hd h,
    done_bind, if_pos he]
  rfl

theorem codeAt_zero (hd : v.bytes.drop off = d) (h : u16At o d 4 = 2 → 20 ≤ d.length ∧ i32At o d 16 = 0) :
    ∃ spans, codeAt o v off (u16At o d 4) = done 0 spans ∧ ∀ y ∈ spans, y.stop ≤ v.n := by
  have hlen := length_rest hd
  by_cases herr : u16At o d 4 = 2
  · obtain ⟨hall, hzero⟩ := h herr
    have hin : off + 16 + 4 ≤ v.n := by omega
    refine ⟨[⟨off + 16, 4⟩], ?_, List.forall_mem_singleton.mpr hin⟩
    rw [codeAt, if_pos herr, read_code hd hall, hzero]
  · exact ⟨[], if_neg herr, by simp⟩

/-- The message at the front of the bytes, if it is all there. -/
def cut (o : ByteOrder) (d : List UInt8) : List (List UInt8) :=
  if 0 < u32At o d 0 ∧ u32At o d 0 ≤ d.length then [d.take (u32At o d 0)] else []

theorem push_cut (hd : v.bytes.drop off = d) :
    ∃ spans, push v off (u32At o d 0) out = done (out ++ cut o d) spans ∧ ∀ y ∈ spans, y.stop ≤ v.n := by
  have hlen := length_rest hd
  have hsize := v.size
  have hfits := v.fits
  by_cases hall : 0 < u32At o d 0 ∧ off + u32At o d 0 ≤ v.n
  · have hcut : cut o d = [d.take (u32At o d 0)] := if_pos ⟨hall.1, by omega⟩
    have htake : (v.buf.drop off).take (u32At o d 0) = (d.drop 0).take (u32At o d 0) :=
      part_received 0 hd hall.2
    refine ⟨[⟨off, u32At o d 0⟩], ?_, List.forall_mem_singleton.mpr hall.2⟩
    rw [push, if_pos hall, get_eq (by omega), done_bind, htake, List.drop_zero, hcut]
    rfl
  · have hcut : cut o d = [] := if_neg fun hc => hall ⟨hc.1, by omega⟩
    refine ⟨[], ?_, by simp⟩
    rw [push, if_neg hall, hcut, List.append_nil]
    rfl

theorem round_next (hd : v.bytes.drop off = d) (h : 16 ≤ d.length) (hty : u16At o d 4 ≠ 3)
    (hack : u16At o d 4 = 2 → 20 ≤ d.length ∧ i32At o d 16 = 0) :
    ∃ spans, scanRound o strerror v (off, out) = done (.next (off + align4 (u32At o d 0), out ++ cut o d)) spans ∧
      ∀ y ∈ spans, y.stop ≤ v.n := by
  have hlen := length_rest hd
  have hon : off + 16 ≤ v.n := by omega
  obtain ⟨hfour, htwo⟩ := read_header (o := o) hd h
  obtain ⟨code, hcode, hin⟩ := codeAt_zero hd hack
  obtain ⟨copy, hcopy, hinside⟩ := push_cut (o := o) out hd
  refine ⟨headSpans off ++ (code ++ copy), ?_, ?_⟩
  · rw [scanRound, if_pos hon, hfour, done_bind, htwo, done_bind, if_neg hty, hcode, done_bind,
      if_neg (fun hne => hne rfl), hcopy, done_bind, pure_eq, behind_done, behind_done, behind_done, behind_done,
      List.append_nil]
    rfl
  · exact List.forall_mem_append.mpr ⟨headSpans_le hon, List.forall_mem_append.mpr ⟨hin, hinside⟩⟩

/-- The code of an NLMSG_ERROR is read, also where it is cut off. -/
theorem round_code (hd : v.bytes.drop off = d) (h : 16 ≤ d.length) (hty : u16At o d 4 = 2) :
    scanRound o strerror v (off, out) = panic ∨
      ∃ f spans, scanRound o strerror v (off, out) = done f spans ∧ ⟨off + 16, 4⟩ ∈ spans := by
  have hlen := length_rest hd
  have hon : off + 16 ≤ v.n := by omega
  have hdone : u16At o d 4 ≠ 3 := by omega
  obtain ⟨hfour, htwo⟩ := read_header (o := o) hd h
  cases hr : scanRound o strerror v (off, out) with
  | panic => exact .inl rfl
  | done f spans =>
    refine .inr ⟨f, spans, rfl, ?_⟩
    by_cases hin : off + 16 + 4 ≤ v.buf.length
    · rw [scanRound, if_pos hon, hfour, done_bind, htwo, done_bind, if_neg hdone, codeAt, if_pos hty, readI32_eq hin,
        done_bind] at hr
      obtain ⟨a, ha, rfl⟩ := behind_eq_done hr
      obtain ⟨b, hb, rfl⟩ := behind_eq_done ha
      obtain ⟨c, -, rfl⟩ := behind_eq_done hb
      simp
    · rw [scanRound, if_pos hon, hfour, done_bind, htwo, done_bind, if_neg hdone, codeAt, if_pos hty, readI32,
        get_panics (by omega)] at hr
      cases hr

end Round

/-! ### What the loop over a datagram indexes -/

/-- The loop over a datagram ends, and it indexes nothing behind the bytes that were received. -/
def Contained (o : ByteOrder) (strerror : Int32 → String) (v : Received) (out : List (List UInt8)) : Prop :=
  ∃ k r spans, scan o strerror v k out = done (some r) spans ∧ ∀ y ∈ spans, y.stop ≤ v.n

/-- From header to header, up to an NLMSG_DONE or an error: no message has the length 0, and no NLMSG_ERROR ends
before its code. -/
inductive Sound (o : ByteOrder) : List UInt8 → Prop where
  | short {d : List UInt8} (h : d.length < 16) : Sound o d
  | done {d : List UInt8} (h : 16 ≤ d.length) (hty : u16At o d 4 = 3) : Sound o d
  | error {d : List UInt8} (h : 20 ≤ d.length) (hty : u16At o d 4 = 2) (he : i32At o d 16 ≠ 0) : Sound o d
  | more {d : List UInt8} (h : 16 ≤ d.length) (hty : u16At o d 4 ≠ 3)
      (hack : u16At o d 4 = 2 → 20 ≤ d.length ∧ i32At o d 16 = 0) (hlen : 0 < u32At o d 0)
      (hrest : Sound o (d.drop (align4 (u32At o d 0)))) : Sound o d

section Contained

variable {o : ByteOrder} {strerror : Int32 → String} {v : Received} {d : List UInt8}

/-- What has been received behind the first message. -/
theorem drop_rest {off : ℕ} (hd : v.bytes.drop off = d) (k : ℕ) : v.bytes.drop (off + k) = d.drop k := by
  rw [← hd, List.drop_drop]

theorem scan_of_sound (h : Sound o d) {off : ℕ} {out : List (List UInt8)} (hd : v.bytes.drop off = d) :
    ∃ k r spans, loop (scanRound o strerror v) k (off, out) = done (some r) spans ∧ ∀ y ∈ spans, y.stop ≤ v.n := by
  induction h generalizing off out with
  | short h => exact ⟨1, _, [], loop_stop (round_short strerror out hd h), by simp⟩
  | @done d h hty =>
    have hlen := length_rest hd
    exact ⟨1, _, _, loop_stop (round_done strerror out hd h hty), headSpans_le (by omega)⟩
  | @error d h hty he =>
    have hlen := length_rest hd
    have hcode : off + 16 + 4 ≤ v.n := by omega
    exact ⟨1, _, _, loop_stop (round_error strerror out hd h hty he),
      List.forall_mem_append.mpr ⟨headSpans_le (by omega), List.forall_mem_singleton.mpr hcode⟩⟩
  | more h hty hack hlen hrest ih =>
    obtain ⟨a, hround, ha⟩ := round_next strerror out hd h hty hack
    obtain ⟨k, r, b, hloop, hb⟩ := ih (drop_rest hd _)
    exact ⟨k + 1, r, a ++ b, by rw [loop_next hround, hloop, behind_done], List.forall_mem_append.mpr ⟨ha, hb⟩⟩

/-- By the rounds of the loop. -/
theorem sound_of_scan {k off : ℕ} {out : List (List UInt8)} {r : Scanned} {spans : List Span}
    (hloop : loop (scanRound o strerror v) k (off, out) = done (some r) spans) (hin : ∀ y ∈ spans, y.stop ≤ v.n)
    (hd : v.bytes.drop off = d) : Sound o d := by
  induction k generalizing off out spans d with
  | zero => cases hloop
  | succ k ih =>
    by_cases hshort : d.length < 16
    · exact .short hshort
    by_cases hdone : u16At o d 4 = 3
    · exact .done (by omega) hdone
    have hlen := length_rest hd
    -- a code that was read was received
    have hcode : u16At o d 4 = 2 → 20 ≤ d.length := by
      intro herr
      have hread := loop_mem (round_code strerror out hd (by omega) herr) hloop
      have hstop : off + 16 + 4 ≤ v.n := hin _ hread
      omega
    by_cases herr : u16At o d 4 = 2 ∧ i32At o d 16 ≠ 0
    · exact .error (hcode herr.1) herr.1 herr.2
    have hack : u16At o d 4 = 2 → 20 ≤ d.length ∧ i32At o d 16 = 0 := by
      intro h
      refine ⟨hcode h, ?_⟩
      by_contra hne
      exact herr ⟨h, hne⟩
    obtain ⟨a, hround, -⟩ := round_next strerror out hd (by omega) hdone hack
    by_cases hzero : u32At o d 0 = 0
    · -- the next round is this one
      have hsame : scanRound o strerror v (off, out) = done (.next (off, out)) a := by
        have hcut : cut o d = [] := if_neg fun hc => absurd hc.1 (by omega)
        rw [hround, hzero, hcut, List.append_nil]
        rfl
      exact absurd ⟨_, _, _, hloop⟩ (loop_spins hsame)
    · rw [loop_next hround] at hloop
      obtain ⟨b, hl, rfl⟩ := behind_eq_done hloop
      exact .more (by omega) hdone hack (by omega)
        (ih hl (fun y hy => hin y (List.mem_append_right a hy)) (drop_rest hd _))

/-- **The loop over a datagram ends and stays in what was received, if and only if the datagram is sound.** -/
theorem scan_contained_iff (o : ByteOrder) (strerror : Int32 → String) (v : Received) (out : List (List UInt8)) :
    Contained o strerror v out ↔ Sound o v.bytes := by
  constructor
  · rintro ⟨k, r, spans, hscan, hin⟩
    exact sound_of_scan hscan hin rfl
  · intro h
    exact scan_of_sound h rfl

theorem recv_bytes (h : d.length ≤ 32768) : (v.recv d).bytes = d := by
  have hn : min 32768 d.length = d.length := Nat.min_eq_right h
  show (d.take 32768 ++ v.buf.drop (min 32768 d.length)).take (min 32768 d.length) = d
  rw [hn, List.take_of_length_le h, List.take_left]

/-- A datagram of 16 zeros: a message of length 0. -/
def emptyHeader : List UInt8 := zeros 16

/-- An NLMSG_ERROR that ends with its header. -/
def bareError : List UInt8 := [16, 0, 0, 0, 2, 0] ++ zeros 10

/-- The loop is held up by the one, and reads behind the end of the other. -/
theorem malformed_not_contained :
    ¬ Contained .little (fun _ => "") (Received.empty.recv emptyHeader) [] ∧
    ¬ Contained .little (fun _ => "") (Received.empty.recv bareError) [] := by
  constructor
  · rintro ⟨k, r, spans, hscan, hin⟩
    have hsound : Sound .little emptyHeader := sound_of_scan hscan hin (recv_bytes (by decide))
    cases hsound with
    | short h => exact absurd h (by decide)
    | done h hty => exact absurd hty (by decide)
    | error h hty he => exact absurd hty (by decide)
    | more h hty hack hlen hrest => exact absurd hlen (by decide)
  · rintro ⟨k, r, spans, hscan, hin⟩
    have hsound : Sound .little bareError := sound_of_scan hscan hin (recv_bytes (by decide))
    cases hsound with
    | short h => exact absurd h (by decide)
    | done h hty => exact absurd hty (by decide)
    | error h hty he => exact absurd h (by decide)
    | more h hty hack hlen hrest => exact absurd (hack (by decide)).1 (by decide)

end Contained

/-! ### Datagrams that messages were packed into -/

/-- A message: its length field is its length, and it is no NLMSG_ERROR and no NLMSG_DONE. -/
structure IsMessage (o : ByteOrder) (m : List UInt8) : Prop where
  header : 16 ≤ m.length
  len : u32At o m 0 = m.length
  notError : u16At o m 4 ≠ 2
  notDone : u16At o m 4 ≠ 3

/-- Messages one after the other, each with its padding. -/
inductive Padded : List (List UInt8) → List UInt8 → Prop where
  | nil : Padded [] []
  | cons {m pad d : List UInt8} {ms : List (List UInt8)} (hpad : m.length + pad.length = align4 m.length)
      (hd : Padded ms d) : Padded (m :: ms) (m ++ pad ++ d)

/-- Messages one after the other; the last may lack padding. -/
inductive Packed : List (List UInt8) → List UInt8 → Prop where
  | padded {ms : List (List UInt8)} {d : List UInt8} (hd : Padded ms d) : Packed ms d
  | cut {ms : List (List UInt8)} {d m pad : List UInt8} (hd : Padded ms d)
      (hpad : m.length + pad.length ≤ align4 m.length) : Packed (ms ++ [m]) (d ++ (m ++ pad))

/-- The datagrams of an answer to a dump: messages in order, and an NLMSG_DONE at the end. -/
inductive Answer (o : ByteOrder) : List (List UInt8) → List (List UInt8) → Prop where
  | last {ms : List (List UInt8)} {d fin : List UInt8} (hd : Padded ms d) (hfin : 16 ≤ fin.length)
      (hty : u16At o fin 4 = 3) (hsize : (d ++ fin).length ≤ 32768) : Answer o ms [d ++ fin]
  | more {ms ms' : List (List UInt8)} {d : List UInt8} {ds : List (List UInt8)} (hd : Packed ms d)
      (hsize : d.length ≤ 32768) (hrest : Answer o ms' ds) : Answer o (ms ++ ms') (d :: ds)

section Exact

variable {o : ByteOrder} {v : Received} {m rest : List UInt8} {ms : List (List UInt8)} (strerror : Int32 → String)
  (out : List (List UInt8))

theorem u16At_append {b : List UInt8} {pos : ℕ} (h : pos + 2 ≤ b.length) (t : List UInt8) :
    u16At o (b ++ t) pos = u16At o b pos := congrArg (value o) (part_append h t)

theorem u32At_append {b : List UInt8} {pos : ℕ} (h : pos + 4 ≤ b.length) (t : List UInt8) :
    u32At o (b ++ t) pos = u32At o b pos := congrArg (value o) (part_append h t)

/-- A round takes one message. -/
theorem round_message {off : ℕ} (hm : IsMessage o m) (hd : v.bytes.drop off = m ++ rest) :
    ∃ spans, scanRound o strerror v (off, out) = done (.next (off + align4 m.length, out ++ [m])) spans := by
  have hheader := hm.header
  have hlen : u32At o (m ++ rest) 0 = m.length := by rw [u32At_append (by omega), hm.len]
  have hty : u16At o (m ++ rest) 4 = u16At o m 4 := u16At_append (by omega) _
  have hsize : 16 ≤ (m ++ rest).length := by
    rw [List.length_append]
    omega
  have hcut : cut o (m ++ rest) = [m] := by
    have hall : 0 < u32At o (m ++ rest) 0 ∧ u32At o (m ++ rest) 0 ≤ (m ++ rest).length := by
      rw [hlen, List.length_append]
      omega
    rw [cut, if_pos hall, hlen, List.take_left]
  obtain ⟨spans, hround, -⟩ := round_next strerror out hd hsize (hty ▸ hm.notDone)
    fun h => absurd (hty ▸ h) hm.notError
  rw [hlen, hcut] at hround
  exact ⟨spans, hround⟩

/-- The rounds over padded messages. -/
theorem scan_padded {d : List UInt8} (hms : ∀ m ∈ ms, IsMessage o m) (hpad : Padded ms d) {off : ℕ}
    (hd : v.bytes.drop off = d ++ rest) :
    v.bytes.drop (off + d.length) = rest ∧ ∃ spans, ∀ k, loop (scanRound o strerror v) (ms.length + k) (off, out) =
      (loop (scanRound o strerror v) k (off + d.length, out ++ ms)).behind spans := by
  induction hpad generalizing off out with
  | nil =>
    refine ⟨hd, [], fun k => ?_⟩
    rw [behind_nil, List.append_nil, List.length_nil, Nat.zero_add]
    rfl
  | @cons m pad d ms hpad _ ih =>
    have hsplit : v.bytes.drop off = m ++ (pad ++ (d ++ rest)) := by
      rw [hd]
      simp only [List.append_assoc]
    obtain ⟨a, hround⟩ := round_message strerror out (hms m List.mem_cons_self) hsplit
    have hnext : v.bytes.drop (off + align4 m.length) = d ++ rest := by
      rw [drop_rest hsplit, ← hpad, ← List.append_assoc]
      exact List.drop_left' List.length_append
    obtain ⟨hrest, b, hloop⟩ := ih (out ++ [m]) (fun x hx => hms x (List.mem_cons_of_mem m hx)) hnext
    have hoff : off + align4 m.length + d.length = off + (m ++ pad ++ d).length := by
      rw [← hpad, List.length_append, List.length_append]
      omega
    refine ⟨hoff ▸ hrest, a ++ b, fun k => ?_⟩
    have hk : (m :: ms).length + k = ms.length + k + 1 := by
      rw [List.length_cons]
      omega
    have hout : out ++ [m] ++ ms = out ++ m :: ms := by rw [List.append_assoc, List.singleton_append]
    rw [hk, loop_next hround, hloop, behind_behind, hoff, hout]

/-- A datagram of packed messages adds them to what there was. -/
theorem scan_packed {d : List UInt8} (hms : ∀ m ∈ ms, IsMessage o m) (hd : Packed ms d) (hv : v.bytes = d) :
    ∃ k spans, scan o strerror v k out = done (some (.more (out ++ ms))) spans := by
  cases hd with
  | padded hd =>
    have hall : v.bytes.drop 0 = d ++ [] := by rw [List.drop_zero, List.append_nil, hv]
    obtain ⟨hrest, a, hloop⟩ := scan_padded strerror out hms hd hall
    refine ⟨ms.length + 1, a ++ [], ?_⟩
    rw [scan, hloop, loop_stop (round_short strerror _ hrest (by decide)), behind_done]
  | @cut ms d m pad hd hpad =>
    have hall : v.bytes.drop 0 = d ++ (m ++ pad) := by rw [List.drop_zero, hv]
    obtain ⟨hrest, a, hloop⟩ := scan_padded strerror out
      (fun x hx => hms x (List.mem_append_left _ hx)) hd hall
    obtain ⟨b, hround⟩ := round_message strerror (out ++ ms)
      (hms m (List.mem_append_right ms (List.mem_singleton_self m))) hrest
    have hend : v.bytes.drop (0 + d.length + align4 m.length) = [] := by
      rw [drop_rest hrest, List.drop_eq_nil_iff, List.length_append]
      exact hpad
    refine ⟨ms.length + 2, a ++ (b ++ []), ?_⟩
    rw [scan, hloop, loop_next hround, loop_stop (round_short strerror _ hend (by decide)), behind_done, behind_done,
      List.append_assoc]

/-- The last datagram ends the dump. -/
theorem scan_last {d fin : List UInt8} (hms : ∀ m ∈ ms, IsMessage o m) (hd : Padded ms d) (hfin : 16 ≤ fin.length)
    (hty : u16At o fin 4 = 3) (hv : v.bytes = d ++ fin) :
    ∃ k spans, scan o strerror v k out = done (some (.over (.ok (out ++ ms)))) spans := by
  have hall : v.bytes.drop 0 = d ++ fin := by rw [List.drop_zero, hv]
  obtain ⟨hrest, a, hloop⟩ := scan_padded strerror out hms hd hall
  have hstop := loop_stop (k := 0) (round_done strerror (out ++ ms) hrest hfin hty)
  refine ⟨ms.length + 1, a ++ headSpans (0 + d.length), ?_⟩
  rw [scan, hloop, hstop, behind_done]

theorem dumpFrom_answer {ds : List (List UInt8)} (hds : Answer o ms ds) (hms : ∀ m ∈ ms, IsMessage o m)
    (later : List (Except ℕ (List UInt8))) (v : Received) (out : List (List UInt8)) :
    ∃ k, ∀ fuel ≥ k, dumpFrom o strerror fuel (ds.map .ok ++ later) v out = .returned (.ok (out ++ ms)) later := by
  induction hds generalizing v out with
  | last hd hfin hty hsize =>
    obtain ⟨k, a, hscan⟩ := scan_last strerror out hms hd hfin hty (recv_bytes (v := v) hsize)
    refine ⟨k, fun fuel hfuel => ?_⟩
    have hmore : scan o strerror (v.recv _) fuel out = _ := loop_more hscan hfuel
    rw [List.map_singleton, List.singleton_append, dumpFrom, hmore]
  | @more ms ms' d ds hd hsize _ ih =>
    obtain ⟨k, a, hscan⟩ := scan_packed strerror out
      (fun m hm => hms m (List.mem_append_left ms' hm)) hd (recv_bytes (v := v) hsize)
    obtain ⟨k', hrest⟩ := ih (fun m hm => hms m (List.mem_append_right ms hm)) (v.recv d) (out ++ ms)
    refine ⟨max k k', fun fuel hfuel => ?_⟩
    have hmore : scan o strerror (v.recv d) fuel out = _ := loop_more hscan (le_trans (le_max_left k k') hfuel)
    rw [List.map_cons, List.cons_append, dumpFrom, hmore, ← List.append_assoc]
    exact hrest fuel (le_trans (le_max_right k k') hfuel)

/-- **A dump returns the messages that its answer was packed from**, and receives nothing behind the answer. -/
theorem dump_exact (o : ByteOrder) (strerror : Int32 → String) (ms ds : List (List UInt8))
    (later : List (Except ℕ (List UInt8))) (hms : ∀ m ∈ ms, IsMessage o m) (hds : Answer o ms ds) :
    ∃ k, ∀ fuel ≥ k, dump o strerror fuel (.ok ()) (ds.map .ok ++ later) = .returned (.ok ms) later := by
  obtain ⟨k, hdump⟩ := dumpFrom_answer strerror hds hms later .empty []
  exact ⟨k, hdump⟩

/-- A message of zeros behind its length and type. -/
def blank (len ty : ℕ) : List UInt8 := bytes .little 4 len ++ (bytes .little 2 ty ++ zeros (len - 6))

theorem blank_isMessage {len ty : ℕ} (h : 16 ≤ len) (hlen : len < 256 ^ 4) (hty : ty < 256 ^ 2)
    (hne : ty ≠ 2 ∧ ty ≠ 3) : IsMessage .little (blank len ty) := by
  have hall : (blank len ty).length = len := by
    rw [blank, List.length_append, List.length_append, Wire.length_bytes, Wire.length_bytes, length_zeros]
    omega
  have htype : u16At .little (blank len ty) 4 = ty := by
    rw [u16At, blank, List.drop_left' Wire.length_bytes, value_take hty]
  refine ⟨hall.symm ▸ h, ?_, htype.symm ▸ hne.1, htype.symm ▸ hne.2⟩
  rw [blank, u32At_here hlen, ← blank, hall]

/-- Two messages in one datagram, the second without its padding, and one before the NLMSG_DONE. -/
theorem dump_exact_three : ∃ k, ∀ fuel ≥ k, dump .little (fun _ => "") fuel (.ok ())
    (([blank 20 16 ++ (blank 18 16 ++ []), blank 17 16 ++ zeros 3 ++ [] ++ blank 16 3] : List (List UInt8)).map .ok ++ []) =
      .returned (.ok [blank 20 16, blank 18 16, blank 17 16]) [] := by
  have hlast : Answer .little [blank 17 16] [blank 17 16 ++ zeros 3 ++ [] ++ blank 16 3] :=
    .last (.cons (by decide) .nil) (by decide) (by decide) (by decide)
  have hfirst : Padded [blank 20 16] (blank 20 16 ++ [] ++ []) := .cons (by decide) .nil
  have hpacked : Packed [blank 20 16, blank 18 16] (blank 20 16 ++ (blank 18 16 ++ [])) := by
    have hcut : Packed ([blank 20 16] ++ [blank 18 16]) (blank 20 16 ++ [] ++ [] ++ (blank 18 16 ++ [])) :=
      .cut hfirst (by decide)
    simpa using hcut
  refine dump_exact .little (fun _ => "") _ _ [] ?_ (.more hpacked (by decide) hlast)
  intro m hm
  simp only [List.mem_cons, List.not_mem_nil, or_false] at hm
  rcases hm with rfl | rfl | rfl
  · exact blank_isMessage (by decide) (by decide) (by decide) (by decide)
  · exact blank_isMessage (by decide) (by decide) (by decide) (by decide)
  · exact blank_isMessage (by decide) (by decide) (by decide) (by decide)

end Exact

end CloudHv.Netlink.Raw
