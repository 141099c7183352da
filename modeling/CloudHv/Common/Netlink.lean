import CloudHv.Lib.Wire

/-!
# Netlink — the messages of the netlink helpers

The messages that `crates/common/src/netlink.rs` builds, byte by byte as the code does: a buffer of zeros that is
overwritten in places, or one that grows and whose lengths are filled in later.  A write that is not inside the
buffer panics, so a builder returns an `Option`.  Numbers are in the byte order of the host, which is a
parameter.

`message` is what such a message is: the header, the fixed part of its kind and attributes.  Every builder's
buffer is one (`getLinkIndexMsg_eq` and so on), and `parse` gives its parts back.
-/

namespace CloudHv.Netlink

open Wire

/-- `str::as_bytes`. -/
def asBytes (s : String) : List UInt8 := s.toUTF8.data.toList

structure Ipv4Addr where
  a : UInt8
  b : UInt8
  c : UInt8
  d : UInt8
  deriving DecidableEq

def Ipv4Addr.octets (ip : Ipv4Addr) : List UInt8 := [ip.a, ip.b, ip.c, ip.d]

/-! ### The helpers -/

section Builders

variable (o : ByteOrder)

def nlhdr (buf : List UInt8) (len ty flags : ℕ) (seq : UInt32) : Option (List UInt8) := do
  let buf ← write buf 0 (bytes o 4 len)
  let buf ← write buf 4 (bytes o 2 ty)
  let buf ← write buf 6 (bytes o 2 flags)
  write buf 8 (bytes o 4 seq.toNat)

def putNla (buf : List UInt8) (ty payloadLen : ℕ) : Option (List UInt8) := do
  let buf ← write buf 0 (bytes o 2 (4 + payloadLen))
  write buf 2 (bytes o 2 ty)

/-- Zeros up to the next multiple of four. -/
def pad4 (buf : List UInt8) : List UInt8 := buf ++ zeros (align4 buf.length - buf.length)

def pushNlaStr (buf : List UInt8) (ty : ℕ) (s : String) : List UInt8 :=
  let p := asBytes s
  let len := 4 + p.length + 1
  pad4 (buf ++ bytes o 2 len ++ bytes o 2 ty ++ p ++ [0])

/-- Fill in the header of the attribute that begins at `start` and ends with the buffer. -/
def closeAttr (buf : List UInt8) (start ty : ℕ) : Option (List UInt8) := do
  let buf' ← write buf start (bytes o 2 (buf.length - start))
  write buf' (start + 2) (bytes o 2 ty)

/-- The type gets the flag NLA_F_NESTED. -/
def closeNested (buf : List UInt8) (start ty : ℕ) : Option (List UInt8) := closeAttr o buf start (ty ||| 0x8000)

/-- `u16::to_be`. -/
def toBe16 (n : ℕ) : ℕ := value o (bytes .big 2 n)

/-! ### The messages -/

def getLinkIndexMsg (name : String) (seq : UInt32) : Option (List UInt8) := do
  let nb := asBytes name
  let attr := 4 + nb.length + 1
  let total := 16 + 16 + align4 attr
  let m ← nlhdr o (zeros total) total 18 5 seq
  let m ← onTail m 32 (putNla o · 3 (nb.length + 1))
  write m 36 nb

def setLinkNetnsFdMsg (idx : UInt32) (netnsFd : Int32) (seq : UInt32) : Option (List UInt8) := do
  let total := 16 + 16 + 8
  let m ← nlhdr o (zeros total) total 16 5 seq
  let m ← write m 20 (bytes o 4 idx.toNat)
  let m ← onTail m 32 (putNla o · 28 4)
  write m 36 (bytes o 4 netnsFd.toBitVec.toNat)

/-- `IFF_UP`. -/
def iffUp : ℕ := 1

def setLinkUpMsg (idx : UInt32) (seq : UInt32) : Option (List UInt8) := do
  let m ← nlhdr o (zeros 32) 32 16 5 seq
  let m ← write m 20 (bytes o 4 idx.toNat)
  let m ← write m 24 (bytes o 4 iffUp)
  write m 28 (bytes o 4 iffUp)

/-- A request about the ingress qdisc of an interface. -/
def ingressQdiscMsg (ty flags : ℕ) (ifindex : UInt32) (seq : UInt32) : Option (List UInt8) := do
  let kind := asBytes "ingress" ++ [0]
  let attrLen := align4 (4 + kind.length)
  let total := 16 + 20 + attrLen
  let m ← nlhdr o (zeros total) total ty flags seq
  -- AF_UNSPEC
  let m ← write m 16 [0]
  let m ← write m 20 (bytes o 4 ifindex.toNat)
  let m ← write m 24 (bytes o 4 0xFFFF0000)
  let m ← write m 28 (bytes o 4 0xFFFFFFF1)
  let m ← onTail m 36 (putNla o · 1 kind.length)
  write m 40 kind

def addIngressQdiscMsg (ifindex : UInt32) (seq : UInt32) : Option (List UInt8) :=
  ingressQdiscMsg o 36 0x605 ifindex seq

def delIngressQdiscMsg (ifindex : UInt32) (seq : UInt32) : Option (List UInt8) :=
  ingressQdiscMsg o 37 5 ifindex seq

def addAddressMsg (ifindex : UInt32) (ip : Ipv4Addr) (prefixLen : UInt8) (seq : UInt32) : Option (List UInt8) := do
  let total := 40
  let m ← nlhdr o (zeros total) total 20 0x0605 seq
  -- AF_INET, the prefix length, flags and scope
  let m ← write m 16 [2]
  let m ← write m 17 [prefixLen]
  let m ← write m 18 [0]
  let m ← write m 19 [0]
  let m ← write m 20 (bytes o 4 ifindex.toNat)
  let m ← onTail m 24 (putNla o · 2 4)
  let m ← write m 28 ip.octets
  let m ← onTail m 32 (putNla o · 1 4)
  write m 36 ip.octets

def addDefaultRouteMsg (gateway : Ipv4Addr) (ifindex : UInt32) (seq : UInt32) : Option (List UInt8) := do
  let total := 44
  let m ← nlhdr o (zeros total) total 24 0x0505 seq
  let m ← write m 16 [2]
  let m ← write m 17 [0]
  let m ← write m 18 [0]
  let m ← write m 19 [0]
  -- RT_TABLE_MAIN, RTPROT_BOOT, RT_SCOPE_UNIVERSE, RTN_UNICAST
  let m ← write m 20 [254]
  let m ← write m 21 [3]
  let m ← write m 22 [0]
  let m ← write m 23 [1]
  -- RTNH_F_ONLINK
  let m ← write m 24 (bytes o 4 4)
  let m ← onTail m 28 (putNla o · 5 4)
  let m ← write m 32 gateway.octets
  let m ← onTail m 36 (putNla o · 4 4)
  write m 40 (bytes o 4 ifindex.toNat)

/-- The tcmsg of the filter, after room for the header. -/
def filterTcmsg (srcIdx : UInt32) : List UInt8 :=
  zeros 16 ++ [0] ++ zeros 3 ++ bytes o 4 srcIdx.toNat ++ bytes o 4 0 ++ bytes o 4 0xFFFF0000 ++
    bytes o 4 (toBe16 o 3)

/-- TCA_MIRRED_PARMS: tc_gen, the action TCA_EGRESS_REDIR and the interface. -/
def mirredParms (dstIdx : UInt32) : List UInt8 :=
  bytes o 2 32 ++ bytes o 2 2 ++ bytes o 4 0 ++ bytes o 4 0 ++ bytes o 4 4 ++ bytes o 4 0 ++ bytes o 4 0 ++
    bytes o 4 1 ++ bytes o 4 dstIdx.toNat

def addRedirectFilterMsg (srcIdx dstIdx : UInt32) (seq : UInt32) : Option (List UInt8) := do
  let b := pushNlaStr o (filterTcmsg o srcIdx) 1 "u32"
  let opts := b.length
  let b := b ++ zeros 4
  let act := b.length
  let b := b ++ zeros 4
  let tab := b.length
  let b := b ++ zeros 4
  let b := pushNlaStr o b 1 "mirred"
  let ao := b.length
  let b := b ++ zeros 4
  let b := b ++ mirredParms o dstIdx
  let b ← closeNested o b ao 2
  let b ← closeAttr o b tab 1
  let b ← closeAttr o b act 7
  let sel := b.length
  let b := b ++ zeros 4
  let selHdr ← write (zeros 16) 0 [1]
  let selHdr ← write selHdr 2 [1]
  let b := b ++ selHdr
  let b := b ++ zeros 16
  let b ← closeAttr o b sel 5
  let b ← closeAttr o b opts 2
  nlhdr o b b.length 44 0x605 seq

end Builders

/-! ### What a message is -/

section Message

variable (o : ByteOrder)

def header (len ty flags : ℕ) (seq : UInt32) : List UInt8 :=
  bytes o 4 len ++ (bytes o 2 ty ++ (bytes o 2 flags ++ (bytes o 4 seq.toNat ++ zeros 4)))

/-- The message of a kind, with its fixed part and its attributes. -/
def message (ty flags : ℕ) (seq : UInt32) (fixed : List UInt8) (attrs : List Attr) : List UInt8 :=
  header o (16 + fixed.length + (encode o attrs).length) ty flags seq ++ (fixed ++ encode o attrs)

/-- The parts of a message. -/
structure Message where
  len : ℕ
  ty : ℕ
  flags : ℕ
  seq : ℕ
  pid : ℕ
  fixed : List UInt8
  attrs : List Attr
  deriving DecidableEq

/-- Read a message whose fixed part has `n` bytes; its attributes have to fill the rest. -/
def parse (n : ℕ) (b : List UInt8) : Option Message :=
  if 16 + n ≤ b.length then
    (decode o (b.drop (16 + n))).map fun attrs =>
      ⟨value o (b.take 4), value o ((b.drop 4).take 2), value o ((b.drop 6).take 2), value o ((b.drop 8).take 4),
        value o ((b.drop 12).take 4), (b.drop 16).take n, attrs⟩
  else none

variable {o}

theorem length_header {len ty flags : ℕ} {seq : UInt32} : (header o len ty flags seq).length = 16 := by
  simp only [header, List.length_append, length_bytes, length_zeros]

theorem length_message {ty flags : ℕ} {seq : UInt32} {fixed : List UInt8} {attrs : List Attr} :
    (message o ty flags seq fixed attrs).length = 16 + fixed.length + (encode o attrs).length := by
  rw [message, List.length_append, length_header, List.length_append]
  omega

/-- **Round trip.**  A message gives its parts back, and its length is that of the buffer. -/
theorem parse_message {ty flags : ℕ} {seq : UInt32} {fixed : List UInt8} {attrs : List Attr} {n : ℕ}
    (hn : fixed.length = n) (hty : ty < 256 ^ 2) (hflags : flags < 256 ^ 2) (hattrs : ∀ a ∈ attrs, a.Fits)
    (hlen : 16 + fixed.length + (encode o attrs).length < 256 ^ 4) :
    parse o n (message o ty flags seq fixed attrs) =
      some ⟨(message o ty flags seq fixed attrs).length, ty, flags, seq.toNat, 0, fixed, attrs⟩ := by
  subst hn
  set len := 16 + fixed.length + (encode o attrs).length with hdef
  have hle : 16 + fixed.length ≤ (message o ty flags seq fixed attrs).length := by
    rw [length_message]
    omega
  have hseq : seq.toNat < 256 ^ 4 := seq.toNat_lt
  have hzero : value o (zeros 4) = 0 := by
    cases o <;> rfl
  have hrest : (message o ty flags seq fixed attrs).drop (16 + fixed.length) = encode o attrs := by
    rw [← List.drop_drop, message, List.drop_left' length_header, List.drop_left]
  have hfixed : ((message o ty flags seq fixed attrs).drop 16).take fixed.length = fixed := by
    rw [message, List.drop_left' length_header, List.take_left]
  have hflat : message o ty flags seq fixed attrs = bytes o 4 len ++ (bytes o 2 ty ++ (bytes o 2 flags ++
      (bytes o 4 seq.toNat ++ (zeros 4 ++ (fixed ++ encode o attrs))))) := by
    simp only [message, header, List.append_assoc, ← hdef]
  have hfour : (message o ty flags seq fixed attrs).drop 4 = bytes o 2 ty ++ (bytes o 2 flags ++
      (bytes o 4 seq.toNat ++ (zeros 4 ++ (fixed ++ encode o attrs)))) := by
    rw [hflat, List.drop_left' length_bytes]
  have hsix : (message o ty flags seq fixed attrs).drop 6 = bytes o 2 flags ++
      (bytes o 4 seq.toNat ++ (zeros 4 ++ (fixed ++ encode o attrs))) := by
    rw [← List.drop_drop (i := 2) (j := 4), hfour, List.drop_left' length_bytes]
  have height : (message o ty flags seq fixed attrs).drop 8 =
      bytes o 4 seq.toNat ++ (zeros 4 ++ (fixed ++ encode o attrs)) := by
    rw [← List.drop_drop (i := 2) (j := 6), hsix, List.drop_left' length_bytes]
  have htwelve : (message o ty flags seq fixed attrs).drop 12 = zeros 4 ++ (fixed ++ encode o attrs) := by
    rw [← List.drop_drop (i := 4) (j := 8), height, List.drop_left' length_bytes]
  rw [parse, if_pos hle, hrest, decode_encode hattrs, hfixed, hfour, hsix, height, htwelve,
    value_take hty, value_take hflags, value_take hseq, List.take_left' (length_zeros 4), hzero, length_message]
  rw [hflat, value_take hlen]
  rfl

end Message

/-! ### The fixed parts -/

/-- `u32_at`. -/
def u32At (o : ByteOrder) (b : List UInt8) (pos : ℕ) : ℕ := value o ((b.drop pos).take 4)

/-- `i32_at`. -/
def i32At (o : ByteOrder) (b : List UInt8) (pos : ℕ) : Int32 := .ofBitVec (BitVec.ofNat 32 (u32At o b pos))

section Fixed

variable (o : ByteOrder)

/-- A struct ifinfomsg of no family and no device type. -/
def ifinfomsg (index flags change : ℕ) : List UInt8 :=
  zeros 4 ++ (bytes o 4 index ++ (bytes o 4 flags ++ bytes o 4 change))

/-- A struct tcmsg of no family. -/
def tcmsg (ifindex handle parent info : ℕ) : List UInt8 :=
  zeros 4 ++ (bytes o 4 ifindex ++ (bytes o 4 handle ++ (bytes o 4 parent ++ bytes o 4 info)))

/-- A struct ifaddrmsg of IPv4. -/
def ifaddrmsg (prefixLen : UInt8) (index : ℕ) : List UInt8 := [2, prefixLen, 0, 0] ++ bytes o 4 index

/-- A struct rtmsg of an IPv4 default route. -/
def rtmsg (table protocol scope ty : UInt8) (flags : ℕ) : List UInt8 :=
  [2, 0, 0, 0, table, protocol, scope, ty] ++ bytes o 4 flags

end Fixed

section Built

variable {o : ByteOrder} {seq : UInt32}

theorem nlhdr_zeros {len ty flags : ℕ} {rest : List UInt8} :
    nlhdr o (zeros 16 ++ rest) len ty flags seq = some (header o len ty flags seq ++ rest) := by
  have hroom : zeros 16 = zeros 4 ++ (zeros 2 ++ (zeros 2 ++ (zeros 4 ++ zeros 4))) := rfl
  simp [nlhdr, header, hroom, write_skip, write_here, List.append_assoc]

theorem putNla_zeros {ty n : ℕ} {rest : List UInt8} :
    putNla o (zeros 4 ++ rest) ty n = some (bytes o 2 (4 + n) ++ (bytes o 2 ty ++ rest)) := by
  have hroom : zeros 4 = zeros 2 ++ zeros 2 := rfl
  simp [putNla, hroom, write_skip, write_here, List.append_assoc]

theorem setLinkUpMsg_eq (idx : UInt32) :
    setLinkUpMsg o idx seq = some (message o 16 5 seq (ifinfomsg o idx.toNat iffUp iffUp) []) := by
  have hroom : zeros 32 = zeros 16 ++ (zeros 4 ++ (zeros 4 ++ (zeros 4 ++ zeros 4))) := rfl
  simp [setLinkUpMsg, hroom, nlhdr_zeros, write_skip, write_here, write_all, length_header, message, ifinfomsg, encode]

theorem setLinkNetnsFdMsg_eq (idx : UInt32) (netnsFd : Int32) :
    setLinkNetnsFdMsg o idx netnsFd seq = some (message o 16 5 seq (ifinfomsg o idx.toNat 0 0)
      [⟨28, bytes o 4 netnsFd.toBitVec.toNat⟩]) := by
  have hroom : zeros 40 = zeros 16 ++ (zeros 4 ++ (zeros 4 ++ (zeros 4 ++ (zeros 4 ++ (zeros 4 ++ zeros 4))))) := rfl
  simp [setLinkNetnsFdMsg, hroom, nlhdr_zeros, putNla_zeros, write_skip, write_here, write_all, onTail_skip,
    onTail_zero, length_header, message, ifinfomsg, encode, Attr.encode, Attr.len, align4, bytes_zero]

theorem ingressQdiscMsg_eq (ty flags : ℕ) (ifindex : UInt32) :
    ingressQdiscMsg o ty flags ifindex seq = some (message o ty flags seq
      (tcmsg o ifindex.toNat 0xFFFF0000 0xFFFFFFF1 0) [⟨1, asBytes "ingress" ++ [0]⟩]) := by
  have hkind : (asBytes "ingress").length = 7 := rfl
  have hfamily : ∀ l : List UInt8, 0 :: (zeros 3 ++ l) = zeros 4 ++ l := fun _ => rfl
  have hroom : zeros 48 = zeros 16 ++ (zeros 1 ++ (zeros 3 ++ (zeros 4 ++ (zeros 4 ++ (zeros 4 ++ (zeros 4 ++
    (zeros 4 ++ zeros 8))))))) := rfl
  simp [ingressQdiscMsg, hkind, hroom, nlhdr_zeros, putNla_zeros, write_skip, write_here, write_all, onTail_skip,
    onTail_zero, length_header, message, tcmsg, encode, Attr.encode, Attr.len, align4, bytes_zero, hfamily]

theorem addAddressMsg_eq (ifindex : UInt32) (ip : Ipv4Addr) (prefixLen : UInt8) :
    addAddressMsg o ifindex ip prefixLen seq = some (message o 20 0x605 seq
      (ifaddrmsg o prefixLen ifindex.toNat) [⟨2, ip.octets⟩, ⟨1, ip.octets⟩]) := by
  have hoctets : ip.octets.length = 4 := rfl
  have hroom : zeros 40 = zeros 16 ++ (zeros 1 ++ (zeros 1 ++ (zeros 1 ++ (zeros 1 ++ (zeros 4 ++ (zeros 4 ++
    (zeros 4 ++ (zeros 4 ++ zeros 4)))))))) := rfl
  simp [addAddressMsg, hoctets, hroom, nlhdr_zeros, putNla_zeros, write_skip, write_cons, write_here, write_all,
    onTail_skip, onTail_cons, onTail_zero, length_header, message, ifaddrmsg, encode, Attr.encode, Attr.len, align4]

theorem addDefaultRouteMsg_eq (gateway : Ipv4Addr) (ifindex : UInt32) :
    addDefaultRouteMsg o gateway ifindex seq = some (message o 24 0x505 seq (rtmsg o 254 3 0 1 4)
      [⟨5, gateway.octets⟩, ⟨4, bytes o 4 ifindex.toNat⟩]) := by
  have hoctets : gateway.octets.length = 4 := rfl
  have hroom : zeros 44 = zeros 16 ++ (zeros 1 ++ (zeros 1 ++ (zeros 1 ++ (zeros 1 ++ (zeros 1 ++ (zeros 1 ++
    (zeros 1 ++ (zeros 1 ++ (zeros 4 ++ (zeros 4 ++ (zeros 4 ++ (zeros 4 ++ zeros 4)))))))))))) := rfl
  simp [addDefaultRouteMsg, hoctets, hroom, nlhdr_zeros, putNla_zeros, write_skip, write_cons, write_here, write_all,
    onTail_skip, onTail_cons, onTail_zero, length_header, message, rtmsg, encode, Attr.encode, Attr.len, align4]

theorem getLinkIndexMsg_eq (name : String) :
    getLinkIndexMsg o name seq = some (message o 18 5 seq (ifinfomsg o 0 0 0) [⟨3, asBytes name ++ [0]⟩]) := by
  set nb := asBytes name with hnb
  set pad := align4 (4 + nb.length + 1) - (4 + nb.length + 1) with hpad
  have hle := le_align4 (4 + nb.length + 1)
  have htotal : 16 + 16 + align4 (4 + nb.length + 1) = 16 + (16 + (4 + (nb.length + (1 + pad)))) := by omega
  have hroom : zeros (16 + 16 + align4 (4 + nb.length + 1)) =
      zeros 16 ++ (zeros 16 ++ (zeros 4 ++ (zeros nb.length ++ (zeros 1 ++ zeros pad)))) := by
    rw [htotal]
    simp only [zeros_add]
  have hfixed : ifinfomsg o 0 0 0 = zeros 16 := by
    simp only [ifinfomsg, bytes_zero]
    rfl
  have hlen : (⟨3, nb ++ [0]⟩ : Attr).len = 4 + nb.length + 1 := by
    rw [Attr.len, List.length_append]
    rfl
  have hsum : 16 + (zeros 16).length + (encode o [⟨3, nb ++ [0]⟩]).length = 16 + 16 + align4 (4 + nb.length + 1) := by
    rw [length_zeros, encode, List.flatMap_singleton, Attr.length_encode, hlen]
  have hattr : encode o [⟨3, nb ++ [0]⟩] =
      bytes o 2 (4 + (nb.length + 1)) ++ (bytes o 2 3 ++ (nb ++ (zeros 1 ++ zeros pad))) := by
    rw [encode, List.flatMap_singleton, Attr.encode, hlen, List.append_assoc]
    rfl
  rw [message, hfixed, hsum, hattr]
  simp [getLinkIndexMsg, ← hnb, hroom, nlhdr_zeros, putNla_zeros, write_skip, write_here, onTail_skip, onTail_zero,
    length_header]

/-! ### The filter -/

/-- A string goes to an aligned end of the buffer as an attribute. -/
theorem pushNlaStr_eq {buf : List UInt8} {ty : ℕ} {s : String} (h : buf.length % 4 = 0) :
    pushNlaStr o buf ty s = buf ++ (⟨ty, asBytes s ++ [0]⟩ : Attr).encode o := by
  have hlen : (⟨ty, asBytes s ++ [0]⟩ : Attr).len = 4 + (asBytes s).length + 1 := by
    rw [Attr.len, List.length_append]
    rfl
  have hall : (buf ++ bytes o 2 (4 + (asBytes s).length + 1) ++ bytes o 2 ty ++ asBytes s ++ [0]).length =
      buf.length + (4 + (asBytes s).length + 1) := by
    simp only [List.length_append, length_bytes, List.length_cons, List.length_nil]
    omega
  have hpad : align4 (buf.length + (4 + (asBytes s).length + 1)) - (buf.length + (4 + (asBytes s).length + 1)) =
      align4 (4 + (asBytes s).length + 1) - (4 + (asBytes s).length + 1) := by
    unfold align4
    omega
  show pad4 _ = _
  rw [pad4, hall, hpad]
  simp only [Attr.encode, hlen, List.append_assoc]

/-- The header of an attribute is filled in when its payload is there. -/
theorem closeAttr_eq {buf : List UInt8} {start ty : ℕ} (pre body : List UInt8)
    (hbuf : buf = pre ++ (zeros 4 ++ body)) (hstart : start = pre.length) (hbody : body.length % 4 = 0) :
    closeAttr o buf start ty = some (pre ++ (⟨ty, body⟩ : Attr).encode o) := by
  subst hbuf hstart
  have hroom : zeros 4 = zeros 2 ++ zeros 2 := rfl
  have hlen : (pre ++ (zeros 4 ++ body)).length - pre.length = 4 + body.length := by
    rw [List.length_append, List.length_append, length_zeros]
    omega
  have hpad : align4 (4 + body.length) - (4 + body.length) = 0 := by
    unfold align4
    omega
  unfold closeAttr
  rw [hlen, hroom]
  simp [write_skip, write_here, Attr.encode, Attr.len, hpad, List.append_assoc]

theorem some_then {α β : Type} {x : Option α} {f : α → Option β} {a : α} {r : Option β} (hx : x = some a)
    (hf : f a = r) : (x >>= f) = r := by
  rw [hx]
  exact hf

/-- TCA_MIRRED_PARMS. -/
def parmsAttr (o : ByteOrder) (dstIdx : UInt32) : Attr :=
  ⟨2, bytes o 4 0 ++ bytes o 4 0 ++ bytes o 4 4 ++ bytes o 4 0 ++ bytes o 4 0 ++ bytes o 4 1 ++
    bytes o 4 dstIdx.toNat⟩

/-- The attributes of one mirred action; its options carry NLA_F_NESTED. -/
def mirredAttrs (o : ByteOrder) (dstIdx : UInt32) : List Attr :=
  [⟨1, asBytes "mirred" ++ [0]⟩, ⟨0x8002, encode o [parmsAttr o dstIdx]⟩]

/-- TCA_U32_SEL: one key that matches everything. -/
def selAttr : Attr := ⟨5, [1, 0, 1] ++ zeros 29⟩

/-- The attributes in TCA_OPTIONS. -/
def filterOptions (o : ByteOrder) (dstIdx : UInt32) : List Attr :=
  [⟨7, encode o [⟨1, encode o (mirredAttrs o dstIdx)⟩]⟩, selAttr]

def filterAttrs (o : ByteOrder) (dstIdx : UInt32) : List Attr :=
  [⟨1, asBytes "u32" ++ [0]⟩, ⟨2, encode o (filterOptions o dstIdx)⟩]

theorem addRedirectFilterMsg_eq (srcIdx dstIdx : UInt32) :
    addRedirectFilterMsg o srcIdx dstIdx seq = some (message o 44 0x605 seq
      (tcmsg o srcIdx.toNat 0 0xFFFF0000 (toBe16 o 3)) (filterAttrs o dstIdx)) := by
  have htc : (filterTcmsg o srcIdx).length % 4 = 0 := by
    simp [filterTcmsg]
  -- the buffer before the options, and the attributes in them from the inside out
  set head := filterTcmsg o srcIdx ++ (⟨1, asBytes "u32" ++ [0]⟩ : Attr).encode o with hhead
  have hheadLen : head.length % 4 = 0 := by
    have := Attr.encode_aligned o ⟨1, asBytes "u32" ++ [0]⟩
    rw [hhead, List.length_append]
    omega
  set parms := encode o [parmsAttr o dstIdx]
  set mirred := encode o (mirredAttrs o dstIdx)
  set tab := encode o [⟨1, mirred⟩]
  set options := encode o (filterOptions o dstIdx)
  have hparms : mirredParms o dstIdx = parms := by
    simp [mirredParms, parms, encode, parmsAttr, Attr.encode, Attr.len, align4]
  have hmirred : pushNlaStr o (head ++ zeros 4 ++ zeros 4 ++ zeros 4) 1 "mirred" =
      head ++ zeros 4 ++ zeros 4 ++ zeros 4 ++ (⟨1, asBytes "mirred" ++ [0]⟩ : Attr).encode o := by
    refine pushNlaStr_eq ?_
    simp only [List.length_append, length_zeros]
    omega
  have hbuf : head ++ (⟨2, options⟩ : Attr).encode o = zeros 16 ++
      (tcmsg o srcIdx.toNat 0 0xFFFF0000 (toBe16 o 3) ++ encode o (filterAttrs o dstIdx)) := by
    have hfamily : ∀ l : List UInt8, [0] ++ (zeros 3 ++ l) = zeros 4 ++ l := fun _ => rfl
    rw [show encode o (filterAttrs o dstIdx) = _ from encode_two o _ _]
    simp only [hhead, filterTcmsg, tcmsg, List.append_assoc, hfamily]
    rfl
  unfold addRedirectFilterMsg
  rw [pushNlaStr_eq htc]
  dsimp only
  rw [← hhead, hmirred, hparms]
  refine some_then (closeAttr_eq _ parms (List.append_assoc _ _ _) rfl (encode_aligned o _)) ?_
  refine some_then (closeAttr_eq (head ++ zeros 4 ++ zeros 4) mirred ?_ rfl (encode_aligned o _)) ?_
  · have hpair : mirred = (⟨1, asBytes "mirred" ++ [0]⟩ : Attr).encode o ++ (⟨2 ||| 0x8000, parms⟩ : Attr).encode o :=
      encode_two o _ _
    rw [hpair]
    simp only [List.append_assoc]
  refine some_then (closeAttr_eq (head ++ zeros 4) tab ?_ rfl (encode_aligned o _)) ?_
  · rw [show tab = _ from encode_one o _]
    simp only [List.append_assoc]
  refine some_then rfl (some_then rfl ?_)
  refine some_then (closeAttr_eq (head ++ zeros 4 ++ (⟨7, tab⟩ : Attr).encode o) selAttr.payload ?_ rfl rfl) ?_
  · simp only [List.append_assoc]
    rfl
  refine some_then (closeAttr_eq head options ?_ rfl (encode_aligned o _)) ?_
  · rw [show options = _ from encode_two o _ _]
    simp only [List.append_assoc]
    rfl
  rw [hbuf, nlhdr_zeros, message]
  simp only [List.length_append, length_zeros, Nat.add_assoc]

end Built

/-! ### What the messages say -/

/-- A string that a NUL ends. -/
def cString (p : List UInt8) : List UInt8 := p.takeWhile (· ≠ 0)

/-- The buffer is a message of this kind and this number: the length in its header is that of the buffer, its
attributes fill the rest, and its parts are as `P` says. -/
def Says (o : ByteOrder) (n : ℕ) (built : Option (List UInt8)) (ty flags : ℕ) (seq : UInt32)
    (P : List UInt8 → List Attr → Prop) : Prop :=
  ∃ b m, built = some b ∧ parse o n b = some m ∧ m.len = b.length ∧ m.ty = ty ∧ m.flags = flags ∧
    m.seq = seq.toNat ∧ m.pid = 0 ∧ P m.fixed m.attrs

section Says

variable {o : ByteOrder} {seq : UInt32}

theorem says_message {n ty flags : ℕ} {fixed : List UInt8} {attrs : List Attr} {built : Option (List UInt8)}
    {P : List UInt8 → List Attr → Prop} (hb : built = some (message o ty flags seq fixed attrs))
    (hn : fixed.length = n) (hty : ty < 256 ^ 2) (hflags : flags < 256 ^ 2) (hattrs : ∀ a ∈ attrs, a.Fits)
    (hlen : 16 + fixed.length + (encode o attrs).length < 256 ^ 4) (hP : P fixed attrs) :
    Says o n built ty flags seq P :=
  ⟨_, _, hb, parse_message hn hty hflags hattrs hlen, rfl, rfl, rfl, rfl, rfl, hP⟩

theorem u32At_skip {pre b : List UInt8} {pos : ℕ} (h : pre.length ≤ pos) :
    u32At o (pre ++ b) pos = u32At o b (pos - pre.length) := by
  obtain ⟨k, rfl⟩ := Nat.exists_eq_add_of_le h
  rw [u32At, u32At, List.drop_length_add_append, Nat.add_sub_cancel_left]

theorem u32At_here {n : ℕ} (h : n < 256 ^ 4) (rest : List UInt8) : u32At o (bytes o 4 n ++ rest) 0 = n := by
  rw [u32At, List.drop_zero, value_take h]

theorem u32At_all {n : ℕ} (h : n < 256 ^ 4) : u32At o (bytes o 4 n) 0 = n := by
  have hh := u32At_here (o := o) h []
  rwa [List.append_nil] at hh

theorem i32At_all (x : Int32) : i32At o (bytes o 4 x.toBitVec.toNat) 0 = x := by
  have hx : u32At o (bytes o 4 x.toBitVec.toNat) 0 = x.toBitVec.toNat := u32At_all x.toBitVec.isLt
  rw [i32At, hx, BitVec.ofNat_toNat, BitVec.setWidth_eq]
  exact Int32.ofBitVec_toBitVec x

/-- The numbers of an ifinfomsg. -/
theorem ifinfomsg_at {index flags change : ℕ} (hi : index < 256 ^ 4) (hf : flags < 256 ^ 4) (hc : change < 256 ^ 4) :
    u32At o (ifinfomsg o index flags change) 4 = index ∧ u32At o (ifinfomsg o index flags change) 8 = flags ∧
      u32At o (ifinfomsg o index flags change) 12 = change := by
  refine ⟨?_, ?_, ?_⟩
  · simp [ifinfomsg, u32At_skip, u32At_here hi]
  · simp [ifinfomsg, u32At_skip, u32At_here hf]
  · simp [ifinfomsg, u32At_skip, u32At_all hc]

/-- The numbers of a tcmsg. -/
theorem tcmsg_at {ifindex handle parent info : ℕ} (hi : ifindex < 256 ^ 4) (hh : handle < 256 ^ 4)
    (hp : parent < 256 ^ 4) (hn : info < 256 ^ 4) :
    u32At o (tcmsg o ifindex handle parent info) 4 = ifindex ∧ u32At o (tcmsg o ifindex handle parent info) 8 = handle ∧
      u32At o (tcmsg o ifindex handle parent info) 12 = parent ∧
      u32At o (tcmsg o ifindex handle parent info) 16 = info := by
  refine ⟨?_, ?_, ?_, ?_⟩
  · simp [tcmsg, u32At_skip, u32At_here hi]
  · simp [tcmsg, u32At_skip, u32At_here hh]
  · simp [tcmsg, u32At_skip, u32At_here hp]
  · simp [tcmsg, u32At_skip, u32At_all hn]

theorem getLinkIndexMsg_says {name : String} (hnul : 0 ∉ asBytes name) (hfit : 4 + (asBytes name).length + 1 < 256 ^ 2) :
    Says o 16 (getLinkIndexMsg o name seq) 18 5 seq fun fixed attrs => fixed = zeros 16 ∧
      ∃ p, attrs = [⟨3, p⟩] ∧ cString p = asBytes name := by
  have hattr : (⟨3, asBytes name ++ [0]⟩ : Attr).Fits := by
    refine ⟨?_, show 3 < 256 ^ 2 by decide⟩
    rw [Attr.len, List.length_append]
    exact hfit
  have hsize : (encode o [⟨3, asBytes name ++ [0]⟩]).length < 256 ^ 2 + 4 := by
    rw [encode_one, Attr.length_encode, align4]
    have := hattr.1
    omega
  have hname : cString (asBytes name ++ [0]) = asBytes name := by
    rw [cString, List.takeWhile_append_of_pos]
    · exact List.append_nil _
    · intro c hc
      exact decide_eq_true fun h => hnul (h ▸ hc)
  have hfixed : (ifinfomsg o 0 0 0).length = 16 := by simp [ifinfomsg]
  refine says_message (getLinkIndexMsg_eq name) hfixed (by decide) (by decide) ?_ ?_ ⟨?_, _, rfl, hname⟩
  · intro a ha
    rw [List.mem_singleton.mp ha]
    exact hattr
  · omega
  · simp only [ifinfomsg, bytes_zero]
    rfl

theorem setLinkNetnsFdMsg_says (idx : UInt32) (netnsFd : Int32) :
    Says o 16 (setLinkNetnsFdMsg o idx netnsFd seq) 16 5 seq fun fixed attrs => u32At o fixed 4 = idx.toNat ∧
      ∃ p, attrs = [⟨28, p⟩] ∧ p.length = 4 ∧ i32At o p 0 = netnsFd := by
  refine says_message (setLinkNetnsFdMsg_eq idx netnsFd) (by simp [ifinfomsg]) (by decide) (by decide) ?_ ?_
    ⟨(ifinfomsg_at idx.toNat_lt (by decide) (by decide)).1, _, rfl, length_bytes, i32At_all netnsFd⟩
  · simp [Attr.Fits, Attr.len]
  · simp [ifinfomsg, encode_one, Attr.length_encode, Attr.len, align4]

theorem setLinkUpMsg_says (idx : UInt32) :
    Says o 16 (setLinkUpMsg o idx seq) 16 5 seq fun fixed attrs => u32At o fixed 4 = idx.toNat ∧
      u32At o fixed 8 = iffUp ∧ u32At o fixed 12 = iffUp ∧ attrs = [] := by
  obtain ⟨hi, hf, hc⟩ := ifinfomsg_at (o := o) idx.toNat_lt (show iffUp < 256 ^ 4 by decide)
    (show iffUp < 256 ^ 4 by decide)
  refine says_message (setLinkUpMsg_eq idx) (by simp [ifinfomsg]) (by decide) (by decide) ?_ ?_ ⟨hi, hf, hc, rfl⟩
  · simp
  · simp [ifinfomsg, encode]

theorem addAddressMsg_says (ifindex : UInt32) (ip : Ipv4Addr) (prefixLen : UInt8) :
    Says o 8 (addAddressMsg o ifindex ip prefixLen seq) 20 0x605 seq fun fixed attrs =>
      fixed.take 4 = [2, prefixLen, 0, 0] ∧ u32At o fixed 4 = ifindex.toNat ∧
      attrs = [⟨2, ip.octets⟩, ⟨1, ip.octets⟩] := by
  have hidx : u32At o (ifaddrmsg o prefixLen ifindex.toNat) 4 = ifindex.toNat := by
    rw [ifaddrmsg, u32At_skip (by rfl)]
    exact u32At_all ifindex.toNat_lt
  refine says_message (addAddressMsg_eq ifindex ip prefixLen) (by simp [ifaddrmsg]) (by decide) (by decide) ?_ ?_
    ⟨rfl, hidx, rfl⟩
  · simp [Attr.Fits, Attr.len, Ipv4Addr.octets]
  · simp [ifaddrmsg, encode_two, Attr.length_encode, Attr.len, align4, Ipv4Addr.octets]

theorem addDefaultRouteMsg_says (gateway : Ipv4Addr) (ifindex : UInt32) :
    Says o 12 (addDefaultRouteMsg o gateway ifindex seq) 24 0x505 seq fun fixed attrs =>
      fixed.take 8 = [2, 0, 0, 0, 254, 3, 0, 1] ∧ u32At o fixed 8 = 4 ∧
      ∃ p, attrs = [⟨5, gateway.octets⟩, ⟨4, p⟩] ∧ p.length = 4 ∧ u32At o p 0 = ifindex.toNat := by
  have hflags : u32At o (rtmsg o 254 3 0 1 4) 8 = 4 := by
    rw [rtmsg, u32At_skip (by rfl)]
    exact u32At_all (by decide)
  refine says_message (addDefaultRouteMsg_eq gateway ifindex) (by simp [rtmsg]) (by decide) (by decide) ?_ ?_
    ⟨rfl, hflags, _, rfl, length_bytes, u32At_all ifindex.toNat_lt⟩
  · simp [Attr.Fits, Attr.len, Ipv4Addr.octets]
  · simp [rtmsg, encode_two, Attr.length_encode, Attr.len, align4, Ipv4Addr.octets]

theorem ingressQdiscMsg_says {ty flags : ℕ} (hty : ty < 256 ^ 2) (hflags : flags < 256 ^ 2) (ifindex : UInt32) :
    Says o 20 (ingressQdiscMsg o ty flags ifindex seq) ty flags seq fun fixed attrs =>
      u32At o fixed 4 = ifindex.toNat ∧ u32At o fixed 8 = 0xFFFF0000 ∧ u32At o fixed 12 = 0xFFFFFFF1 ∧
      attrs = [⟨1, asBytes "ingress" ++ [0]⟩] := by
  obtain ⟨hi, hh, hp, -⟩ := tcmsg_at (o := o) ifindex.toNat_lt (show 0xFFFF0000 < 256 ^ 4 by decide)
    (show 0xFFFFFFF1 < 256 ^ 4 by decide) (show 0 < 256 ^ 4 by decide)
  have hkind : (⟨1, asBytes "ingress" ++ [0]⟩ : Attr).len = 12 := rfl
  refine says_message (ingressQdiscMsg_eq ty flags ifindex) (by simp [tcmsg]) hty hflags ?_ ?_ ⟨hi, hh, hp, rfl⟩
  · intro a ha
    rw [List.mem_singleton.mp ha]
    exact ⟨by rw [hkind]; decide, by decide⟩
  · simp [tcmsg, encode_one, Attr.length_encode, hkind, align4]

/-- The attributes of the filter fit, at every level. -/
theorem filter_fits (dstIdx : UInt32) : (parmsAttr o dstIdx).Fits ∧ (∀ a ∈ mirredAttrs o dstIdx, a.Fits) ∧
    (⟨1, encode o (mirredAttrs o dstIdx)⟩ : Attr).Fits ∧ (∀ a ∈ filterOptions o dstIdx, a.Fits) ∧
    (∀ a ∈ filterAttrs o dstIdx, a.Fits) ∧ (encode o (filterAttrs o dstIdx)).length = 104 := by
  have hparms : (parmsAttr o dstIdx).len = 32 := by simp [parmsAttr, Attr.len]
  have hkind : (⟨1, asBytes "mirred" ++ [0]⟩ : Attr).len = 11 := rfl
  have hopts : (⟨0x8002, encode o [parmsAttr o dstIdx]⟩ : Attr).len = 36 := by
    rw [Attr.len, encode_one, Attr.length_encode, hparms]
    rfl
  have htab : (⟨1, encode o (mirredAttrs o dstIdx)⟩ : Attr).len = 52 := by
    rw [Attr.len, mirredAttrs, encode_two, List.length_append, Attr.length_encode, Attr.length_encode, hkind, hopts]
    rfl
  have hact : (⟨7, encode o [⟨1, encode o (mirredAttrs o dstIdx)⟩]⟩ : Attr).len = 56 := by
    rw [Attr.len, encode_one, Attr.length_encode, htab]
    rfl
  have hsel : selAttr.len = 36 := rfl
  have hu32 : (⟨1, asBytes "u32" ++ [0]⟩ : Attr).len = 8 := rfl
  have hall : (⟨2, encode o (filterOptions o dstIdx)⟩ : Attr).len = 96 := by
    rw [Attr.len, filterOptions, encode_two, List.length_append, Attr.length_encode, Attr.length_encode, hact, hsel]
    rfl
  have hlen : (encode o (filterAttrs o dstIdx)).length = 104 := by
    rw [filterAttrs, encode_two, List.length_append, Attr.length_encode, Attr.length_encode, hu32, hall]
    rfl
  have hfits : ∀ {ty n : ℕ} {p : List UInt8}, (⟨ty, p⟩ : Attr).len = n → n < 256 ^ 2 → ty < 256 ^ 2 →
      (⟨ty, p⟩ : Attr).Fits := by
    intro ty n p hp hn hty
    exact ⟨hp ▸ hn, hty⟩
  have hparms' : (parmsAttr o dstIdx).Fits := ⟨hparms ▸ (by decide : 32 < 256 ^ 2), (by decide : 2 < 256 ^ 2)⟩
  refine ⟨hparms', ?_, hfits htab (by decide) (by decide), ?_, ?_, hlen⟩
  · rintro a (_ | ⟨_, _ | ⟨_, ⟨⟩⟩⟩)
    · exact hfits hkind (by decide) (by decide)
    · exact hfits hopts (by decide) (by decide)
  · rintro a (_ | ⟨_, _ | ⟨_, ⟨⟩⟩⟩)
    · exact hfits hact (by decide) (by decide)
    · exact hfits hsel (by decide) (by decide)
  · rintro a (_ | ⟨_, _ | ⟨_, ⟨⟩⟩⟩)
    · exact hfits hu32 (by decide) (by decide)
    · exact hfits hall (by decide) (by decide)

theorem addRedirectFilterMsg_says (srcIdx dstIdx : UInt32) :
    Says o 20 (addRedirectFilterMsg o srcIdx dstIdx seq) 44 0x605 seq fun fixed attrs =>
      u32At o fixed 4 = srcIdx.toNat ∧ u32At o fixed 8 = 0 ∧ u32At o fixed 12 = 0xFFFF0000 ∧
      u32At o fixed 16 = toBe16 o 3 ∧
      ∃ options actions tab actOptions parms sel, attrs = [⟨1, asBytes "u32" ++ [0]⟩, ⟨2, options⟩] ∧
        decode o options = some [⟨7, actions⟩, ⟨5, sel⟩] ∧ decode o actions = some [⟨1, tab⟩] ∧
        decode o tab = some [⟨1, asBytes "mirred" ++ [0]⟩, ⟨0x8002, actOptions⟩] ∧
        decode o actOptions = some [⟨2, parms⟩] ∧ parms.length = 28 ∧ u32At o parms 24 = dstIdx.toNat := by
  obtain ⟨hparms, hmirred, htab, hoptions, hattrs, hlen⟩ := filter_fits (o := o) dstIdx
  have hinfo : toBe16 o 3 < 256 ^ 4 := by cases o <;> decide
  obtain ⟨hi, hh, hp, hn⟩ := tcmsg_at (o := o) srcIdx.toNat_lt (show 0 < 256 ^ 4 by decide)
    (show 0xFFFF0000 < 256 ^ 4 by decide) hinfo
  have hdst : u32At o (parmsAttr o dstIdx).payload 24 = dstIdx.toNat := by
    have hpre : (bytes o 4 0 ++ bytes o 4 0 ++ bytes o 4 4 ++ bytes o 4 0 ++ bytes o 4 0 ++ bytes o 4 1).length = 24 := by
      simp
    rw [parmsAttr, u32At_skip (by rw [hpre]), hpre]
    exact u32At_all dstIdx.toNat_lt
  have hsize : (tcmsg o srcIdx.toNat 0 0xFFFF0000 (toBe16 o 3)).length = 20 := by simp [tcmsg]
  refine says_message (addRedirectFilterMsg_eq srcIdx dstIdx) hsize (by decide) (by decide) hattrs ?_
    ⟨hi, hh, hp, hn, _, _, _, _, _, _, rfl, decode_encode hoptions, decode_encode ?_, decode_encode hmirred,
      decode_encode ?_, ?_, hdst⟩
  · rw [hsize, hlen]
    decide
  · intro a ha
    rw [List.mem_singleton.mp ha]
    exact htab
  · intro a ha
    rw [List.mem_singleton.mp ha]
    exact hparms
  · simp

end Says

/-- **The messages are well formed and say what their arguments say**, in either byte order. -/
theorem messages_say (o : ByteOrder) (seq : UInt32) :
    (∀ name, 0 ∉ asBytes name → 4 + (asBytes name).length + 1 < 256 ^ 2 →
      Says o 16 (getLinkIndexMsg o name seq) 18 5 seq fun fixed attrs => fixed = zeros 16 ∧
        ∃ p, attrs = [⟨3, p⟩] ∧ cString p = asBytes name) ∧
    (∀ idx netnsFd, Says o 16 (setLinkNetnsFdMsg o idx netnsFd seq) 16 5 seq fun fixed attrs =>
      u32At o fixed 4 = idx.toNat ∧ ∃ p, attrs = [⟨28, p⟩] ∧ p.length = 4 ∧ i32At o p 0 = netnsFd) ∧
    (∀ idx, Says o 16 (setLinkUpMsg o idx seq) 16 5 seq fun fixed attrs =>
      u32At o fixed 4 = idx.toNat ∧ u32At o fixed 8 = iffUp ∧ u32At o fixed 12 = iffUp ∧ attrs = []) ∧
    (∀ ifindex ip prefixLen, Says o 8 (addAddressMsg o ifindex ip prefixLen seq) 20 0x605 seq fun fixed attrs =>
      fixed.take 4 = [2, prefixLen, 0, 0] ∧ u32At o fixed 4 = ifindex.toNat ∧
      attrs = [⟨2, ip.octets⟩, ⟨1, ip.octets⟩]) ∧
    (∀ gateway ifindex, Says o 12 (addDefaultRouteMsg o gateway ifindex seq) 24 0x505 seq fun fixed attrs =>
      fixed.take 8 = [2, 0, 0, 0, 254, 3, 0, 1] ∧ u32At o fixed 8 = 4 ∧
      ∃ p, attrs = [⟨5, gateway.octets⟩, ⟨4, p⟩] ∧ p.length = 4 ∧ u32At o p 0 = ifindex.toNat) ∧
    (∀ ifindex, Says o 20 (addIngressQdiscMsg o ifindex seq) 36 0x605 seq fun fixed attrs =>
      u32At o fixed 4 = ifindex.toNat ∧ u32At o fixed 8 = 0xFFFF0000 ∧ u32At o fixed 12 = 0xFFFFFFF1 ∧
      attrs = [⟨1, asBytes "ingress" ++ [0]⟩]) ∧
    (∀ ifindex, Says o 20 (delIngressQdiscMsg o ifindex seq) 37 5 seq fun fixed attrs =>
      u32At o fixed 4 = ifindex.toNat ∧ u32At o fixed 8 = 0xFFFF0000 ∧ u32At o fixed 12 = 0xFFFFFFF1 ∧
      attrs = [⟨1, asBytes "ingress" ++ [0]⟩]) ∧
    ∀ srcIdx dstIdx, Says o 20 (addRedirectFilterMsg o srcIdx dstIdx seq) 44 0x605 seq fun fixed attrs =>
      u32At o fixed 4 = srcIdx.toNat ∧ u32At o fixed 8 = 0 ∧ u32At o fixed 12 = 0xFFFF0000 ∧
      u32At o fixed 16 = toBe16 o 3 ∧
      ∃ options actions tab actOptions parms sel, attrs = [⟨1, asBytes "u32" ++ [0]⟩, ⟨2, options⟩] ∧
        decode o options = some [⟨7, actions⟩, ⟨5, sel⟩] ∧ decode o actions = some [⟨1, tab⟩] ∧
        decode o tab = some [⟨1, asBytes "mirred" ++ [0]⟩, ⟨0x8002, actOptions⟩] ∧
        decode o actOptions = some [⟨2, parms⟩] ∧ parms.length = 28 ∧ u32At o parms 24 = dstIdx.toNat :=
  ⟨fun _ hnul hfit => getLinkIndexMsg_says hnul hfit, setLinkNetnsFdMsg_says, setLinkUpMsg_says, addAddressMsg_says,
    addDefaultRouteMsg_says, ingressQdiscMsg_says (by decide) (by decide), ingressQdiscMsg_says (by decide) (by decide),
    addRedirectFilterMsg_says⟩

theorem messages_say_eth0 : Says .little 16 (getLinkIndexMsg .little "eth0" 7) 18 5 7 fun fixed attrs =>
    fixed = zeros 16 ∧ ∃ p, attrs = [⟨3, p⟩] ∧ cString p = asBytes "eth0" :=
  (messages_say .little 7).1 "eth0" (by decide) (by decide)

end CloudHv.Netlink
