import CloudHv.Common.Nlas
import CloudHv.Lib.Refine

/-!
# RawMethods — the methods of the handle, on bytes

`Socket` has the methods of `Netlink` on messages as records.  Here they are as the code has them: each builds its
message, and reads what comes back at its offsets.  On a kernel whose datagrams say the records of a `Kernel`, all
calls on the handle return what `Socket` says (`methods_refine`).
-/

namespace CloudHv.Netlink.Raw

open Wire Walk Refine

/-! ### The socket -/

/-- A kernel that is sent bytes: the error of the `send`, or what there is to receive after it. -/
structure RawKernel (κ : Type) where
  send : κ → List UInt8 → Except ℕ (List (Except ℕ (List UInt8)) × κ)
  /-- The text of an error. -/
  strerror : ℕ → String

structure Sock (κ : Type) where
  seq : UInt32
  incoming : List (Except ℕ (List UInt8))
  kernel : κ

/-- `Netlink::open`. -/
def Sock.fresh {κ : Type} (k : κ) : Sock κ := ⟨1, [], k⟩

/-- Code is stuck when it panics, and when it waits for a datagram that does not come. -/
abbrev Code (κ : Type) := Low (Sock κ) NlError

/-- `buf[pos]`, of a position in the buffer. -/
def byteAt (b : List UInt8) (pos : ℕ) : UInt8 := b.getD pos 0

section Methods

variable {κ : Type} (o : ByteOrder) (B : RawKernel κ)

/-- `Netlink::seq`; the counter wraps, as in a release build. -/
def nextSeq : Code κ UInt32 := do
  let s ← get
  set { s with seq := s.seq + 1 }
  pure s.seq

def send (buf : List UInt8) : Code κ Unit := do
  let s ← get
  match B.send s.kernel buf with
  | .error e => throw ⟨"nl send", some e⟩
  | .ok (ds, k) => set { s with incoming := s.incoming ++ ds, kernel := k }

/-- `recv_buf` into a buffer of zeros: the buffer and the number of bytes received. -/
def recvBuf (size : ℕ) : Code κ (List UInt8 × ℕ) := do
  let s ← get
  match s.incoming with
  | [] => Low.stuck
  | .error e :: rest => do
    set { s with incoming := rest }
    throw ⟨"nl recv", some e⟩
  | .ok d :: rest => do
    set { s with incoming := rest }
    pure (d.take size ++ zeros (size - d.length), min size d.length)

/-- A walk over attributes. -/
def walked {ρ : Type} : Read (Option ρ) → Code κ ρ
  | .done (some x) _ => pure x
  | .done none _ | .panic => Low.stuck

/-- The code of an NLMSG_ERROR at the front of a datagram, and 0 for another one. -/
def errorCode (r : List UInt8) (n : ℕ) : Int32 := if 20 ≤ n ∧ u16At o r 4 = 2 then i32At o r 16 else 0

/-- An error number as `from_raw_os_error(-e)` has it. -/
def osError (e : Int32) : ℕ := (-e).toInt.toNat

def request (buf : List UInt8) : Code κ Unit := do
  send B buf
  let (r, n) ← recvBuf 4096
  let e := errorCode o r n
  if e ≠ 0 then throw ⟨"netlink request", some (osError e)⟩ else pure ()

/-- No datagram of up to 32768 bytes has more messages. -/
def maxRounds : ℕ := 2050

def dumped (buf : List UInt8) : Code κ (List (List UInt8)) := do
  send B buf
  let s ← get
  match dumpFrom o (fun e => B.strerror e.toInt.toNat) maxRounds s.incoming .empty [] with
  | .returned r rest => do
    set { s with incoming := rest }
    match r with
    | .ok msgs => pure msgs
    | .error e => throw e
  | .waits | .spins | .panics => Low.stuck

/-- A message with the next sequence number. -/
def build (msg : UInt32 → Option (List UInt8)) : Code κ (List UInt8) := do
  let seq ← nextSeq
  Low.ofOption (msg seq)

def ask (msg : UInt32 → Option (List UInt8)) : Code κ Unit := do
  let m ← build msg
  request o B m

def getLinkIndex (name : String) : Code κ ℕ := do
  let m ← build (getLinkIndexMsg o name)
  send B m
  let (r, n) ← recvBuf 4096
  let e := errorCode o r n
  if e ≠ 0 then throw ⟨"link " ++ name ++ ": " ++ B.strerror (osError e), none⟩
  else if n < 24 then throw ⟨"link " ++ name ++ " not found", none⟩
  else pure (u32At o r 20)

def delLinkMsg (idx : UInt32) (seq : UInt32) : Option (List UInt8) := do
  let m ← nlhdr o (zeros 32) 32 17 5 seq
  write m 20 (bytes o 4 idx.toNat)

def delLink (name : String) : Code κ Unit := do
  let idx ← getLinkIndex o B name
  ask o B (delLinkMsg o (UInt32.ofNat idx))

/-- The message of a dump of addresses or routes, which begins with AF_INET. -/
def inetDumpMsg (total ty : ℕ) (seq : UInt32) : Option (List UInt8) := do
  let m ← nlhdr o (zeros total) total ty 0x301 seq
  write m 16 [2]

def linksMsg (seq : UInt32) : Option (List UInt8) := nlhdr o (zeros 32) 32 18 0x301 seq

def addrsMsg : UInt32 → Option (List UInt8) := inetDumpMsg o 24 22

def routesMsg : UInt32 → Option (List UInt8) := inetDumpMsg o 28 26

def dumpOf (msg : UInt32 → Option (List UInt8)) : Code κ (List (List UInt8)) := do
  let m ← build msg
  dumped o B m

/-- The loop of `dump_links` at a message. -/
def linkIn (msg : List UInt8) : Code κ (Option LinkRec) :=
  if msg.length < 32 ∨ u16At o msg 4 ≠ 16 then pure none
  else do
    let (name, mac) ← walked (parseLinkNlas o (msg.drop 32))
    pure (some ⟨u32At o msg 20, name, mac⟩)

def dumpLinks : Code κ (List LinkRec) := do
  let msgs ← dumpOf o B (linksMsg o)
  Low.pick (linkIn o) msgs

def findByMac (mac : String) : Code κ (Option (String × ℕ)) := do
  let links ← dumpLinks o B
  pure ((links.find? fun l => l.mac.toLower = mac.toLower).map fun l => (l.name, l.idx))

/-- A message that the loops over addresses pass over. -/
def notAddress (msg : List UInt8) : Prop := msg.length < 24 ∨ u16At o msg 4 ≠ 20

instance (msg : List UInt8) : Decidable (notAddress o msg) := inferInstanceAs (Decidable (_ ∨ _))

/-- The loop of `get_ipv4` at a message. -/
def ipv4In (ifindex : ℕ) (msg : List UInt8) : Code κ (Option String) :=
  if notAddress o msg then pure none
  else if byteAt msg 16 ≠ 2 then pure none
  else if u32At o msg 20 ≠ ifindex then pure none
  else do
    let ip ← walked (findIpv4Nla o (msg.drop 24) 1)
    pure (ip.map fun ip => ip.text ++ "/" ++ toString (byteAt msg 17).toNat)

def getIpv4 (ifindex : ℕ) : Code κ (Option String) := do
  let msgs ← dumpOf o B (addrsMsg o)
  Low.first (ipv4In o ifindex) msgs

def findVethIn (tap : String) : List LinkRec → Code κ (Option (LinkRec × String))
  | [] => pure none
  | l :: ls =>
    if l.name = "lo" ∨ l.name = tap ∨ l.name = "" then findVethIn tap ls
    else do
      match ← getIpv4 o B l.idx with
      | some cidr => pure (some (l, cidr))
      | none => findVethIn tap ls

def findVeth (tap : String) : Code κ (Option (LinkRec × String)) := do
  let links ← dumpLinks o B
  findVethIn o B tap links

/-- The loop of `flush_addrs`; a listed message is sent back with another header. -/
def delAddrs (ifindex : ℕ) : List (List UInt8) → Code κ Unit
  | [] => pure ()
  | msg :: msgs =>
    if notAddress o msg then delAddrs ifindex msgs
    else if byteAt msg 16 ≠ 2 ∨ u32At o msg 20 ≠ ifindex then delAddrs ifindex msgs
    else do
      ask o B (nlhdr o msg msg.length 21 5)
      delAddrs ifindex msgs

def flushAddrs (ifindex : ℕ) : Code κ Unit := do
  let msgs ← dumpOf o B (addrsMsg o)
  delAddrs o B ifindex msgs

/-- A message that the loops over routes pass over. -/
def notRoute (msg : List UInt8) : Prop := msg.length < 28 ∨ u16At o msg 4 ≠ 24

instance (msg : List UInt8) : Decidable (notRoute o msg) := inferInstanceAs (Decidable (_ ∨ _))

/-- The loop of `get_default_gw` at a message. -/
def gatewayIn (msg : List UInt8) : Code κ (Option String) :=
  if notRoute o msg then pure none
  else if byteAt msg 17 ≠ 0 then pure none
  else do
    let gw ← walked (findIpv4Nla o (msg.drop 28) 5)
    pure (gw.map Ipv4Addr.text)

def getDefaultGw : Code κ (Option String) := do
  let msgs ← dumpOf o B (routesMsg o)
  Low.first (gatewayIn o) msgs

/-- The loop of `flush_routes`; failures are ignored. -/
def delRoutes (ifindex : ℕ) : List (List UInt8) → Code κ Unit
  | [] => pure ()
  | msg :: msgs =>
    if notRoute o msg then delRoutes ifindex msgs
    else do
      let found ← walked (routeFound o (msg.drop 28) ifindex)
      if found then do
        let _ ← Low.attempt (ask o B (nlhdr o msg msg.length 25 5))
        delRoutes ifindex msgs
      else delRoutes ifindex msgs

def flushRoutes (ifindex : ℕ) : Code κ Unit := do
  let msgs ← dumpOf o B (routesMsg o)
  delRoutes o B ifindex msgs

def addIngressQdisc (ifindex : UInt32) : Code κ Unit := do
  match ← Low.attempt (ask o B (addIngressQdiscMsg o ifindex)) with
  | .ok _ => pure ()
  | .error e => if e.os = some eexist then pure () else throw e

/-- The methods; interface indices are `u32`. -/
def method : (m : Method) → Code κ m.Out
  | .getLinkIndex name => getLinkIndex o B name
  | .delLink name => delLink o B name
  | .setLinkNetnsFd idx fd => ask o B (setLinkNetnsFdMsg o (UInt32.ofNat idx) fd)
  | .setLinkUp idx => ask o B (setLinkUpMsg o (UInt32.ofNat idx))
  | .addIngressQdisc idx => addIngressQdisc o B (UInt32.ofNat idx)
  | .delIngressQdisc idx => ask o B (delIngressQdiscMsg o (UInt32.ofNat idx))
  | .addRedirectFilter src dst => ask o B (addRedirectFilterMsg o (UInt32.ofNat src) (UInt32.ofNat dst))
  | .addAddress idx ip prefixLen => ask o B (addAddressMsg o (UInt32.ofNat idx) ip prefixLen)
  | .addDefaultRoute gw idx => ask o B (addDefaultRouteMsg o gw (UInt32.ofNat idx))
  | .dumpLinks => dumpLinks o B
  | .findByMac mac => findByMac o B mac
  | .findVeth tap => findVeth o B tap
  | .getIpv4 idx => getIpv4 o B idx
  | .flushAddrs idx => flushAddrs o B idx
  | .getDefaultGw => getDefaultGw o B
  | .flushRoutes idx => flushRoutes o B idx

end Methods

end CloudHv.Netlink.Raw
