import CloudHv.Lib.Prog
import CloudHv.Common.Netlink
import Mathlib.Data.List.Induction

/-!
# Socket — requests and replies on a netlink socket

The `Netlink` handle of `crates/common/src/netlink.rs`: what its methods send, and what they read.  The kernel
answers in order.  It answers a request with one NLMSG_ERROR (code 0 when it succeeded), a successful GET with
its data and then an NLMSG_ERROR, and a dump with records and an NLMSG_DONE.  What is sent and not read stays in
the queue of the socket (`Handle`), and the next method reads it first: the code does not look at sequence
numbers.

`step` is what the code does on the queue, `ownStep` what every call would return from the answer to its own
message.  `get_link_index` does not read the NLMSG_ERROR that follows its data.  Calls made with nothing unread,
or that begin with a dump, return the results of their own messages (`calls_paired`).
-/

namespace CloudHv.Netlink

open Conc

/-! ### Messages of the kernel -/

/-- RTM_NEWLINK. -/
structure LinkRec where
  idx : ℕ
  name : String
  mac : String
  deriving DecidableEq

/-- RTM_NEWADDR of IPv4; `len` is the length of the message. -/
structure AddrRec where
  idx : ℕ
  /-- The attribute IFA_ADDRESS. -/
  address : Option Ipv4Addr
  prefixLen : UInt8
  len : ℕ
  deriving DecidableEq

/-- RTM_NEWROUTE of IPv4. -/
structure RouteRec where
  dstLen : UInt8
  /-- The attribute RTA_GATEWAY. -/
  gateway : Option Ipv4Addr
  /-- The attributes RTA_OIF. -/
  oifs : List ℕ
  /-- The word of table, protocol, scope and type. -/
  kind : ℕ
  len : ℕ
  deriving DecidableEq

inductive Msg where
  /-- NLMSG_ERROR, with the code and the length in the header of the request. -/
  | ack (errno len : ℕ)
  /-- NLMSG_DONE. -/
  | done
  | link (l : LinkRec)
  | addr (a : AddrRec)
  | route (r : RouteRec)
  deriving DecidableEq

/-- A datagram. -/
abbrev Dgram := List Msg

namespace Msg

/-- The word at offset 20 of a datagram that begins with the message; NLMSG_DONE ends before it. -/
def at20 : Msg → Option ℕ
  | .ack _ len => some len
  | .done => none
  | .link l => some l.idx
  | .addr a => some a.idx
  | .route r => some r.kind

def link? : Msg → Option LinkRec
  | .link l => some l
  | _ => none

def addr? : Msg → Option AddrRec
  | .addr a => some a
  | _ => none

def route? : Msg → Option RouteRec
  | .route r => some r
  | _ => none

end Msg

/-! ### Requests -/

/-- The requests that change something. -/
inductive Req where
  | setLinkNetnsFd (idx : ℕ) (netnsFd : Int32)
  | setLinkUp (idx : ℕ)
  | delLink (idx : ℕ)
  | newQdisc (idx : ℕ)
  | delQdisc (idx : ℕ)
  | newFilter (src dst : ℕ)
  | newAddr (idx : ℕ) (ip : Ipv4Addr) (prefixLen : UInt8)
  | delAddr (a : AddrRec)
  | newRoute (gateway : Ipv4Addr) (idx : ℕ)
  | delRoute (r : RouteRec)
  deriving DecidableEq

/-- The length of the message.  Addresses and routes are deleted with the message they were listed with. -/
def Req.len : Req → ℕ
  | .setLinkNetnsFd _ _ => 40
  | .setLinkUp _ | .delLink _ => 32
  | .newQdisc _ | .delQdisc _ => 48
  | .newFilter _ _ => 140
  | .newAddr _ _ _ => 40
  | .newRoute _ _ => 44
  | .delAddr a => a.len
  | .delRoute r => r.len

/-- The length of the message of `get_link_index`. -/
def getLinkLen (name : String) : ℕ := 16 + 16 + Wire.align4 (4 + (asBytes name).length + 1)

section Lengths

variable {o : Wire.ByteOrder} {seq : UInt32}

end Lengths

/-! ### The socket -/

/-- What the kernel answers in a state `κ`.  An error has a code other than 0. -/
structure Kernel (κ : Type) where
  getLink : κ → String → Except ℕ LinkRec
  ask : κ → Req → Except ℕ Unit × κ
  links : κ → List (List LinkRec)
  addrs : κ → List (List AddrRec)
  routes : κ → List (List RouteRec)
  /-- The text of an error. -/
  strerror : ℕ → String
  getLink_errno : ∀ k name e, getLink k name = .error e → e ≠ 0
  ask_errno : ∀ k r e, (ask k r).1 = .error e → e ≠ 0

/-- An error of the code: its text, and the error of the system that it wraps. -/
structure NlError where
  text : String
  os : Option ℕ
  deriving DecidableEq

/-- The socket: the replies that were not read, and the kernel behind it. -/
structure Handle (κ : Type) where
  queue : List Dgram
  kernel : κ

/-- The next datagram when `first` and `rest` have come in. -/
def recv (queue : List Dgram) (first : Dgram) (rest : List Dgram) : Dgram × List Dgram :=
  match queue with
  | [] => (first, rest)
  | d :: q => (d, q ++ first :: rest)

/-- The code in an answer to a request. -/
def errno : Except ℕ Unit → ℕ
  | .ok _ => 0
  | .error e => e

/-- What `request` makes of the datagram it reads. -/
def readAck : Dgram → Except NlError Unit
  | .ack e _ :: _ => if e ≠ 0 then .error ⟨"netlink request", some e⟩ else .ok ()
  | _ => .ok ()

section Step

variable {κ : Type} (K : Kernel κ)

/-- What `get_link_index` makes of the datagram it reads. -/
def readIndex (name : String) : Dgram → Except NlError ℕ
  | [] => .error ⟨"link " ++ name ++ " not found", none⟩
  | m :: _ =>
    match m with
    | .ack e len => if e ≠ 0 then .error ⟨"link " ++ name ++ ": " ++ K.strerror e, none⟩ else .ok len
    | m =>
      match m.at20 with
      | none => .error ⟨"link " ++ name ++ " not found", none⟩
      | some n => .ok n

/-- The messages of one datagram of a dump: the dump goes on with what it has, or it is over. -/
def scan : Dgram → List Msg → List Msg ⊕ Except NlError (List Msg)
  | [], out => .inl out
  | .done :: _, out => .inr (.ok out)
  | .ack e len :: ms, out =>
    if e ≠ 0 then .inr (.error ⟨"nl dump: " ++ K.strerror e, none⟩) else scan ms (out ++ [.ack e len])
  | m :: ms, out => scan ms (out ++ [m])

/-- The loop of `dump`.  The answer to a dump has an NLMSG_DONE, so the queue does not run out. -/
def dumpLoop : List Dgram → List Msg → Except NlError (List Msg) × List Dgram
  | [], out => (.ok out, [])
  | d :: q, out =>
    match scan K d out with
    | .inl out' => dumpLoop q out'
    | .inr r => (r, q)

/-- A dump, with the messages of its own type. -/
def dump {α : Type} (h : Handle κ) (records : List Dgram) (pick : Msg → Option α) :
    Except NlError (List α) × Handle κ :=
  let r := dumpLoop K (h.queue ++ (records ++ [[.done]])) []
  (r.1.map (List.filterMap pick), ⟨r.2, h.kernel⟩)

/-! ### The calls on the socket -/

inductive Action where
  | request (r : Req)
  | getIndex (name : String)
  | links
  | addrs
  | routes

abbrev Out : Action → Type
  | .request _ => Unit
  | .getIndex _ => ℕ
  | .links => List LinkRec
  | .addrs => List AddrRec
  | .routes => List RouteRec

abbrev Answer (a : Action) := Except NlError (Out a)

/-- What the code does. -/
def step (h : Handle κ) : (a : Action) → Answer a × Handle κ
  | .request r =>
    let res := K.ask h.kernel r
    let d := recv h.queue [.ack (errno res.1) r.len] []
    (readAck d.1, ⟨d.2, res.2⟩)
  | .getIndex name =>
    let d := match K.getLink h.kernel name with
      | .ok l => recv h.queue [.link l] [[.ack 0 (getLinkLen name)]]
      | .error e => recv h.queue [.ack e (getLinkLen name)] []
    (readIndex K name d.1, ⟨d.2, h.kernel⟩)
  | .links => dump K h ((K.links h.kernel).map (List.map .link)) Msg.link?
  | .addrs => dump K h ((K.addrs h.kernel).map (List.map .addr)) Msg.addr?
  | .routes => dump K h ((K.routes h.kernel).map (List.map .route)) Msg.route?

/-- What the answer to the call's own message says. -/
def ownStep (k : κ) : (a : Action) → Answer a × κ
  | .request r =>
    match K.ask k r with
    | (.ok _, k') => (.ok (), k')
    | (.error e, k') => (.error ⟨"netlink request", some e⟩, k')
  | .getIndex name =>
    match K.getLink k name with
    | .ok l => (.ok l.idx, k)
    | .error e => (.error ⟨"link " ++ name ++ ": " ++ K.strerror e, none⟩, k)
  | .links => (.ok (K.links k).flatten, k)
  | .addrs => (.ok (K.addrs k).flatten, k)
  | .routes => (.ok (K.routes k).flatten, k)

end Step

/-! ### The methods -/

abbrev M := ExceptT NlError (Prog Action Answer)

def say (a : Action) : M (Out a) := ExceptT.mk (Prog.call a)

/-- The outcome of a call, for code that goes on after a failure. -/
def attempt {α : Type} (m : M α) : M (Except NlError α) := ExceptT.mk do
  let r ← m.run
  pure (.ok r)

section RunOn

variable {κ : Type} {step : κ → (a : Action) → Answer a × κ}

theorem runOn_say {a : Action} {k : κ} : runOn step (say a).run k = step k a := rfl

theorem runOn_attempt {α : Type} {m : M α} {k : κ} :
    runOn step (attempt m).run k = (.ok (runOn step m.run k).1, (runOn step m.run k).2) := runOn_bind

end RunOn

def Ipv4Addr.text (ip : Ipv4Addr) : String :=
  toString ip.a.toNat ++ "." ++ toString ip.b.toNat ++ "." ++ toString ip.c.toNat ++ "." ++ toString ip.d.toNat

def getLinkIndex (name : String) : M ℕ := say (.getIndex name)

def delLink (name : String) : M Unit := do
  let idx ← getLinkIndex name
  say (.request (.delLink idx))

def dumpLinks : M (List LinkRec) := say .links

/-- The comparison is of lower-case texts. -/
def findByMac (mac : String) : M (Option (String × ℕ)) := do
  let links ← dumpLinks
  pure ((links.find? fun l => l.mac.toLower = mac.toLower).map fun l => (l.name, l.idx))

def getIpv4 (ifindex : ℕ) : M (Option String) := do
  let addrs ← say .addrs
  pure (addrs.findSome? fun a =>
    if a.idx = ifindex then a.address.map fun ip => ip.text ++ "/" ++ toString a.prefixLen.toNat else none)

/-- The loop of `find_veth`. -/
def findVethIn (tap : String) : List LinkRec → M (Option (LinkRec × String))
  | [] => pure none
  | l :: ls =>
    if l.name = "lo" ∨ l.name = tap ∨ l.name = "" then findVethIn tap ls
    else do
      match ← getIpv4 l.idx with
      | some cidr => pure (some (l, cidr))
      | none => findVethIn tap ls

def findVeth (tap : String) : M (Option (LinkRec × String)) := do
  let links ← dumpLinks
  findVethIn tap links

/-- The loop of `flush_addrs`. -/
def delAddrs : List AddrRec → M Unit
  | [] => pure ()
  | a :: as => do
    say (.request (.delAddr a))
    delAddrs as

def flushAddrs (ifindex : ℕ) : M Unit := do
  let addrs ← say .addrs
  delAddrs (addrs.filter fun a => a.idx = ifindex)

def getDefaultGw : M (Option String) := do
  let routes ← say .routes
  pure (routes.findSome? fun r => if r.dstLen = 0 then r.gateway.map Ipv4Addr.text else none)

/-- The loop of `flush_routes`; failures are ignored. -/
def delRoutes : List RouteRec → M Unit
  | [] => pure ()
  | r :: rs => do
    let _ ← attempt (say (.request (.delRoute r)))
    delRoutes rs

def flushRoutes (ifindex : ℕ) : M Unit := do
  let routes ← say .routes
  delRoutes (routes.filter fun r => ifindex ∈ r.oifs)

/-- `EEXIST`. -/
def eexist : ℕ := 17

/-- A qdisc that is there already is fine. -/
def addIngressQdisc (ifindex : ℕ) : M Unit := do
  match ← attempt (say (.request (.newQdisc ifindex))) with
  | .ok _ => pure ()
  | .error e => if e.os = some eexist then pure () else throw e

def delIngressQdisc (ifindex : ℕ) : M Unit := say (.request (.delQdisc ifindex))

def addRedirectFilter (src dst : ℕ) : M Unit := say (.request (.newFilter src dst))

def setLinkUp (idx : ℕ) : M Unit := say (.request (.setLinkUp idx))

def setLinkNetnsFd (idx : ℕ) (netnsFd : Int32) : M Unit := say (.request (.setLinkNetnsFd idx netnsFd))

def addAddress (ifindex : ℕ) (ip : Ipv4Addr) (prefixLen : UInt8) : M Unit :=
  say (.request (.newAddr ifindex ip prefixLen))

def addDefaultRoute (gateway : Ipv4Addr) (ifindex : ℕ) : M Unit := say (.request (.newRoute gateway ifindex))

/-- The methods of the handle. -/
inductive Method where
  | getLinkIndex (name : String)
  | delLink (name : String)
  | setLinkNetnsFd (idx : ℕ) (netnsFd : Int32)
  | setLinkUp (idx : ℕ)
  | addIngressQdisc (ifindex : ℕ)
  | delIngressQdisc (ifindex : ℕ)
  | addRedirectFilter (src dst : ℕ)
  | addAddress (ifindex : ℕ) (ip : Ipv4Addr) (prefixLen : UInt8)
  | addDefaultRoute (gateway : Ipv4Addr) (ifindex : ℕ)
  | dumpLinks
  | findByMac (mac : String)
  | findVeth (tap : String)
  | getIpv4 (ifindex : ℕ)
  | flushAddrs (ifindex : ℕ)
  | getDefaultGw
  | flushRoutes (ifindex : ℕ)

namespace Method

abbrev Out : Method → Type
  | .getLinkIndex _ => ℕ
  | .dumpLinks => List LinkRec
  | .findByMac _ => Option (String × ℕ)
  | .findVeth _ => Option (LinkRec × String)
  | .getIpv4 _ | .getDefaultGw => Option String
  | _ => Unit

def prog : (m : Method) → M m.Out
  | .getLinkIndex name => Netlink.getLinkIndex name
  | .delLink name => Netlink.delLink name
  | .setLinkNetnsFd idx fd => Netlink.setLinkNetnsFd idx fd
  | .setLinkUp idx => Netlink.setLinkUp idx
  | .addIngressQdisc idx => Netlink.addIngressQdisc idx
  | .delIngressQdisc idx => Netlink.delIngressQdisc idx
  | .addRedirectFilter src dst => Netlink.addRedirectFilter src dst
  | .addAddress idx ip prefixLen => Netlink.addAddress idx ip prefixLen
  | .addDefaultRoute gw idx => Netlink.addDefaultRoute gw idx
  | .dumpLinks => Netlink.dumpLinks
  | .findByMac mac => Netlink.findByMac mac
  | .findVeth tap => Netlink.findVeth tap
  | .getIpv4 idx => Netlink.getIpv4 idx
  | .flushAddrs idx => Netlink.flushAddrs idx
  | .getDefaultGw => Netlink.getDefaultGw
  | .flushRoutes idx => Netlink.flushRoutes idx

/-- The methods that begin with a dump. -/
def dumps : Method → Bool
  | .dumpLinks | .findByMac _ | .findVeth _ | .getIpv4 _ | .flushAddrs _ | .getDefaultGw | .flushRoutes _ => true
  | _ => false

end Method

section Calls

variable {κ : Type} (K : Kernel κ)

/-- A call: its result, and the socket after it. -/
def call (h : Handle κ) (m : Method) : Except NlError m.Out × Handle κ := runOn (step K) m.prog.run h

/-- The result that the answers to the call's own messages give. -/
def own (k : κ) (m : Method) : Except NlError m.Out × κ := runOn (ownStep K) m.prog.run k

/-- The socket after calls. -/
def after (h : Handle κ) (ms : List Method) : Handle κ := ms.foldl (fun h m => (call K h m).2) h

/-- A socket on which nothing was sent yet. -/
def Handle.fresh (k : κ) : Handle κ := ⟨[], k⟩

end Calls

/-! ### The answers to a call's own messages -/

section Paired

variable {κ : Type} {K : Kernel κ}

/-- A message with a record. -/
def Msg.isRecord : Msg → Bool
  | .ack _ _ | .done => false
  | .link _ | .addr _ | .route _ => true

theorem scan_records {d : Dgram} (hd : ∀ m ∈ d, m.isRecord = true) (out : List Msg) :
    scan K d out = .inl (out ++ d) := by
  induction d generalizing out with
  | nil => rw [List.append_nil]; rfl
  | cons m ms ih =>
    have hm := hd m List.mem_cons_self
    have hrest := ih (fun x hx => hd x (List.mem_cons_of_mem m hx)) (out ++ [m])
    rw [List.append_assoc] at hrest
    cases m with
    | ack e len => cases hm
    | done => cases hm
    | link l => exact hrest
    | addr a => exact hrest
    | route r => exact hrest

/-- A dump reads its records and the NLMSG_DONE after them. -/
theorem dumpLoop_records {ds : List Dgram} (hds : ∀ d ∈ ds, ∀ m ∈ d, m.isRecord = true) (out : List Msg) :
    dumpLoop K (ds ++ [[.done]]) out = (.ok (out ++ ds.flatten), []) := by
  induction ds generalizing out with
  | nil =>
    rw [List.flatten_nil, List.append_nil]
    rfl
  | cons d ds ih =>
    have hrest := ih (fun x hx => hds x (List.mem_cons_of_mem d hx)) (out ++ d)
    rw [List.cons_append, dumpLoop, scan_records (hds d List.mem_cons_self), List.flatten_cons, ← List.append_assoc]
    exact hrest

/-- Nothing is unread, or one acknowledgement is. -/
def Settled (h : Handle κ) : Prop := h.queue = [] ∨ ∃ len, h.queue = [[.ack 0 len]]

/-- A dump reads over an acknowledgement, and returns its own records. -/
theorem dump_own {α : Type} {h : Handle κ} (hh : Settled h) {rs : List (List α)} {mk : α → Msg} {pick : Msg → Option α}
    (hrec : ∀ a, (mk a).isRecord = true) (hpick : ∀ a, pick (mk a) = some a) (hack : ∀ e len, pick (.ack e len) = none) :
    dump K h (rs.map (List.map mk)) pick = (.ok rs.flatten, ⟨[], h.kernel⟩) := by
  have hds : ∀ d ∈ rs.map (List.map mk), ∀ m ∈ d, m.isRecord = true := by
    intro d hd m hm
    obtain ⟨r, -, rfl⟩ := List.mem_map.mp hd
    obtain ⟨a, -, rfl⟩ := List.mem_map.mp hm
    exact hrec a
  have hflat : (rs.map (List.map mk)).flatten.filterMap pick = rs.flatten := by
    rw [← List.map_flatten, List.filterMap_map]
    have hid : pick ∘ mk = some := funext hpick
    rw [hid, List.filterMap_some]
  have hloop : ∃ out, out.filterMap pick = [] ∧
      dumpLoop K (h.queue ++ (rs.map (List.map mk) ++ [[.done]])) [] =
        (.ok (out ++ (rs.map (List.map mk)).flatten), []) := by
    rcases hh with hq | ⟨len, hq⟩
    · refine ⟨[], rfl, ?_⟩
      rw [hq]
      exact dumpLoop_records hds []
    · refine ⟨[.ack 0 len], ?_, ?_⟩
      · rw [List.filterMap_cons_none (hack 0 len)]
        rfl
      · rw [hq]
        exact dumpLoop_records hds [.ack 0 len]
  obtain ⟨out, hout, hrun⟩ := hloop
  simp only [dump, hrun, Except.map, List.filterMap_append, hout, hflat, List.nil_append]

/-- The calls that dump. -/
def Action.isDump : Action → Bool
  | .links | .addrs | .routes => true
  | .request _ | .getIndex _ => false

/-- The calls that leave nothing unread. -/
def Action.balanced : Action → Prop
  | .getIndex _ => False
  | _ => True

theorem dump_step {h : Handle κ} (hh : Settled h) {a : Action} (ha : a.isDump = true) :
    (step K h a).1 = (ownStep K h.kernel a).1 ∧ (step K h a).2 = ⟨[], h.kernel⟩ ∧
      (ownStep K h.kernel a).2 = h.kernel := by
  have hall : step K h a = ((ownStep K h.kernel a).1, ⟨[], h.kernel⟩) := by
    cases a with
    | request r => cases ha
    | getIndex name => cases ha
    | links => exact dump_own hh (fun _ => rfl) (fun _ => rfl) fun _ _ => rfl
    | addrs => exact dump_own hh (fun _ => rfl) (fun _ => rfl) fun _ _ => rfl
    | routes => exact dump_own hh (fun _ => rfl) (fun _ => rfl) fun _ _ => rfl
  refine ⟨congrArg Prod.fst hall, congrArg Prod.snd hall, ?_⟩
  cases a with
  | request r => cases ha
  | getIndex name => cases ha
  | links => rfl
  | addrs => rfl
  | routes => rfl

/-- With nothing unread, a request reads the answer to its own message. -/
theorem request_step {h : Handle κ} (hq : h.queue = []) (r : Req) :
    (step K h (.request r)).1 = (ownStep K h.kernel (.request r)).1 ∧
      (step K h (.request r)).2 = ⟨[], (ownStep K h.kernel (.request r)).2⟩ := by
  have hne := K.ask_errno h.kernel r
  simp only [step, ownStep, hq, recv]
  cases hres : K.ask h.kernel r with
  | mk res k' =>
    cases res with
    | ok u => exact ⟨rfl, rfl⟩
    | error e =>
      have he : e ≠ 0 := hne e (by rw [hres])
      refine ⟨?_, rfl⟩
      show (if e ≠ 0 then _ else _) = _
      rw [if_pos he]
      rfl

theorem balanced_step {h : Handle κ} {k : κ} {a : Action} (ha : a.balanced) (hh : h.queue = [] ∧ h.kernel = k) :
    (step K h a).1 = (ownStep K k a).1 ∧
      (step K h a).2.queue = [] ∧ (step K h a).2.kernel = (ownStep K k a).2 := by
  obtain ⟨hq, rfl⟩ := hh
  cases a with
  | getIndex name => exact ha.elim
  | request r =>
    obtain ⟨hr, hs⟩ := request_step (K := K) hq r
    exact ⟨hr, by rw [hs], by rw [hs]⟩
  | links =>
    obtain ⟨hr, hs, hk⟩ := dump_step (K := K) (.inl hq) (a := .links) rfl
    exact ⟨hr, by rw [hs], by rw [hs, hk]⟩
  | addrs =>
    obtain ⟨hr, hs, hk⟩ := dump_step (K := K) (.inl hq) (a := .addrs) rfl
    exact ⟨hr, by rw [hs], by rw [hs, hk]⟩
  | routes =>
    obtain ⟨hr, hs, hk⟩ := dump_step (K := K) (.inl hq) (a := .routes) rfl
    exact ⟨hr, by rw [hs], by rw [hs, hk]⟩

/-! ### The methods but `get_link_index` and `del_link` -/

theorem say_balanced {a : Action} (ha : a.balanced) : Only Action.balanced (say a).run := ⟨ha, fun _ => trivial⟩

theorem attempt_balanced {α : Type} {m : M α} (hm : Only Action.balanced m.run) :
    Only Action.balanced (attempt m).run := hm.bind fun _ => trivial

theorem getIpv4_balanced (idx : ℕ) : Only Action.balanced (Netlink.getIpv4 idx).run :=
  (say_balanced (a := .addrs) trivial).bindE fun _ => trivial

theorem findVethIn_balanced (tap : String) (ls : List LinkRec) : Only Action.balanced (findVethIn tap ls).run := by
  induction ls with
  | nil => trivial
  | cons l ls ih =>
    unfold findVethIn
    split
    · exact ih
    · refine (getIpv4_balanced l.idx).bindE fun cidr => ?_
      cases cidr with
      | some c => trivial
      | none => exact ih

theorem delAddrs_balanced (as : List AddrRec) : Only Action.balanced (delAddrs as).run := by
  induction as with
  | nil => trivial
  | cons a as ih => exact (say_balanced (a := .request (.delAddr a)) trivial).bindE fun _ => ih

theorem delRoutes_balanced (rs : List RouteRec) : Only Action.balanced (delRoutes rs).run := by
  induction rs with
  | nil => trivial
  | cons r rs ih =>
    exact (attempt_balanced (say_balanced (a := .request (.delRoute r)) trivial)).bindE fun _ => ih

theorem addIngressQdisc_balanced (idx : ℕ) : Only Action.balanced (Netlink.addIngressQdisc idx).run := by
  refine (attempt_balanced (say_balanced (a := .request (.newQdisc idx)) trivial)).bindE fun r => ?_
  cases r with
  | ok u => trivial
  | error e =>
    show Only _ (ExceptT.run (if e.os = some eexist then pure () else throw e))
    split
    · trivial
    · trivial

/-- The method does not look a link up by its name. -/
def Method.balanced : Method → Bool
  | .getLinkIndex _ | .delLink _ => false
  | _ => true

theorem prog_balanced {m : Method} (hm : m.balanced = true) : Only Action.balanced m.prog.run := by
  cases m with
  | getLinkIndex name => cases hm
  | delLink name => cases hm
  | setLinkNetnsFd idx fd => exact say_balanced trivial
  | setLinkUp idx => exact say_balanced trivial
  | addIngressQdisc idx => exact addIngressQdisc_balanced idx
  | delIngressQdisc idx => exact say_balanced trivial
  | addRedirectFilter src dst => exact say_balanced trivial
  | addAddress idx ip prefixLen => exact say_balanced trivial
  | addDefaultRoute gw idx => exact say_balanced trivial
  | dumpLinks => exact say_balanced trivial
  | findByMac mac => exact (say_balanced (a := .links) trivial).bindE fun _ => trivial
  | findVeth tap => exact (say_balanced (a := .links) trivial).bindE fun ls => findVethIn_balanced tap ls
  | getIpv4 idx => exact getIpv4_balanced idx
  | flushAddrs idx => exact (say_balanced (a := .addrs) trivial).bindE fun _ => delAddrs_balanced _
  | getDefaultGw => exact (say_balanced (a := .routes) trivial).bindE fun _ => trivial
  | flushRoutes idx => exact (say_balanced (a := .routes) trivial).bindE fun _ => delRoutes_balanced _

/-- What a method that dumps does first. -/
theorem prog_dumps {m : Method} (hm : m.dumps = true) :
    m.balanced = true ∧ ∃ a k, m.prog.run = .act a k ∧ a.isDump = true := by
  cases m <;> first | exact ⟨rfl, _, _, rfl, rfl⟩ | cases hm

/-! ### Calls -/

/-- The condition on a call: nothing is unread or the method begins with a dump, and `del_link` is not called for a
link that is there. -/
def Fair (K : Kernel κ) (h : Handle κ) (m : Method) : Prop :=
  (h.queue = [] ∨ m.dumps = true) ∧ ∀ name l, m = .delLink name → K.getLink h.kernel name ≠ .ok l

/-- With nothing unread, a balanced program gets the results of its own messages. -/
theorem balanced_run {α : Type} {p : Prog Action Answer α} (hp : Only Action.balanced p) {h : Handle κ}
    (hq : h.queue = []) : (runOn (step K) p h).1 = (runOn (ownStep K) p h.kernel).1 ∧
      (runOn (step K) p h).2.queue = [] ∧ (runOn (step K) p h).2.kernel = (runOn (ownStep K) p h.kernel).2 :=
  hp.simulates (fun (h : Handle κ) k => h.queue = [] ∧ h.kernel = k) (fun _ _ _ ha hst => balanced_step ha hst)
    ⟨hq, rfl⟩

/-- A balanced program that begins with a dump gets the results of its own messages also with an
acknowledgement unread. -/
theorem dump_run {α : Type} {p : Prog Action Answer α} (hp : Only Action.balanced p) {a : Action}
    {k : Answer a → Prog Action Answer α} (hpa : p = .act a k) (ha : a.isDump = true) {h : Handle κ} (hh : Settled h) :
    (runOn (step K) p h).1 = (runOn (ownStep K) p h.kernel).1 ∧
      (runOn (step K) p h).2.queue = [] ∧ (runOn (step K) p h).2.kernel = (runOn (ownStep K) p h.kernel).2 := by
  subst hpa
  obtain ⟨hr, hs, hk⟩ := dump_step (K := K) hh ha
  have hclean : Handle.queue (⟨[], h.kernel⟩ : Handle κ) = [] := rfl
  simp only [runOn]
  rw [hs, hr, hk]
  exact balanced_run (hp.2 (ownStep K h.kernel a).1) hclean

/-- With nothing unread, a lookup reads its own data; the acknowledgement stays unread if there is a link. -/
theorem index_step {h : Handle κ} (hq : h.queue = []) (name : String) :
    (step K h (.getIndex name)).1 = (ownStep K h.kernel (.getIndex name)).1 ∧
      (step K h (.getIndex name)).2.kernel = h.kernel ∧ (ownStep K h.kernel (.getIndex name)).2 = h.kernel ∧
      Settled (step K h (.getIndex name)).2 := by
  have hne := K.getLink_errno h.kernel name
  simp only [step, ownStep, hq]
  cases hl : K.getLink h.kernel name with
  | ok l => exact ⟨rfl, trivial, rfl, .inr ⟨_, rfl⟩⟩
  | error e =>
    refine ⟨?_, trivial, rfl, .inl rfl⟩
    show (if e ≠ 0 then _ else _) = _
    rw [if_pos (hne e hl)]

/-- A call that meets the condition returns the result of its own messages. -/
theorem call_own {h : Handle κ} (hh : Settled h) {m : Method} (hm : Fair K h m) :
    (call K h m).1 = (own K h.kernel m).1 ∧ (call K h m).2.kernel = (own K h.kernel m).2 ∧
      Settled (call K h m).2 := by
  obtain ⟨hunread, hdel⟩ := hm
  by_cases hd : m.dumps = true
  · -- the dump at the beginning reads what is unread
    obtain ⟨hbal, a, k, hprog, ha⟩ := prog_dumps hd
    obtain ⟨h1, h2, h3⟩ := dump_run (K := K) (prog_balanced hbal) hprog ha hh
    exact ⟨h1, h3, .inl h2⟩
  · have hq : h.queue = [] := hunread.resolve_right hd
    have hbalanced : m.balanced = true → (call K h m).1 = (own K h.kernel m).1 ∧
        (call K h m).2.kernel = (own K h.kernel m).2 ∧ Settled (call K h m).2 := by
      intro hb
      obtain ⟨h1, h2, h3⟩ := balanced_run (K := K) (prog_balanced hb) hq
      exact ⟨h1, h3, .inl h2⟩
    cases m with
    | getLinkIndex name =>
      obtain ⟨h1, h2, h3, h4⟩ := index_step (K := K) hq name
      exact ⟨h1, h2.trans h3.symm, h4⟩
    | delLink name =>
      obtain ⟨h1, h2, h3, h4⟩ := index_step (K := K) hq name
      cases hl : K.getLink h.kernel name with
      | ok l => exact absurd hl (hdel name l rfl)
      | error e =>
        -- there is no such link, and nothing more is sent
        have hown : ownStep K h.kernel (.getIndex name) =
            (.error ⟨"link " ++ name ++ ": " ++ K.strerror e, none⟩, h.kernel) := by
          simp only [ownStep, hl]
        have hstep : (step K h (.getIndex name)).1 = .error ⟨"link " ++ name ++ ": " ++ K.strerror e, none⟩ := by
          rw [h1, hown]
        have hcall : call K h (.delLink name) =
            (.error ⟨"link " ++ name ++ ": " ++ K.strerror e, none⟩, (step K h (.getIndex name)).2) := by
          show runOn (step K) (.act (.getIndex name) _) h = _
          simp only [runOn]
          rw [hstep]
          rfl
        have hres : own K h.kernel (.delLink name) =
            (.error ⟨"link " ++ name ++ ": " ++ K.strerror e, none⟩, h.kernel) := by
          show runOn (ownStep K) (.act (.getIndex name) _) h.kernel = _
          simp only [runOn]
          rw [hown]
          rfl
        rw [hcall, hres]
        exact ⟨rfl, h2, h4⟩
    | _ => exact hbalanced rfl

/-- **Requests and replies.**  In every sequence of calls on a socket that all meet the condition, each call
returns the result that the answers to its own messages give. -/
theorem calls_paired (K : Kernel κ) (k : κ) (ms : List Method)
    (hfair : ∀ pre m post, ms = pre ++ m :: post → Fair K (after K (.fresh k) pre) m) :
    ∀ pre m post, ms = pre ++ m :: post →
      (call K (after K (.fresh k) pre) m).1 = (own K (after K (.fresh k) pre).kernel m).1 := by
  -- by induction on the calls before: at most one acknowledgement is unread
  have hsettled : ∀ pre post, ms = pre ++ post → Settled (after K (.fresh k) pre) := by
    intro pre
    induction pre using List.reverseRecOn with
    | nil => exact fun _ _ => .inl rfl
    | append_singleton pre m ih =>
      intro post hms
      have hms' : ms = pre ++ m :: post := by rw [hms, List.append_assoc]; rfl
      have hlast : after K (.fresh k) (pre ++ [m]) = (call K (after K (.fresh k) pre) m).2 := by
        simp only [after, List.foldl_append, List.foldl_cons, List.foldl_nil]
      rw [hlast]
      exact (call_own (ih _ hms') (hfair pre m post hms')).2.2
  intro pre m post hms
  exact (call_own (hsettled pre _ hms) (hfair pre m post hms)).1

end Paired

/-- A kernel that has links and nothing else; a request about a link that is not there fails with ENODEV. -/
def linksOnly : Kernel (List LinkRec) where
  getLink := fun ls name =>
    match ls.find? fun l => l.name = name with
    | some l => .ok l
    | none => .error 19
  ask := fun ls r =>
    match r with
    | .setLinkUp idx => (if ls.any fun l => l.idx = idx then .ok () else .error 19, ls)
    | _ => (.error 95, ls)
  links := fun ls => [ls]
  addrs := fun _ => []
  routes := fun _ => []
  strerror := fun e => "os error " ++ toString e
  getLink_errno := by
    intro ls name e h
    split at h
    · cases h
    · cases h
      decide
  ask_errno := by
    intro ls r e h
    split at h
    · simp only at h
      split at h
      · cases h
      · cases h
        decide
    · cases h
      decide

def eth0Only : List LinkRec := [⟨2, "eth0", "02:00:00:00:00:01"⟩]

theorem calls_paired_eth0 :
    (call linksOnly (after linksOnly (.fresh eth0Only) [.getLinkIndex "eth0", .dumpLinks]) (.setLinkUp 2)).1 =
      (own linksOnly (after linksOnly (.fresh eth0Only) [.getLinkIndex "eth0", .dumpLinks]).kernel (.setLinkUp 2)).1 := by
  refine calls_paired linksOnly eth0Only [.getLinkIndex "eth0", .dumpLinks, .setLinkUp 2] ?_ _ _ [] rfl
  intro pre m post h
  have hdel : ∀ name, m ≠ .delLink name := by
    rintro name rfl
    have hmem : Method.delLink name ∈ [Method.getLinkIndex "eth0", .dumpLinks, .setLinkUp 2] := by
      rw [h]
      exact List.mem_append_right _ List.mem_cons_self
    simp at hmem
  refine ⟨?_, fun name l hm => absurd hm (hdel name)⟩
  rcases pre with _ | ⟨p, _ | ⟨q, _ | ⟨r, pre⟩⟩⟩
  · exact .inl rfl
  · simp only [List.cons_append, List.nil_append, List.cons.injEq] at h
    obtain ⟨rfl, rfl, -⟩ := h
    exact .inr rfl
  · simp only [List.cons_append, List.nil_append, List.cons.injEq] at h
    obtain ⟨rfl, rfl, rfl, -⟩ := h
    exact .inl rfl
  · simp at h

/-- A request after a lookup reads the lookup's acknowledgement: there is no link 9, and the call succeeds. -/
theorem stale_ack_read :
    (call linksOnly (after linksOnly (.fresh eth0Only) [.getLinkIndex "eth0"]) (.setLinkUp 9)).1 = .ok () ∧
      (own linksOnly (after linksOnly (.fresh eth0Only) [.getLinkIndex "eth0"]).kernel (.setLinkUp 9)).1 =
        .error ⟨"netlink request", some 19⟩ := by
  constructor
  · rfl
  · rfl

end CloudHv.Netlink
