import CloudHv.Common.AgentProto
import CloudHv.Common.Configure
import CloudHv.Daemon.Gateway

/-!
# PodAddress — a pod's address on its way to the guest

`prepare_tap` reads the address, the gateway and the MAC of a pod's interface as texts.  `configure_guest_network`
takes them apart for the agent of the guest, whose `configure_network` parses the parts for `configure_interface`.
That call has the values of the kernel's records in the pod (`guest_gets_pod_address`).
-/

namespace CloudHv.Agent

open Netlink Conc
open AgentProto (ConfigureNetworkRequest)

/-! ### The agent -/

/-- The error of the handler: a text of its own, or what `configure_interface` failed with. -/
inductive ConfigureError where
  | others (text : String)
  | configureInterface (e : NlError)
  deriving DecidableEq

/-- What the handler parses: the address, the gateway and the prefix length. -/
def parsed (req : ConfigureNetworkRequest) : Except String (Ipv4Addr × Option Ipv4Addr × UInt8) := do
  let ip ← match Daemon.parseIpv4 req.ipAddress with
    | some ip => .ok ip
    | none => .error "invalid IP: invalid IPv4 address syntax"
  let gw ← if req.gateway = "" then .ok none else match Daemon.parseIpv4 req.gateway with
    | some gw => .ok (some gw)
    | none => .error "invalid gateway: invalid IPv4 address syntax"
  let len ← if req.prefixLen.toNat < 256 then .ok (UInt8.ofNat req.prefixLen.toNat)
    else .error "invalid prefix_len: must be between 0 and 32"
  if len > 32 then .error "invalid prefix_len: must be between 0 and 32" else .ok (ip, gw, len)

section Handler

variable {κ : Type} (K : Kernel κ) (wait : ℕ → κ → κ) (pathExists : κ → String → Bool)

/-- `wait_for_device`, with the rounds that there are before the deadline. -/
def waitForDevice (device : String) : ℕ → κ → Bool × κ
  | 0, k => (false, k)
  | rounds + 1, k =>
    if pathExists k ("/sys/class/net/" ++ device) then (true, k) else waitForDevice device rounds (wait 50 k)

def deviceText (device : String) : String :=
  "device wait: timed out waiting for device " ++ device ++ " to appear at /sys/class/net/" ++ device

/-- What `configure_network` does when the device is there. -/
def configureParsed (device : String) (mac : Option String) (req : ConfigureNetworkRequest) (k : κ) :
    Except ConfigureError Unit × κ :=
  match parsed req with
  | .error text => (.error (.others text), k)
  | .ok (ip, gw, len) =>
    let r := configure K wait k device ip len gw mac
    (r.1.mapError .configureInterface, r.2)

/-- A device that is looked up by its MAC is not waited for. -/
def configureNetwork (rounds : ℕ) (req : ConfigureNetworkRequest) (k : κ) : Except ConfigureError Unit × κ :=
  let device := if req.device = "" then "eth0" else req.device
  let mac := if req.mac = "" then none else some req.mac
  match if mac.isNone then waitForDevice wait pathExists device rounds k else (true, k) with
  | (false, k) => (.error (.others (deviceText device)), k)
  | (true, k) => configureParsed K wait device mac req k

end Handler

end CloudHv.Agent

namespace CloudHv.Daemon

open Netlink Conc

/-! ### The pod -/

/-- An error with a text in front, as it is printed. -/
def found {α : Type} (text : String) (m : MS α) : MS α := ExceptT.mk do
  match ← m.run with
  | .ok x => pure (.ok x)
  | .error e => pure (.error ⟨text, e.os⟩)

/-- `retry` of the daemon, which sleeps after every attempt. -/
def retrying {α : Type} (f : Netlink.M (Option α)) (tries ms : ℕ) : ℕ → MS α
  | 0 => throw ⟨"not found after " ++ toString tries ++ " retries", none⟩
  | left + 1 => do
    match ← use f with
    | some v => pure v
    | none => do
      sleep ms
      retrying f tries ms left

/-- The loop of `prepare_tap` over the links: the address of the first one that has one, and its MAC. -/
def vethIn : List LinkRec → Netlink.M (Option (String × String))
  | [] => pure none
  | l :: ls =>
    if l.name = "lo" ∨ l.name = "" then vethIn ls
    else do
      match ← getIpv4 l.idx with
      | some cidr => pure (some (cidr, l.mac))
      | none => vethIn ls

def podVeth : Netlink.M (Option (String × String)) := do
  let links ← dumpLinks
  vethIn links

/-- The part of `prepare_tap` in the pod's namespace; the text of a panic of `infer_gateway`. -/
def probePod (b : Build) : MS (Except String PodNetInfo) := do
  let (cidr, mac) ← found "find veth" (retrying podVeth 20 100 20)
  match ← use (Netlink.attempt getDefaultGw) with
  | .ok (some gw) => pure (.ok ⟨cidr, gw, mac⟩)
  | _ => pure ((inferGateway b cidr).map fun gw => ⟨cidr, gw.getD "", mac⟩)

/-- What `configure_guest_network` sends. -/
def configureRequest (ipCidr gateway : String) : AgentProto.ConfigureNetworkRequest :=
  let parts := splitCidr ipCidr
  ⟨parts.headD "", gateway, UInt32.ofNat (((parts[1]?).bind parseU32).getD 24), "eth0", ""⟩

theorem parseU32_lt {s : String} {n : ℕ} (h : parseU32 s = some n) : n < 2 ^ 32 := by
  have hdigits : ∀ ds : List Char, (if ds.isEmpty || !ds.all isDigit then none
      else if decimal ds < 2 ^ 32 then some (decimal ds) else none) = some n → n < 2 ^ 32 := by
    intro ds hds
    split_ifs at hds with _ hlt
    rw [← Option.some.inj hds]
    exact hlt
  unfold parseU32 at h
  split at h
  · exact hdigits _ h
  · exact hdigits _ h

theorem configureGuestNetwork_request (conn : ℕ) (ipCidr gateway : String) :
    configureGuestNetwork conn ipCidr gateway =
      ask (onHost (.configureNetwork conn (configureRequest ipCidr gateway).ipAddress
        (configureRequest ipCidr gateway).gateway (configureRequest ipCidr gateway).prefixLen.toNat))
        fun e => ["configure_network RPC", e] := by
  have hlen : (configureRequest ipCidr gateway).prefixLen.toNat =
      (((splitCidr ipCidr)[1]?).bind parseU32).getD 24 := by
    rw [configureRequest, UInt32.toNat_ofNat', Nat.mod_eq_of_lt]
    cases hp : ((splitCidr ipCidr)[1]?).bind parseU32 with
    | none => decide
    | some n =>
      obtain ⟨s, -, hs⟩ := Option.bind_eq_some_iff.mp hp
      exact parseU32_lt hs
  rw [hlen]
  rfl

/-! ### What there is in the pod -/

/-- The address after another one; the last one is followed by `0.0.0.0`. -/
def nextAddr (ip : Ipv4Addr) : Ipv4Addr := Ipv4Addr.ofNat ((Ipv4Addr.toNat ip + 1) % 2 ^ 32)

/-- The gateway that is inferred, or a panic. -/
def inferred (b : Build) (ip : Ipv4Addr) (len : UInt8) : Except String (Option Ipv4Addr) :=
  if len = 0 then
    match b with
    | .debug => .error "attempt to shift left with overflow"
    | .release => .ok (some (nextAddr ip))
  else if len ≤ 30 then .ok (some (firstHost ip len.toNat))
  else .ok none

section Pod

variable {κ : Type} (K : Kernel κ) (k : κ)

def addressOf (l : LinkRec) : Option (Ipv4Addr × UInt8) :=
  (K.addrs k).flatten.findSome? fun a => if a.idx = l.idx then a.address.map fun ip => (ip, a.prefixLen) else none

/-- The first link with an address, but for the loopback and links without a name. -/
def podAddress : Option (LinkRec × Ipv4Addr × UInt8) :=
  (K.links k).flatten.findSome? fun l =>
    if l.name = "lo" ∨ l.name = "" then none else (addressOf K k l).map fun a => (l, a)

def defaultGateway : Option Ipv4Addr :=
  (K.routes k).flatten.findSome? fun r => if r.dstLen = 0 then r.gateway else none

/-- The gateway of the pod, or a panic. -/
def podGateway (b : Build) (ip : Ipv4Addr) (len : UInt8) : Except String (Option Ipv4Addr) :=
  match defaultGateway K k with
  | some gw => .ok (some gw)
  | none => inferred b ip len

/-- What is discovered in the pod, on a new socket: at the first attempt that finds an address. -/
def discover (wait : ℕ → κ → κ) (b : Build) (k : κ) : Except NlError (Except String PodNetInfo) :=
  (runOn (act K wait) (probePod b).run (.fresh k)).1

end Pod

/-! ### The discovery -/

section Discovery

variable {κ : Type} {K : Kernel κ} {wait : ℕ → κ → κ} {k : κ}

theorem getIpv4_run (l : LinkRec) : runOn (step K) (getIpv4 l.idx).run ⟨[], k⟩ =
    (.ok ((addressOf K k l).map fun a => a.1.text ++ "/" ++ toString a.2.toNat), ⟨[], k⟩) := by
  have haddrs : runOn (step K) (say .addrs).run ⟨[], k⟩ = (.ok (K.addrs k).flatten, ⟨[], k⟩) := by
    obtain ⟨hr, hs, -⟩ := dump_step (K := K) (h := ⟨[], k⟩) (.inl rfl) (a := .addrs) rfl
    exact Prod.ext hr hs
  rw [getIpv4, runOn_ok haddrs, addressOf, List.map_findSome?]
  refine Prod.ext (congrArg Except.ok (congrArg (fun f => List.findSome? f _) (funext fun a => ?_))) rfl
  by_cases ha : a.idx = l.idx
  · rw [Function.comp, if_pos ha, if_pos ha, Option.map_map]
    rfl
  · rw [Function.comp, if_neg ha, if_neg ha]
    rfl

theorem vethIn_run (ls : List LinkRec) : runOn (step K) (vethIn ls).run ⟨[], k⟩ =
    (.ok ((ls.findSome? fun l => if l.name = "lo" ∨ l.name = "" then none else (addressOf K k l).map fun a => (l, a)).map
      fun x => (x.2.1.text ++ "/" ++ toString x.2.2.toNat, x.1.mac)), ⟨[], k⟩) := by
  induction ls with
  | nil => rfl
  | cons l ls ih =>
    rw [vethIn, List.findSome?_cons]
    by_cases hl : l.name = "lo" ∨ l.name = ""
    · rw [if_pos hl, if_pos hl]
      exact ih
    · rw [if_neg hl, if_neg hl, runOn_ok (getIpv4_run l)]
      cases addressOf K k l with
      | none => exact ih
      | some a => rfl

theorem podVeth_run : runOn (step K) podVeth.run ⟨[], k⟩ =
    (.ok ((podAddress K k).map fun x => (x.2.1.text ++ "/" ++ toString x.2.2.toNat, x.1.mac)), ⟨[], k⟩) := by
  rw [podVeth, runOn_ok (dumpLinks_run k)]
  exact vethIn_run _

theorem retrying_run (tries ms left : ℕ) (k : κ) :
    (∀ x k', firstFound (podAddress K) (wait ms) left k = some (x, k') →
      runOn (act K wait) (retrying podVeth tries ms left).run ⟨[], k⟩ =
        (.ok (x.2.1.text ++ "/" ++ toString x.2.2.toNat, x.1.mac), ⟨[], k'⟩)) ∧
    (firstFound (podAddress K) (wait ms) left k = none →
      ∃ e h, runOn (act K wait) (retrying podVeth tries ms left).run ⟨[], k⟩ = (.error e, h)) := by
  induction left generalizing k with
  | zero => exact ⟨fun x k' h => (by cases h), fun _ => ⟨_, _, rfl⟩⟩
  | succ left ih =>
    have hrun : runOn (act K wait) (use podVeth).run ⟨[], k⟩ = _ := runOn_use.trans podVeth_run
    unfold retrying firstFound
    rw [runOn_ok hrun]
    cases podAddress K k with
    | some x =>
      refine ⟨fun y k' h => ?_, fun h => (by cases h)⟩
      cases h
      rfl
    | none => exact ih (wait ms k)

theorem getDefaultGw_run : runOn (step K) getDefaultGw.run ⟨[], k⟩ =
    (.ok ((defaultGateway K k).map Ipv4Addr.text), ⟨[], k⟩) := by
  have hroutes : runOn (step K) (say .routes).run ⟨[], k⟩ = (.ok (K.routes k).flatten, ⟨[], k⟩) := by
    obtain ⟨hr, hs, -⟩ := dump_step (K := K) (h := ⟨[], k⟩) (.inl rfl) (a := .routes) rfl
    exact Prod.ext hr hs
  rw [getDefaultGw, runOn_ok hroutes, defaultGateway, List.map_findSome?]
  refine Prod.ext (congrArg Except.ok (congrArg (fun f => List.findSome? f _) (funext fun r => ?_))) rfl
  by_cases hr : r.dstLen = 0
  · rw [Function.comp, if_pos hr, if_pos hr]
  · rw [Function.comp, if_neg hr, if_neg hr]
    rfl

theorem inferGateway_release_zero (ip : Ipv4Addr) : inferGateway .release (ip.text ++ "/" ++ toString 0) =
    .ok (some (nextAddr ip).text) := by
  have hshl : Build.release.shl 1 (UInt32.ofNat (32 - 0)) = .ok 1 := by decide
  have hsub : Build.release.sub 1 1 = .ok 0 := by decide
  have hnet : UInt32.ofNat (Ipv4Addr.toNat ip) &&& ~~~ (0 : UInt32) = UInt32.ofNat (Ipv4Addr.toNat ip) := by
    rw [← UInt32.toNat_inj, toNat_mask _ _ (Nat.zero_lt_succ 31) rfl, Nat.pow_zero, Nat.div_one, Nat.mul_one]
  have hadd : Build.release.add (UInt32.ofNat (Ipv4Addr.toNat ip) &&& ~~~ (0 : UInt32)) 1 =
      .ok (UInt32.ofNat (Ipv4Addr.toNat ip) + 1) := by
    rw [hnet, Build.add]
    split <;> rfl
  have hnext : (UInt32.ofNat (Ipv4Addr.toNat ip) + 1).toNat = (Ipv4Addr.toNat ip + 1) % 2 ^ 32 := by
    rw [UInt32.toNat_add, UInt32.toNat_ofNat', Nat.mod_eq_of_lt (toNat_lt ip), UInt32.toNat_one]
  rw [inferGateway_text, if_pos (Nat.zero_le 30), steps_ok hshl hsub hadd, hnext, nextAddr]

theorem inferGateway_eq (b : Build) (ip : Ipv4Addr) (len : UInt8) :
    inferGateway b (ip.text ++ "/" ++ toString len.toNat) = (inferred b ip len).map (Option.map Ipv4Addr.text) := by
  unfold inferred
  by_cases hzero : len = 0
  · subst hzero
    cases b with
    | debug => exact inferGateway_zero ip
    | release => exact inferGateway_release_zero ip
  · have hne : len.toNat ≠ 0 := fun h => hzero (UInt8.toNat_inj.mp h)
    rw [if_neg hzero]
    by_cases h30 : len ≤ 30
    · have hle : len.toNat ≤ 30 := UInt8.le_iff_toNat_le.mp h30
      rw [if_pos h30, inferGateway_firstHost b ip (by omega) hle]
      rfl
    · have hle : ¬ len.toNat ≤ 30 := fun h => h30 (UInt8.le_iff_toNat_le.mpr h)
      rw [if_neg h30, inferGateway_text, if_neg hle]
      rfl

theorem found_ok {α : Type} (text : String) {m : MS α} {x : α} {h h' : Handle κ}
    (hm : runOn (act K wait) m.run h = (.ok x, h')) : runOn (act K wait) (found text m).run h = (.ok x, h') := by
  show runOn (act K wait) (m.run >>= _) h = _
  rw [runOn_bind, hm]
  rfl

theorem found_error {α : Type} (text : String) {m : MS α} {e : NlError} {h h' : Handle κ}
    (hm : runOn (act K wait) m.run h = (.error e, h')) :
    runOn (act K wait) (found text m).run h = (.error ⟨text, e.os⟩, h') := by
  show runOn (act K wait) (m.run >>= _) h = _
  rw [runOn_bind, hm]
  rfl

/-- The texts that are discovered. -/
def netInfo (l : LinkRec) (ip : Ipv4Addr) (len : UInt8) (gw : Option Ipv4Addr) : PodNetInfo :=
  ⟨ip.text ++ "/" ++ toString len.toNat, (gw.map Ipv4Addr.text).getD "", l.mac⟩

theorem discover_found {b : Build} {l : LinkRec} {ip : Ipv4Addr} {len : UInt8} {k' : κ}
    (h : firstFound (podAddress K) (wait 100) 20 k = some ((l, ip, len), k')) :
    discover K wait b k = .ok ((podGateway K k' b ip len).map (netInfo l ip len)) := by
  have hveth := found_ok "find veth" ((retrying_run (K := K) 20 100 20 k).1 _ _ h)
  have hgw : runOn (act K wait) (use (Netlink.attempt getDefaultGw)).run ⟨[], k'⟩ =
      (.ok (.ok ((defaultGateway K k').map Ipv4Addr.text)), ⟨[], k'⟩) := by
    rw [runOn_use, runOn_attempt, getDefaultGw_run]
  rw [discover, probePod, Handle.fresh, runOn_ok hveth]
  dsimp only
  rw [runOn_ok hgw, podGateway]
  cases defaultGateway K k' with
  | some gw => rfl
  | none =>
    show Except.ok ((inferGateway b _).map _) = _
    rw [inferGateway_eq]
    cases inferred b ip len with
    | error e => rfl
    | ok gw => cases gw <;> rfl

theorem discover_missed {b : Build} (h : firstFound (podAddress K) (wait 100) 20 k = none) :
    ∃ e, discover K wait b k = .error e := by
  obtain ⟨e, h', hrun⟩ := (retrying_run (K := K) 20 100 20 k).2 h
  refine ⟨⟨"find veth", e.os⟩, ?_⟩
  rw [discover, probePod, Handle.fresh, runOn_error (found_error "find veth" hrun)]

/-! ### The guest -/

theorem text_ne_empty (ip : Ipv4Addr) : ip.text ≠ "" := by
  intro h
  have hlist := text_toList ip
  rw [h] at hlist
  simp at hlist

/-- The handler parses what was read. -/
theorem parsed_netInfo (l : LinkRec) (ip : Ipv4Addr) (len : UInt8) (gw : Option Ipv4Addr) :
    Agent.parsed (configureRequest (netInfo l ip len gw).ipCidr (netInfo l ip len gw).gateway) =
      if len > 32 then .error "invalid prefix_len: must be between 0 and 32" else .ok (ip, gw, len) := by
  have hlt : len.toNat < 256 := len.toNat_lt
  have hnum : parseU32 (toString len.toNat) = some len.toNat := by
    rw [parseU32_toString, if_pos (by omega)]
  unfold configureRequest netInfo
  rw [splitCidr_text]
  simp only [List.headD_cons, List.getElem?_cons_succ, List.getElem?_cons_zero, Option.bind_some, hnum, Option.getD_some]
  have hword : (UInt32.ofNat len.toNat).toNat = len.toNat := by
    rw [UInt32.toNat_ofNat', Nat.mod_eq_of_lt (by omega)]
  unfold Agent.parsed
  simp only [parseIpv4_text, hword, if_pos hlt, UInt8.ofNat_toNat]
  cases gw with
  | none => rfl
  | some gw =>
    simp only [Option.map_some, Option.getD_some, if_neg (text_ne_empty gw), parseIpv4_text]
    rfl

end Discovery

/-- **A guest gets the address of its pod.**  When the discovery comes to something, the handler in the guest calls
`configure_interface` with the address and the prefix length of the record of the pod's interface, and with the
gateway of the pod's default route, or the first host address of the subnet. -/
theorem guest_gets_pod_address {κ : Type} (K : Kernel κ) (wait : ℕ → κ → κ) (b : Build) (k : κ) {info : PodNetInfo}
    (h : discover K wait b k = .ok (.ok info)) :
    ∃ l ip len gw k', firstFound (podAddress K) (wait 100) 20 k = some ((l, ip, len), k') ∧
      podGateway K k' b ip len = .ok gw ∧ info.mac = l.mac ∧
      ∀ {γ : Type} (G : Kernel γ) (waitG : ℕ → γ → γ) (pathExists : γ → String → Bool) (rounds : ℕ) (g : γ),
        Agent.configureNetwork G waitG pathExists rounds (configureRequest info.ipCidr info.gateway) g =
          match Agent.waitForDevice waitG pathExists "eth0" rounds g with
          | (false, g) => (.error (.others (Agent.deviceText "eth0")), g)
          | (true, g) =>
            if len > 32 then (.error (.others "invalid prefix_len: must be between 0 and 32"), g)
            else ((configure G waitG g "eth0" ip len gw none).1.mapError .configureInterface,
              (configure G waitG g "eth0" ip len gw none).2) := by
  cases hfound : firstFound (podAddress K) (wait 100) 20 k with
  | none =>
    obtain ⟨e, he⟩ := discover_missed (b := b) hfound
    rw [he] at h
    cases h
  | some x =>
    obtain ⟨⟨l, ip, len⟩, k'⟩ := x
    rw [discover_found hfound] at h
    cases hgw : podGateway K k' b ip len with
    | error e =>
      rw [hgw] at h
      cases h
    | ok gw =>
      rw [hgw] at h
      obtain rfl : netInfo l ip len gw = info := Except.ok.inj (Except.ok.inj h)
      refine ⟨l, ip, len, gw, k', rfl, hgw, rfl, fun G waitG pathExists rounds g => ?_⟩
      have hparsed := parsed_netInfo l ip len gw
      show (match Agent.waitForDevice waitG pathExists "eth0" rounds g with
        | (false, g) => _
        | (true, g) => Agent.configureParsed G waitG "eth0" none _ g) = _
      rcases Agent.waitForDevice waitG pathExists "eth0" rounds g with ⟨appeared, g'⟩
      cases appeared with
      | false => rfl
      | true =>
        show Agent.configureParsed G waitG "eth0" none _ g' = _
        rw [Agent.configureParsed, hparsed]
        dsimp only
        split_ifs <;> rfl

/-- A pod on a bridge, whose interface has its address after the first pause. -/
def bridgePod : Kernel Bool where
  getLink _ _ := .error 19
  ask k _ := (.error 95, k)
  links _ := [[⟨1, "lo", "00:00:00:00:00:00"⟩, ⟨3, "eth0", "9a:01:02:03:04:05"⟩]]
  addrs ready := [[⟨1, some ⟨127, 0, 0, 1⟩, 8, 76⟩], if ready then [⟨3, some ⟨10, 88, 7, 2⟩, 16, 88⟩] else []]
  routes _ := []
  strerror e := "os error " ++ toString e
  getLink_errno _ _ _ h := by
    cases h
    decide
  ask_errno _ _ _ h := by
    cases h
    decide

theorem guest_gets_pod_address_bridge :
    Agent.configureNetwork linksOnly (fun _ ls => ls) (fun ls _ => ls ≠ []) 3
        (configureRequest "10.88.7.2/16" "10.88.0.1") eth0Only =
      ((configure linksOnly (fun _ ls => ls) eth0Only "eth0" ⟨10, 88, 7, 2⟩ 16 (some ⟨10, 88, 0, 1⟩) none).1.mapError
          .configureInterface,
        (configure linksOnly (fun _ ls => ls) eth0Only "eth0" ⟨10, 88, 7, 2⟩ 16 (some ⟨10, 88, 0, 1⟩) none).2) := by
  have hinfo : discover bridgePod (fun _ _ => true) .debug false =
      .ok (.ok ⟨"10.88.7.2/16", "10.88.0.1", "9a:01:02:03:04:05"⟩) := by decide +kernel
  obtain ⟨l, ip, len, gw, k', hfound, hgw, -, hguest⟩ := guest_gets_pod_address bridgePod (fun _ _ => true) .debug false hinfo
  have hfirst : firstFound (podAddress bridgePod) ((fun _ _ => true : ℕ → Bool → Bool) 100) 20 false =
      some ((⟨3, "eth0", "9a:01:02:03:04:05"⟩, ⟨10, 88, 7, 2⟩, 16), true) := by decide +kernel
  rw [hfirst] at hfound
  cases hfound
  have hgate : podGateway bridgePod true .debug ⟨10, 88, 7, 2⟩ 16 = .ok (some ⟨10, 88, 0, 1⟩) := by decide +kernel
  rw [hgate] at hgw
  cases hgw
  exact hguest linksOnly (fun _ ls => ls) (fun ls _ => ls ≠ []) 3 eth0Only

end CloudHv.Daemon
