import CloudHv.Common.Socket
import Mathlib.Data.Set.Basic

/-!
# Configure — the address and the route of a guest's interface

`configure_interface` of `crates/common/src/netlink.rs` looks a device up, by its MAC or by its name, adds an address
to it, brings it up and adds a default route.  The lookups are repeated while the device does not appear; what
happens in the guest during a sleep is a parameter (`wait`).

An address or a route that is there already is meant to be fine: the code looks for `EEXIST` in the text of the
error.  The text of a refused request is "netlink request", whatever the code, so it is not found there.  And after a
lookup by name every request reads the answer to the one before it, so the answer to the new address is read when the
link is brought up, where no error is tolerated.  A call that succeeded has added the address, and the same call fails
the second time (`configure_idempotent_iff`).
-/

namespace CloudHv.Netlink

open Conc

/-! ### Calls and sleeps -/

/-- A call on the socket, or `std::thread::sleep`. -/
inductive Act where
  | nl (a : Action)
  | sleep (ms : ℕ)

abbrev Reply : Act → Type
  | .nl a => Answer a
  | .sleep _ => Unit

/-- Code that calls the handle and sleeps. -/
abbrev MS := ExceptT NlError (Prog Act Reply)

def use {α : Type} (m : M α) : MS α := ExceptT.mk (m.run.lift .nl fun _ r => r)

def sleep (ms : ℕ) : MS Unit := liftM (Prog.call (Act.sleep ms) : Prog Act Reply Unit)

section Sleeps

variable {κ : Type} (K : Kernel κ) (wait : ℕ → κ → κ)

/-- The kernel goes on while the code sleeps. -/
def act (h : Handle κ) : (a : Act) → Reply a × Handle κ
  | .nl a => step K h a
  | .sleep ms => ((), ⟨h.queue, wait ms h.kernel⟩)

variable {K wait}

theorem runOn_use {α : Type} {m : M α} {h : Handle κ} :
    runOn (act K wait) (use m).run h = runOn (step K) m.run h :=
  runOn_lift (fun _ _ => rfl) m.run h

end Sleeps

/-! ### The code -/

/-- The attempts of `retry_get_link_index` when `left` are left. -/
def getLinkIndexIn (device : String) (maxAttempts delayMs : ℕ) : ℕ → MS ℕ
  -- `unreachable!()`: there is at least one attempt
  | 0 => throw ⟨"unreachable", none⟩
  | left + 1 => do
    match ← use (attempt (getLinkIndex device)) with
    | .ok idx => pure idx
    | .error e =>
      if left > 0 then do
        sleep delayMs
        getLinkIndexIn device maxAttempts delayMs left
      else throw ⟨"device " ++ device ++ " not found after " ++ toString maxAttempts ++ " retries", e.os⟩

def retryGetLinkIndex (device : String) (maxAttempts delayMs : ℕ) : MS ℕ :=
  getLinkIndexIn device maxAttempts delayMs maxAttempts

/-- The links as they are logged. -/
def visible (links : List LinkRec) : String :=
  ", ".intercalate (links.map fun l => l.name ++ "(idx=" ++ toString l.idx ++ ",mac=" ++ l.mac ++ ")")

/-- The links are listed for the log at the first attempt, and at the one in the middle. -/
def logVisible (attemptNo maxAttempts : ℕ) : MS Unit :=
  if attemptNo = 0 ∨ attemptNo = maxAttempts / 2 then do
    let _ ← use (attempt dumpLinks)
  else pure ()

/-- The attempts of `retry_find_by_mac` when `left` are left. -/
def findByMacIn (mac : String) (maxAttempts delayMs : ℕ) : ℕ → MS (String × ℕ)
  | 0 => throw ⟨"unreachable", none⟩
  | left + 1 => do
    match ← use (findByMac mac) with
    | some found => pure found
    | none =>
      logVisible (maxAttempts - (left + 1)) maxAttempts
      if left > 0 then do
        sleep delayMs
        findByMacIn mac maxAttempts delayMs left
      else do
        let links ← use (attempt dumpLinks)
        let devs := match links with
          | .ok links => visible links
          | .error _ => ""
        throw ⟨"device with mac " ++ mac ++ " not found after " ++ toString maxAttempts ++ " retries; visible: [" ++
          devs ++ "]", none⟩

def retryFindByMac (mac : String) (maxAttempts delayMs : ℕ) : MS (String × ℕ) :=
  findByMacIn mac maxAttempts delayMs maxAttempts

/-- The text of an error that is taken for "already exists". -/
def exists? (msg : String) : Bool := "EEXIST".toList <:+: msg.toList ∨ "File exists".toList <:+: msg.toList

/-- An error that says "already exists" is fine. -/
def tolerant (m : M Unit) : MS Unit := do
  match ← use (attempt m) with
  | .ok _ => pure ()
  | .error e => if exists? e.text then pure () else throw e

/-- What `configure_interface` does with the device that it found. -/
def assign (idx : ℕ) (ip : Ipv4Addr) (prefixLen : UInt8) (gateway : Option Ipv4Addr) : MS Unit := do
  tolerant (addAddress idx ip prefixLen)
  use (setLinkUp idx)
  match gateway with
  | some gw => tolerant (addDefaultRoute gw idx)
  | none => pure ()

/-- The name and the index of the device. -/
def resolveDevice (device : String) (mac : Option String) : MS (String × ℕ) :=
  match mac with
  | some macAddr => retryFindByMac macAddr 50 200
  | none => do
    let idx ← retryGetLinkIndex device 20 100
    pure (device, idx)

def configureInterface (device : String) (ip : Ipv4Addr) (prefixLen : UInt8) (gateway : Option Ipv4Addr)
    (mac : Option String) : MS Unit := do
  let found ← resolveDevice device mac
  assign found.2 ip prefixLen gateway

section Configure

variable {κ : Type} (K : Kernel κ) (wait : ℕ → κ → κ)

/-- A call with a socket of its own: its result, and the guest after it. -/
def configure (k : κ) (device : String) (ip : Ipv4Addr) (prefixLen : UInt8) (gateway : Option Ipv4Addr)
    (mac : Option String) : Except NlError Unit × κ :=
  let r := runOn (act K wait) (configureInterface device ip prefixLen gateway mac).run (.fresh k)
  (r.1, r.2.kernel)

/-- A second call with the same arguments succeeds after one that did, and leaves the addresses and the routes as
they are. -/
def Idempotent (k : κ) (device : String) (ip : Ipv4Addr) (prefixLen : UInt8) (gateway : Option Ipv4Addr)
    (mac : Option String) : Prop :=
  let first := configure K wait k device ip prefixLen gateway mac
  let second := configure K wait first.2 device ip prefixLen gateway mac
  first.1 = .ok () → second.1 = .ok () ∧
    {a | a ∈ (K.addrs second.2).flatten} = {a | a ∈ (K.addrs first.2).flatten} ∧
    {r | r ∈ (K.routes second.2).flatten} = {r | r ∈ (K.routes first.2).flatten}

end Configure

/-! ### The requests of a call -/

/-- What is sent for the device that was found. -/
def requests (idx : ℕ) (ip : Ipv4Addr) (prefixLen : UInt8) (gateway : Option Ipv4Addr) : List Req :=
  .newAddr idx ip prefixLen :: .setLinkUp idx :: gateway.toList.map fun gw => .newRoute gw idx

/-- Requests one after the other, up to the first error. -/
def sendAll : List Req → M Unit
  | [] => pure ()
  | r :: rs => do
    say (.request r)
    sendAll rs

section Requests

variable {κ : Type} (K : Kernel κ)

/-- The codes in the answers to requests. -/
def codes : κ → List Req → List ℕ
  | _, [] => []
  | k, r :: rs => errno (K.ask k r).1 :: codes (K.ask k r).2 rs

/-- The guest after requests. -/
def asked (k : κ) (rs : List Req) : κ := rs.foldl (fun k r => (K.ask k r).2) k

variable {K} {wait : ℕ → κ → κ}

theorem exists?_request : exists? "netlink request" = false := by
  refine decide_eq_false ?_
  rintro (h | h)
  · have hE : 'E' ∈ "netlink request".toList := h.subset (show 'E' ∈ "EEXIST".toList by simp)
    simp at hE
  · have hF : 'F' ∈ "netlink request".toList := h.subset (show 'F' ∈ "File exists".toList by simp)
    simp at hF

/-- The error of a request is never taken for "already exists". -/
theorem tolerant_request (r : Req) (h : Handle κ) :
    runOn (act K wait) (tolerant (say (.request r))).run h = step K h (.request r) := by
  have hrun : runOn (act K wait) (use (attempt (say (.request r)))).run h =
      (.ok (step K h (.request r)).1, (step K h (.request r)).2) := by
    rw [runOn_use, runOn_attempt, runOn_say]
  rw [tolerant, runOn_ok hrun]
  have htext : ∀ e, readAck (recv h.queue [.ack (errno (K.ask h.kernel r).1) r.len] []).1 = .error e →
      e.text = "netlink request" := by
    intro e he
    unfold readAck at he
    split at he
    · split at he
      · cases he
        rfl
      · cases he
    · cases he
  cases hres : (step K h (.request r)).1 with
  | ok u => exact Prod.ext hres.symm rfl
  | error e =>
    simp only [htext e hres, exists?_request]
    exact Prod.ext hres.symm rfl

theorem send_cons {m : MS Unit} {f : Unit → MS Unit} {r : Req} {rs : List Req} {h : Handle κ}
    (hm : runOn (act K wait) m.run h = step K h (.request r))
    (hf : ∀ h', runOn (act K wait) (f ()).run h' = runOn (step K) (sendAll rs).run h') :
    runOn (act K wait) (m >>= f).run h = runOn (step K) (sendAll (r :: rs)).run h := by
  cases hres : step K h (.request r) with
  | mk res h' =>
    have hsay : runOn (step K) (say (.request r)).run h = (res, h') := hres
    cases res with
    | ok u =>
      rw [runOn_ok (hm.trans hres), sendAll, runOn_ok hsay]
      exact hf h'
    | error e => rw [runOn_error (hm.trans hres), sendAll, runOn_error hsay]

/-- The tolerance makes no difference. -/
theorem assign_run (idx : ℕ) (ip : Ipv4Addr) (prefixLen : UInt8) (gateway : Option Ipv4Addr) (h : Handle κ) :
    runOn (act K wait) (assign idx ip prefixLen gateway).run h =
      runOn (step K) (sendAll (requests idx ip prefixLen gateway)).run h := by
  refine send_cons (tolerant_request _ h) fun h' => ?_
  refine send_cons runOn_use fun h'' => ?_
  cases gateway with
  | none => rfl
  | some gw =>
    have hlast : runOn (act K wait) (tolerant (addDefaultRoute gw idx) >>= fun _ => pure ()).run h'' =
        runOn (step K) (sendAll [.newRoute gw idx]).run h'' :=
      send_cons (tolerant_request _ h'') fun _ => rfl
    rw [bind_pure_unit] at hlast
    exact hlast

theorem readAck_ok (e len : ℕ) : readAck [.ack e len] = .ok () ↔ e = 0 := by
  unfold readAck
  split
  · simp_all
  · simp_all

/-- A request and those after it. -/
theorem sendAll_cons (r : Req) (rs : List Req) (h : Handle κ) :
    (runOn (step K) (sendAll (r :: rs)).run h).1 = .ok () ↔
      (step K h (.request r)).1 = .ok () ∧
        (runOn (step K) (sendAll rs).run (step K h (.request r)).2).1 = .ok () := by
  cases hres : step K h (.request r) with
  | mk res h' =>
    have hsay : runOn (step K) (say (.request r)).run h = (res, h') := hres
    cases res with
    | ok u =>
      rw [sendAll, runOn_ok hsay]
      simp
    | error e =>
      rw [sendAll, runOn_error hsay]
      simp

/-- With nothing unread, every request reads the answer to itself. -/
theorem sendAll_fresh (rs : List Req) (k : κ) :
    (runOn (step K) (sendAll rs).run ⟨[], k⟩).1 = .ok () ↔ ∀ e ∈ codes K k rs, e = 0 := by
  induction rs generalizing k with
  | nil => simp [sendAll, codes, runOn]
  | cons r rs ih =>
    rw [sendAll_cons, codes, List.forall_mem_cons]
    exact and_congr (readAck_ok _ r.len) (ih (K.ask k r).2)

/-- With an answer unread, every request reads the answer to the one before it. -/
theorem sendAll_late (rs : List Req) (k : κ) (e len : ℕ) :
    (runOn (step K) (sendAll rs).run ⟨[[.ack e len]], k⟩).1 = .ok () ↔ ∀ c ∈ (e :: codes K k rs).dropLast, c = 0 := by
  induction rs generalizing k e len with
  | nil => simp [sendAll, codes, runOn]
  | cons r rs ih =>
    rw [sendAll_cons, codes, List.dropLast_cons_cons, List.forall_mem_cons]
    exact and_congr (readAck_ok e len) (ih (K.ask k r).2 _ r.len)

/-- The requests were all sent when the last one succeeded. -/
theorem sendAll_kernel (rs : List Req) (h : Handle κ) (hok : (runOn (step K) (sendAll rs).run h).1 = .ok ()) :
    (runOn (step K) (sendAll rs).run h).2.kernel = asked K h.kernel rs := by
  induction rs generalizing h with
  | nil => rfl
  | cons r rs ih =>
    have hrest := (sendAll_cons r rs h).mp hok
    have hsay : runOn (step K) (say (.request r)).run h = (.ok (), (step K h (.request r)).2) :=
      Prod.ext hrest.1 rfl
    rw [sendAll, runOn_ok hsay, ih _ hrest.2]
    rfl

end Requests

/-! ### The lookups -/

section Lookups

variable {κ : Type} (K : Kernel κ) (wait : ℕ → κ → κ)

/-- The index of the link of a name. -/
def indexOf (device : String) (k : κ) : Option ℕ :=
  match K.getLink k device with
  | .ok l => some l.idx
  | .error _ => none

/-- The link of a MAC. -/
def linkOfMac (mac : String) (k : κ) : Option (String × ℕ) :=
  ((K.links k).flatten.find? fun l => l.mac.toLower = mac.toLower).map fun l => (l.name, l.idx)

/-- What a lookup finds in up to `n` attempts, and the guest at that time. -/
def firstFound {α : Type} (lookup : κ → Option α) (pause : κ → κ) : ℕ → κ → Option (α × κ)
  | 0, _ => none
  | n + 1, k =>
    match lookup k with
    | some x => some (x, k)
    | none => firstFound lookup pause n (pause k)

/-- The index of the device, and the guest when it is found. -/
def resolved (k : κ) (device : String) (mac : Option String) : Option (ℕ × κ) :=
  match mac with
  | some macAddr => (firstFound (linkOfMac K macAddr) (wait 200) 50 k).map fun x => (x.1.2, x.2)
  | none => firstFound (indexOf K device) (wait 100) 20 k

/-- What is unread after the lookup. -/
def unread (device : String) (mac : Option String) : List Dgram :=
  if mac.isSome then [] else [[.ack 0 (getLinkLen device)]]

variable {K}

theorem getLinkIndex_found {device : String} {k : κ} {i : ℕ} (h : indexOf K device k = some i) :
    runOn (step K) (getLinkIndex device).run ⟨[], k⟩ = (.ok i, ⟨[[.ack 0 (getLinkLen device)]], k⟩) := by
  unfold indexOf at h
  show step K ⟨[], k⟩ (.getIndex device) = _
  cases hl : K.getLink k device with
  | error e => simp [hl] at h
  | ok l =>
    simp only [hl, Option.some.injEq] at h
    subst h
    simp only [step, hl]
    rfl

theorem getLinkIndex_missed {device : String} {k : κ} (h : indexOf K device k = none) :
    ∃ e, runOn (step K) (getLinkIndex device).run ⟨[], k⟩ = (.error e, ⟨[], k⟩) := by
  unfold indexOf at h
  cases hl : K.getLink k device with
  | ok l => simp [hl] at h
  | error e =>
    refine ⟨⟨"link " ++ device ++ ": " ++ K.strerror e, none⟩, ?_⟩
    show step K ⟨[], k⟩ (.getIndex device) = _
    simp only [step, hl, recv, readIndex]
    rw [if_pos (K.getLink_errno k device e hl)]

theorem getLinkIndexIn_run (device : String) (maxAttempts delayMs left : ℕ) (k : κ) :
    (∀ i k', firstFound (indexOf K device) (wait delayMs) left k = some (i, k') →
      runOn (act K wait) (getLinkIndexIn device maxAttempts delayMs left).run ⟨[], k⟩ =
        (.ok i, ⟨[[.ack 0 (getLinkLen device)]], k'⟩)) ∧
    (firstFound (indexOf K device) (wait delayMs) left k = none →
      ∃ e h, runOn (act K wait) (getLinkIndexIn device maxAttempts delayMs left).run ⟨[], k⟩ = (.error e, h)) := by
  induction left generalizing k with
  | zero =>
    refine ⟨fun i k' h => ?_, fun _ => ⟨_, _, rfl⟩⟩
    cases h
  | succ left ih =>
    unfold getLinkIndexIn firstFound
    cases hi : indexOf K device k with
    | some i =>
      have hrun : runOn (act K wait) (use (attempt (getLinkIndex device))).run ⟨[], k⟩ =
          (.ok (.ok i), ⟨[[.ack 0 (getLinkLen device)]], k⟩) := by
        rw [runOn_use, runOn_attempt, getLinkIndex_found hi]
      rw [runOn_ok hrun]
      refine ⟨fun j k' h => ?_, fun h => by cases h⟩
      cases h
      rfl
    | none =>
      obtain ⟨e, he⟩ := getLinkIndex_missed hi
      have hrun : runOn (act K wait) (use (attempt (getLinkIndex device))).run ⟨[], k⟩ =
          (.ok (.error e), ⟨[], k⟩) := by
        rw [runOn_use, runOn_attempt, he]
      rw [runOn_ok hrun]
      by_cases hleft : left > 0
      · simp only [if_pos hleft]
        exact ih (wait delayMs k)
      · obtain rfl : left = 0 := by omega
        refine ⟨fun i k' h => ?_, fun _ => ⟨_, _, rfl⟩⟩
        cases h

theorem dumpLinks_run (k : κ) :
    runOn (step K) dumpLinks.run ⟨[], k⟩ = (.ok (K.links k).flatten, ⟨[], k⟩) := by
  obtain ⟨hr, hs, -⟩ := dump_step (K := K) (h := ⟨[], k⟩) (.inl rfl) (a := .links) rfl
  exact Prod.ext hr hs

theorem findByMac_run (mac : String) (k : κ) :
    runOn (step K) (findByMac mac).run ⟨[], k⟩ = (.ok (linkOfMac K mac k), ⟨[], k⟩) := by
  rw [findByMac, runOn_ok (dumpLinks_run k)]
  rfl

theorem use_dumpLinks (k : κ) :
    runOn (act K wait) (use (attempt dumpLinks)).run ⟨[], k⟩ = (.ok (.ok (K.links k).flatten), ⟨[], k⟩) := by
  rw [runOn_use, runOn_attempt, dumpLinks_run]

theorem logVisible_run (attemptNo maxAttempts : ℕ) (k : κ) :
    runOn (act K wait) (logVisible attemptNo maxAttempts).run ⟨[], k⟩ = (.ok (), ⟨[], k⟩) := by
  unfold logVisible
  split
  · rw [runOn_ok (use_dumpLinks wait k)]
    rfl
  · rfl

theorem findByMacIn_run (mac : String) (maxAttempts delayMs left : ℕ) (k : κ) :
    (∀ x k', firstFound (linkOfMac K mac) (wait delayMs) left k = some (x, k') →
      runOn (act K wait) (findByMacIn mac maxAttempts delayMs left).run ⟨[], k⟩ = (.ok x, ⟨[], k'⟩)) ∧
    (firstFound (linkOfMac K mac) (wait delayMs) left k = none →
      ∃ e h, runOn (act K wait) (findByMacIn mac maxAttempts delayMs left).run ⟨[], k⟩ = (.error e, h)) := by
  induction left generalizing k with
  | zero =>
    refine ⟨fun x k' h => ?_, fun _ => ⟨_, _, rfl⟩⟩
    cases h
  | succ left ih =>
    have hrun : runOn (act K wait) (use (findByMac mac)).run ⟨[], k⟩ = (.ok (linkOfMac K mac k), ⟨[], k⟩) := by
      rw [runOn_use, findByMac_run]
    unfold findByMacIn firstFound
    rw [runOn_ok hrun]
    cases hl : linkOfMac K mac k with
    | some x =>
      refine ⟨fun y k' h => ?_, fun h => by cases h⟩
      cases h
      rfl
    | none =>
      simp only
      rw [runOn_ok (logVisible_run wait _ _ k)]
      by_cases hleft : left > 0
      · simp only [if_pos hleft]
        exact ih (wait delayMs k)
      · obtain rfl : left = 0 := by omega
        refine ⟨fun x k' h => ?_, fun _ => ?_⟩
        · cases h
        · simp only [if_neg hleft]
          rw [runOn_ok (use_dumpLinks wait k)]
          exact ⟨_, _, rfl⟩

/-- The lookup finds the device, or fails. -/
theorem resolveDevice_run (device : String) (mac : Option String) (k : κ) :
    (∀ i k', resolved K wait k device mac = some (i, k') → ∃ name,
      runOn (act K wait) (resolveDevice device mac).run ⟨[], k⟩ = (.ok (name, i), ⟨unread device mac, k'⟩)) ∧
    (resolved K wait k device mac = none →
      ∃ e h, runOn (act K wait) (resolveDevice device mac).run ⟨[], k⟩ = (.error e, h)) := by
  cases mac with
  | some macAddr =>
    obtain ⟨hfound, hmissed⟩ := findByMacIn_run (K := K) wait macAddr 50 200 50 k
    simp only [resolved, Option.map_eq_some_iff, Option.map_eq_none_iff, Prod.mk.injEq]
    refine ⟨?_, hmissed⟩
    rintro i k' ⟨⟨⟨name, i'⟩, k''⟩, hx, rfl, rfl⟩
    exact ⟨name, hfound _ _ hx⟩
  | none =>
    obtain ⟨hfound, hmissed⟩ := getLinkIndexIn_run (K := K) wait device 20 100 20 k
    constructor
    · intro i k' hx
      exact ⟨device, runOn_ok (hfound i k' hx)⟩
    · intro hx
      obtain ⟨e, h, hrun⟩ := hmissed hx
      exact ⟨e, h, runOn_error hrun⟩

end Lookups

/-! ### The second call -/

section Second

variable {κ : Type} (K : Kernel κ) (wait : ℕ → κ → κ)

/-- The codes that are read: after a lookup by name, all but the last. -/
def codesRead (k : κ) (idx : ℕ) (ip : Ipv4Addr) (prefixLen : UInt8) (gateway : Option Ipv4Addr) (mac : Option String) :
    List ℕ :=
  if mac.isSome then codes K k (requests idx ip prefixLen gateway)
  else (codes K k (requests idx ip prefixLen gateway)).dropLast

/-- The device does not appear, or the kernel refuses a request whose answer is read. -/
def Refused (k : κ) (device : String) (ip : Ipv4Addr) (prefixLen : UInt8) (gateway : Option Ipv4Addr)
    (mac : Option String) : Prop :=
  ∀ idx k', resolved K wait k device mac = some (idx, k') → ∃ e ∈ codesRead K k' idx ip prefixLen gateway mac, e ≠ 0

/-- The link has the address. -/
def Present (k : κ) (idx : ℕ) (ip : Ipv4Addr) (prefixLen : UInt8) : Prop :=
  ∃ a ∈ (K.addrs k).flatten, a.idx = idx ∧ a.address = some ip ∧ a.prefixLen = prefixLen

/-- The kernel of Linux: RTM_NEWADDR with NLM_F_EXCL for an address that is there fails with EEXIST, and lists the
address when it succeeds; bringing a link up and new routes keep the addresses; links keep their names and MACs. -/
structure Exclusive : Prop where
  excl : ∀ k idx ip prefixLen, Present K k idx ip prefixLen →
    (K.ask k (.newAddr idx ip prefixLen)).1 = .error eexist
  added : ∀ k idx ip prefixLen, (K.ask k (.newAddr idx ip prefixLen)).1 = .ok () →
    Present K (K.ask k (.newAddr idx ip prefixLen)).2 idx ip prefixLen
  up_addrs : ∀ k idx, K.addrs (K.ask k (.setLinkUp idx)).2 = K.addrs k
  route_addrs : ∀ k gw idx, K.addrs (K.ask k (.newRoute gw idx)).2 = K.addrs k
  links : ∀ k idx ip prefixLen gateway, ∀ r ∈ requests idx ip prefixLen gateway,
    K.getLink (K.ask k r).2 = K.getLink k ∧ K.links (K.ask k r).2 = K.links k

variable {K wait} {k : κ} {device : String} {ip : Ipv4Addr} {prefixLen : UInt8} {gateway : Option Ipv4Addr}
  {mac : Option String}

/-- The requests for a device that was found. -/
theorem assign_ok_iff (idx : ℕ) :
    (runOn (act K wait) (assign idx ip prefixLen gateway).run ⟨unread device mac, k⟩).1 = .ok () ↔
      ∀ e ∈ codesRead K k idx ip prefixLen gateway mac, e = 0 := by
  rw [assign_run]
  cases mac with
  | some macAddr => exact sendAll_fresh _ k
  | none =>
    refine (sendAll_late _ k 0 (getLinkLen device)).trans ?_
    simp [codesRead, requests, codes, List.dropLast]

theorem configure_ok_iff : (configure K wait k device ip prefixLen gateway mac).1 = .ok () ↔
    ¬ Refused K wait k device ip prefixLen gateway mac := by
  obtain ⟨hfound, hmissed⟩ := resolveDevice_run (K := K) wait device mac k
  unfold configure configureInterface Refused
  cases hr : resolved K wait k device mac with
  | none =>
    obtain ⟨e, h, hrun⟩ := hmissed hr
    simp only [Handle.fresh]
    rw [runOn_error hrun]
    simp
  | some x =>
    obtain ⟨idx, k'⟩ := x
    obtain ⟨name, hrun⟩ := hfound idx k' hr
    simp only [Handle.fresh]
    rw [runOn_ok hrun, assign_ok_iff]
    simp

/-- After a call that succeeded all its requests were made. -/
theorem configure_kernel (hok : (configure K wait k device ip prefixLen gateway mac).1 = .ok ()) :
    ∃ idx k', resolved K wait k device mac = some (idx, k') ∧
      (∀ e ∈ codesRead K k' idx ip prefixLen gateway mac, e = 0) ∧
      (configure K wait k device ip prefixLen gateway mac).2 = asked K k' (requests idx ip prefixLen gateway) := by
  obtain ⟨hfound, hmissed⟩ := resolveDevice_run (K := K) wait device mac k
  unfold configure configureInterface at hok ⊢
  simp only [Handle.fresh] at hok ⊢
  cases hr : resolved K wait k device mac with
  | none =>
    obtain ⟨e, h, hrun⟩ := hmissed hr
    rw [runOn_error hrun] at hok
    cases hok
  | some x =>
    obtain ⟨idx, k'⟩ := x
    obtain ⟨name, hrun⟩ := hfound idx k' hr
    rw [runOn_ok hrun] at hok ⊢
    refine ⟨idx, k', rfl, (assign_ok_iff idx).mp hok, ?_⟩
    rw [assign_run] at hok ⊢
    exact sendAll_kernel _ _ hok

theorem firstFound_lookup {α : Type} {lookup : κ → Option α} {pause : κ → κ} {n : ℕ} {x : α} {k k' : κ}
    (h : firstFound lookup pause n k = some (x, k')) : lookup k' = some x := by
  induction n generalizing k with
  | zero => cases h
  | succ n ih =>
    unfold firstFound at h
    cases hl : lookup k with
    | some y =>
      simp only [hl, Option.some.injEq, Prod.mk.injEq] at h
      obtain ⟨rfl, rfl⟩ := h
      exact hl
    | none =>
      simp only [hl] at h
      exact ih h

/-- With the same links, the device is found again at once. -/
theorem resolved_again {idx : ℕ} {k' k'' : κ} (h : resolved K wait k device mac = some (idx, k'))
    (hlinks : K.getLink k'' = K.getLink k' ∧ K.links k'' = K.links k') :
    resolved K wait k'' device mac = some (idx, k'') := by
  cases mac with
  | some macAddr =>
    simp only [resolved, Option.map_eq_some_iff, Prod.mk.injEq] at h
    obtain ⟨⟨found, k₁⟩, hx, rfl, rfl⟩ := h
    have hsame : linkOfMac K macAddr k'' = some found := by
      rw [← firstFound_lookup hx]
      simp only [linkOfMac, hlinks.2]
    simp only [resolved, firstFound, hsame, Option.map_some]
  | none =>
    have hsame : indexOf K device k'' = some idx := by
      rw [← firstFound_lookup h]
      simp only [indexOf, hlinks.1]
    simp only [resolved, firstFound, hsame]

theorem asked_links (hK : Exclusive K) (idx : ℕ) (k : κ) :
    K.getLink (asked K k (requests idx ip prefixLen gateway)) = K.getLink k ∧
      K.links (asked K k (requests idx ip prefixLen gateway)) = K.links k := by
  have hkept : ∀ rs : List Req, (∀ r ∈ rs, r ∈ requests idx ip prefixLen gateway) → ∀ k : κ,
      K.getLink (asked K k rs) = K.getLink k ∧ K.links (asked K k rs) = K.links k := by
    intro rs
    induction rs with
    | nil => exact fun _ _ => ⟨rfl, rfl⟩
    | cons r rs ih =>
      intro hrs k
      obtain ⟨h1, h2⟩ := hK.links k idx ip prefixLen gateway r (hrs r List.mem_cons_self)
      obtain ⟨h3, h4⟩ := ih (fun r' hr' => hrs r' (List.mem_cons_of_mem r hr')) (K.ask k r).2
      exact ⟨h3.trans h1, h4.trans h2⟩
  exact hkept _ (fun _ hr => hr) k

/-- The address is there when the kernel took it. -/
theorem asked_present (hK : Exclusive K) {idx : ℕ} (h : errno (K.ask k (.newAddr idx ip prefixLen)).1 = 0) :
    Present K (asked K k (requests idx ip prefixLen gateway)) idx ip prefixLen := by
  have hok : (K.ask k (.newAddr idx ip prefixLen)).1 = .ok () := by
    cases hres : (K.ask k (.newAddr idx ip prefixLen)).1 with
    | ok u => rfl
    | error e =>
      rw [hres] at h
      exact absurd h (K.ask_errno _ _ e hres)
  have haddrs : K.addrs (asked K k (requests idx ip prefixLen gateway)) =
      K.addrs (K.ask k (.newAddr idx ip prefixLen)).2 := by
    cases gateway with
    | none => exact hK.up_addrs _ idx
    | some gw => exact (hK.route_addrs _ gw idx).trans (hK.up_addrs _ idx)
  unfold Present
  rw [haddrs]
  exact hK.added k idx ip prefixLen hok

/-- The answer to the new address is always read. -/
theorem newAddr_read (idx : ℕ) :
    errno (K.ask k (.newAddr idx ip prefixLen)).1 ∈ codesRead K k idx ip prefixLen gateway mac := by
  unfold codesRead requests codes codes
  split
  · exact List.mem_cons_self
  · rw [List.dropLast_cons_cons]
    exact List.mem_cons_self

/-- The second call fails. -/
theorem configure_again (hK : Exclusive K) (hok : (configure K wait k device ip prefixLen gateway mac).1 = .ok ()) :
    (configure K wait (configure K wait k device ip prefixLen gateway mac).2 device ip prefixLen gateway mac).1 ≠
      .ok () := by
  obtain ⟨idx, k', hfound, hread, hkernel⟩ := configure_kernel hok
  rw [hkernel, Ne, configure_ok_iff, not_not]
  intro idx' k'' hfound'
  rw [resolved_again hfound (asked_links hK idx k')] at hfound'
  obtain ⟨rfl, rfl⟩ : idx = idx' ∧ asked K k' (requests idx ip prefixLen gateway) = k'' := by
    simpa using hfound'
  refine ⟨_, newAddr_read idx, ?_⟩
  rw [hK.excl _ idx ip prefixLen (asked_present hK (hread _ (newAddr_read idx)))]
  decide

/-- **Configuring an interface twice.**  A second call with the same arguments fails after one that succeeded, so the
call is idempotent just when the first one is refused. -/
theorem configure_idempotent_iff (K : Kernel κ) (hK : Exclusive K) (wait : ℕ → κ → κ) (k : κ) (device : String)
    (ip : Ipv4Addr) (prefixLen : UInt8) (gateway : Option Ipv4Addr) (mac : Option String) :
    Idempotent K wait k device ip prefixLen gateway mac ↔ Refused K wait k device ip prefixLen gateway mac := by
  constructor
  · intro h
    by_contra hrefused
    have hok := configure_ok_iff.mpr hrefused
    exact configure_again hK hok (h hok).1
  · intro hrefused hok
    exact absurd hrefused (configure_ok_iff.mp hok)

end Second

/-! ### A guest -/

/-- What of a guest's network the code can see or change; `up` has the indices of the links that are up. -/
structure GuestNet where
  links : List LinkRec
  up : List ℕ
  addrs : List AddrRec
  routes : List RouteRec

/-- A request about a link, unless `check` gives an error. -/
def GuestNet.onLink (g : GuestNet) (idx : ℕ) (check : Option ℕ) (changed : GuestNet) : Except ℕ Unit × GuestNet :=
  if g.links.all fun l => l.idx ≠ idx then (.error 19, g)
  else
    match check with
    | some e => (.error e, g)
    | none => (.ok (), changed)

/-- The requests of `configure_interface`; the others are not supported.  An address that is there is not added
again, and a default route takes the place of another; a prefix has at most 32 bits, and routes need a link that is
up. -/
def guestAsk (g : GuestNet) : Req → Except ℕ Unit × GuestNet
  | .newAddr idx ip prefixLen =>
    if g.addrs.any fun a => a.idx = idx ∧ a.address = some ip ∧ a.prefixLen = prefixLen then (.error eexist, g)
    else
      g.onLink idx (if prefixLen > 32 then some 22 else none)
        { g with addrs := g.addrs ++ [⟨idx, some ip, prefixLen, 76⟩] }
  | .setLinkUp idx => g.onLink idx none { g with up := idx :: g.up }
  | .newRoute gw idx =>
    g.onLink idx (if idx ∈ g.up then none else some 100)
      { g with routes := g.routes.eraseP (fun r => r.dstLen = 0) ++ [⟨0, some gw, [idx], 16778238, 52⟩] }
  | _ => (.error 95, g)

theorem GuestNet.onLink_errno {g changed : GuestNet} {idx e : ℕ} {check : Option ℕ} (hc : check ≠ some 0)
    (h : (g.onLink idx check changed).1 = .error e) : e ≠ 0 := by
  unfold GuestNet.onLink at h
  split at h
  · cases h
    decide
  · split at h
    · next e' =>
      cases h
      rintro rfl
      exact hc rfl
    · cases h

def guestKernel : Kernel GuestNet where
  getLink := fun g name =>
    match g.links.find? fun l => l.name = name with
    | some l => .ok l
    | none => .error 19
  ask := guestAsk
  links := fun g => [g.links]
  addrs := fun g => [g.addrs]
  routes := fun g => [g.routes]
  strerror := fun e => "os error " ++ toString e
  getLink_errno := by
    intro g name e h
    split at h
    · cases h
    · cases h
      decide
  ask_errno := by
    intro g r e h
    cases r with
    | newAddr idx ip prefixLen =>
      simp only [guestAsk] at h
      split at h
      · cases h
        decide
      · refine GuestNet.onLink_errno ?_ h
        split <;> simp
    | setLinkUp idx => exact GuestNet.onLink_errno (by simp) h
    | newRoute gw idx =>
      refine GuestNet.onLink_errno ?_ h
      split <;> simp
    | _ =>
      cases h
      decide

theorem GuestNet.onLink_ok {g changed : GuestNet} {idx : ℕ} {check : Option ℕ}
    (h : (g.onLink idx check changed).1 = .ok ()) : (g.onLink idx check changed).2 = changed := by
  unfold GuestNet.onLink at h ⊢
  split at h
  · cases h
  · next hlink =>
    rw [if_neg hlink]
    cases check with
    | some e => cases h
    | none => rfl

/-- What a request does not change. -/
theorem GuestNet.onLink_kept {α : Type} (f : GuestNet → α) {g changed : GuestNet} (idx : ℕ) (check : Option ℕ)
    (h : f changed = f g) : f (g.onLink idx check changed).2 = f g := by
  unfold GuestNet.onLink
  split
  · rfl
  · split
    · rfl
    · exact h

theorem guestAsk_links (g : GuestNet) (r : Req) : (guestAsk g r).2.links = g.links := by
  cases r with
  | newAddr idx ip prefixLen =>
    simp only [guestAsk]
    split
    · rfl
    · exact GuestNet.onLink_kept GuestNet.links idx _ rfl
  | setLinkUp idx => exact GuestNet.onLink_kept GuestNet.links idx none rfl
  | newRoute gw idx => exact GuestNet.onLink_kept GuestNet.links idx _ rfl
  | _ => rfl

theorem guestKernel_exclusive : Exclusive guestKernel where
  excl := by
    rintro g idx ip prefixLen ⟨a, ha, rfl, hip, rfl⟩
    have hany : (g.addrs.any fun b => b.idx = a.idx ∧ b.address = some ip ∧ b.prefixLen = a.prefixLen) = true := by
      rw [List.any_eq_true]
      exact ⟨a, by simpa [guestKernel] using ha, by simp [hip]⟩
    simp only [guestKernel, guestAsk, hany]
    rfl
  added := by
    intro g idx ip prefixLen h
    simp only [guestKernel, guestAsk] at h ⊢
    split at h
    · cases h
    · next hnew =>
      rw [if_neg hnew, GuestNet.onLink_ok h]
      exact ⟨⟨idx, some ip, prefixLen, 76⟩, by simp, rfl, rfl, rfl⟩
  up_addrs := fun _ idx => GuestNet.onLink_kept guestKernel.addrs idx none rfl
  route_addrs := fun _ _ idx => GuestNet.onLink_kept guestKernel.addrs idx _ rfl
  links := by
    intro g idx ip prefixLen gateway r _
    exact ⟨by simp only [guestKernel, guestAsk_links], by simp only [guestKernel, guestAsk_links]⟩

/-- A guest with a device that has no address yet. -/
def bareGuest : GuestNet := ⟨[⟨1, "lo", ""⟩, ⟨2, "eth0", "52:54:00:00:00:01"⟩], [1], [], []⟩

/-- A guest in which nothing happens by itself. -/
def idle : ℕ → GuestNet → GuestNet := fun _ g => g

/-- The guest that has the address already. -/
def addressedGuest : GuestNet := { bareGuest with addrs := [⟨2, some ⟨10, 0, 0, 2⟩, 24, 76⟩] }

theorem linkOfMac_bareGuest : linkOfMac guestKernel "52:54:00:00:00:01" bareGuest = some ("eth0", 2) := by
  have hlo : ("" : String).toLower ≠ ("52:54:00:00:00:01" : String).toLower := by
    intro h
    have hlist := congrArg String.toList h
    simp [String.toLower] at hlist
  simp [linkOfMac, guestKernel, bareGuest, hlo]

/-- The address is refused in a guest that has it; in a guest without it the second call is refused. -/
theorem configure_idempotent_guest :
    Idempotent guestKernel idle addressedGuest "eth0" ⟨10, 0, 0, 2⟩ 24 (some ⟨10, 0, 0, 1⟩) none ∧
      ¬ Idempotent guestKernel idle bareGuest "eth0" ⟨10, 0, 0, 2⟩ 24 (some ⟨10, 0, 0, 1⟩)
        (some "52:54:00:00:00:01") := by
  have hiff := configure_idempotent_iff guestKernel guestKernel_exclusive idle
  constructor
  · rw [hiff]
    intro idx g hfound
    cases hfound
    exact ⟨17, List.mem_cons_self, by decide⟩
  · rw [hiff]
    intro h
    have hfound : resolved guestKernel idle bareGuest "eth0" (some "52:54:00:00:00:01") = some (2, bareGuest) := by
      simp only [resolved, firstFound, linkOfMac_bareGuest, Option.map_some]
    obtain ⟨e, he, hne⟩ := h 2 bareGuest hfound
    have hzero : e ∈ [0, 0, 0] := he
    simp at hzero
    exact hne hzero

/-- The second call reads the answer EEXIST to its new address where it brings the link up. -/
theorem configured_twice_fails :
    ¬ Idempotent guestKernel idle bareGuest "eth0" ⟨10, 0, 0, 2⟩ 24 (some ⟨10, 0, 0, 1⟩) none ∧
      (configure guestKernel idle
        (configure guestKernel idle bareGuest "eth0" ⟨10, 0, 0, 2⟩ 24 (some ⟨10, 0, 0, 1⟩) none).2 "eth0" ⟨10, 0, 0, 2⟩ 24
        (some ⟨10, 0, 0, 1⟩) none).1 = .error ⟨"netlink request", some eexist⟩ := by
  constructor
  · intro h
    have hsecond := (h rfl).1
    cases hsecond
  · rfl

end CloudHv.Netlink
