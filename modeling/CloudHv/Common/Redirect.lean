import CloudHv.Common.Socket
import Mathlib.Data.List.Find
import Mathlib.Data.List.Nodup
import Mathlib.Data.List.TakeWhile

/-!
# Redirect — the TC redirects between a pod's veth and its TAP

`activate_tap` of `crates/daemon/src/netns.rs` moves the TAP into the pod's network namespace and redirects the
traffic of the veth and of the TAP to each other; `cleanup_tap` of `crates/shim/src/netns.rs` takes this down.
Both look for the veth in the same way: the first link, but for lo and the TAP, that has an IPv4 address.  The
setup ends by taking the veth's addresses away.

A `Netns` is what of a network namespace these two can see or change.  The kernel behind a socket in it is a
parameter, told by what its answers and the requests that it grants do to the namespace (`ServesPod`, and
`ServesHost` for the namespace of the host).  Which addresses it deletes is a parameter of its own: the setup goes
on when one is left.
-/

namespace CloudHv.Netlink

open Conc

/-! ### Network namespaces -/

/-- An IPv4 address of an interface; `len` is the length of the message that lists it. -/
structure IfAddr where
  ip : Ipv4Addr
  prefixLen : UInt8
  len : ℕ
  deriving DecidableEq

def IfAddr.record (idx : ℕ) (a : IfAddr) : AddrRec := ⟨idx, some a.ip, a.prefixLen, a.len⟩

/-- What can change of an interface: whether it is up, its addresses, and its ingress qdisc with the interfaces
that its filters redirect to. -/
structure LinkState where
  up : Bool
  addrs : List IfAddr
  ingress : Option (List ℕ)
  deriving DecidableEq

structure Link where
  idx : ℕ
  name : String
  mac : String
  st : LinkState
  deriving DecidableEq

def Link.record (l : Link) : LinkRec := ⟨l.idx, l.name, l.mac⟩

/-- The links of a network namespace, in the order in which it lists them. -/
structure Netns where
  links : List Link
  indices : (links.map Link.idx).Nodup
  names : (links.map Link.name).Nodup

namespace Netns

def find (n : Netns) (i : ℕ) : Option Link := n.links.find? fun l => l.idx = i

def byName (n : Netns) (name : String) : Option Link := n.links.find? fun l => l.name = name

/-- Change the link of an index. -/
def modifyLinks (i : ℕ) (f : LinkState → LinkState) (ls : List Link) : List Link :=
  ls.map fun l => if l.idx = i then { l with st := f l.st } else l

theorem modifyLinks_idx (i : ℕ) (f : LinkState → LinkState) (ls : List Link) :
    (modifyLinks i f ls).map Link.idx = ls.map Link.idx := by
  rw [modifyLinks, List.map_map]
  refine List.map_congr_left fun l _ => ?_
  show (if l.idx = i then { l with st := f l.st } else l).idx = l.idx
  split <;> rfl

theorem modifyLinks_name (i : ℕ) (f : LinkState → LinkState) (ls : List Link) :
    (modifyLinks i f ls).map Link.name = ls.map Link.name := by
  rw [modifyLinks, List.map_map]
  refine List.map_congr_left fun l _ => ?_
  show (if l.idx = i then { l with st := f l.st } else l).name = l.name
  split <;> rfl

def modify (n : Netns) (i : ℕ) (f : LinkState → LinkState) : Netns where
  links := modifyLinks i f n.links
  indices := by rw [modifyLinks_idx]; exact n.indices
  names := by rw [modifyLinks_name]; exact n.names

def remove (n : Netns) (i : ℕ) : Netns where
  links := n.links.filter fun l => l.idx ≠ i
  indices := n.indices.sublist (List.filter_sublist.map _)
  names := n.names.sublist (List.filter_sublist.map _)

/-- An index that no link has. -/
def freshIdx (n : Netns) : ℕ := (n.links.map Link.idx).foldr max 0 + 1

theorem freshIdx_notMem (n : Netns) : n.freshIdx ∉ n.links.map Link.idx := by
  have hle : ∀ (l : List ℕ) i, i ∈ l → i ≤ l.foldr max 0 := by
    intro l
    induction l with
    | nil => intro i hi; cases hi
    | cons a l ih =>
      intro i hi
      rw [List.foldr_cons]
      rcases List.mem_cons.mp hi with rfl | hi
      · exact le_max_left _ _
      · exact le_trans (ih i hi) (le_max_right _ _)
  intro h
  have := hle _ _ h
  unfold freshIdx at this
  omega

/-- The index of a link that comes in: its own if it is free. -/
def idxFor (n : Netns) (i : ℕ) : ℕ := if i ∈ n.links.map Link.idx then n.freshIdx else i

theorem idxFor_notMem (n : Netns) (i : ℕ) : n.idxFor i ∉ n.links.map Link.idx := by
  unfold idxFor
  split
  · exact n.freshIdx_notMem
  · assumption

theorem nodup_map_concat {α : Type} {f : Link → α} {ls : List Link} {l : Link} (h : (ls.map f).Nodup)
    (hl : f l ∉ ls.map f) : ((ls ++ [l]).map f).Nodup := by
  rw [List.map_append, List.map_singleton, List.nodup_append]
  refine ⟨h, List.nodup_singleton _, ?_⟩
  rintro a ha b hb rfl
  obtain rfl := List.mem_singleton.mp hb
  exact hl ha

/-- A link comes in from another namespace: it is down, and has no addresses and no qdisc. -/
def moveIn (n : Netns) (l : Link) (h : l.name ∉ n.links.map Link.name) : Netns where
  links := n.links ++ [⟨n.idxFor l.idx, l.name, l.mac, ⟨false, [], none⟩⟩]
  indices := nodup_map_concat n.indices (n.idxFor_notMem l.idx)
  names := nodup_map_concat n.names h

end Netns

/-! ### The kernel -/

namespace LinkState

/-- The link is up. -/
def raised (st : LinkState) : LinkState := { st with up := true }

/-- There is an ingress qdisc. -/
def ensured (st : LinkState) : LinkState := { st with ingress := some (st.ingress.getD []) }

/-- There is no ingress qdisc. -/
def bare (st : LinkState) : LinkState := { st with ingress := none }

/-- There is a further filter. -/
def redirected (dst : ℕ) (st : LinkState) : LinkState :=
  { st with ingress := some (st.ingress.getD [] ++ [dst]) }

def keeping (as : List IfAddr) (st : LinkState) : LinkState := { st with addrs := as }

end LinkState

/-- The namespace of the host, and that of the pod. -/
structure Nets where
  host : Netns
  pod : Netns

/-- The kernel behind a socket in the pod's namespace.  It lists the links and their addresses, and a request that it
grants has done what it asks for.  `deletes i as a` is what it leaves of the addresses `as` of link `i` when it
deletes `a`, with which secondary addresses may go; it may refuse.  It may also refuse to delete a link, but not the
TAP. -/
structure ServesPod (tap : String) (K : Kernel Netns) (deletes : ℕ → List IfAddr → IfAddr → Option (List IfAddr)) :
    Prop where
  found : ∀ n name l, n.byName name = some l → K.getLink n name = .ok l.record
  missed : ∀ n name, n.byName name = none → ∃ e, K.getLink n name = .error e
  links : ∀ n, (K.links n).flatten = n.links.map Link.record
  addrs : ∀ n, (K.addrs n).flatten = n.links.flatMap fun l => l.st.addrs.map (IfAddr.record l.idx)
  setLinkUp : ∀ n l, l ∈ n.links → K.ask n (.setLinkUp l.idx) = (.ok (), n.modify l.idx LinkState.raised)
  newQdisc : ∀ n l, l ∈ n.links → (K.ask n (.newQdisc l.idx)).1 = .ok () →
    (K.ask n (.newQdisc l.idx)).2 = n.modify l.idx LinkState.ensured
  qdiscThere : ∀ n l, l ∈ n.links → (K.ask n (.newQdisc l.idx)).1 = .error eexist →
    l.st.ingress ≠ none ∧ (K.ask n (.newQdisc l.idx)).2 = n
  newFilter : ∀ n l dst, l ∈ n.links → (K.ask n (.newFilter l.idx dst)).1 = .ok () →
    (K.ask n (.newFilter l.idx dst)).2 = n.modify l.idx (LinkState.redirected dst)
  delAddr : ∀ n l a as, l ∈ n.links → deletes l.idx l.st.addrs a = some as →
    K.ask n (.delAddr (a.record l.idx)) = (.ok (), n.modify l.idx (LinkState.keeping as))
  refused : ∀ n l a, l ∈ n.links → deletes l.idx l.st.addrs a = none →
    ∃ e, K.ask n (.delAddr (a.record l.idx)) = (.error e, n)
  delQdisc : ∀ n l, l ∈ n.links → l.st.ingress ≠ none →
    K.ask n (.delQdisc l.idx) = (.ok (), n.modify l.idx LinkState.bare)
  qdiscGone : ∀ n l, l ∈ n.links → l.st.ingress = none → (K.ask n (.delQdisc l.idx)).2 = n
  delLink : ∀ n i, (K.ask n (.delLink i)).2 = n ∨ (K.ask n (.delLink i)).2 = n.remove i
  delTap : ∀ n l, l ∈ n.links → l.name = tap → (K.ask n (.delLink l.idx)).2 = n.remove l.idx

/-- The kernel behind a socket in the namespace of the host: a link that it moves to the pod has no addresses there. -/
structure ServesHost (H : Kernel Nets) : Prop where
  found : ∀ s name l, s.host.byName name = some l → H.getLink s name = .ok l.record
  missed : ∀ s name, s.host.byName name = none → ∃ e, H.getLink s name = .error e
  moved : ∀ s l fd, l ∈ s.host.links → (H.ask s (.setLinkNetnsFd l.idx fd)).2.pod = s.pod ∨
    ∃ l' before after, l'.name = l.name ∧ l'.st.addrs = [] ∧ s.pod.links = before ++ after ∧
      (H.ask s (.setLinkNetnsFd l.idx fd)).2.pod.links = before ++ l' :: after

/-! ### Setup and cleanup -/

/-- `context`: the text of an error is replaced. -/
def ctx {α : Type} (text : String) (m : M α) : M α := ExceptT.mk do
  match ← m.run with
  | .ok x => pure (.ok x)
  | .error e => pure (.error ⟨text, e.os⟩)

/-- `retry` of the daemon: up to `left` attempts until there is a value. -/
def retry {α : Type} (f : M (Option α)) : ℕ → M α
  | 0 => throw ⟨"not found", none⟩
  | left + 1 => do
    match ← f with
    | some x => pure x
    | none => retry f left

/-- The part of `activate_tap` in the namespace of the host; `nsFd` is the pod's namespace. -/
def moveTap (tap : String) (nsFd : Int32) : M Unit := do
  let tapIdx ← ctx "TAP index" (getLinkIndex tap)
  ctx "move TAP to pod netns" (setLinkNetnsFd tapIdx nsFd)

/-- The redirects, with the veth and the TAP at hand. -/
def redirect (vethIdx tapIdx : ℕ) : M Unit := do
  ctx "ingress veth" (addIngressQdisc vethIdx)
  ctx "redir veth→tap" (addRedirectFilter vethIdx tapIdx)
  ctx "ingress tap" (addIngressQdisc tapIdx)
  ctx "redir tap→veth" (addRedirectFilter tapIdx vethIdx)
  -- best effort
  let _ ← attempt (flushAddrs vethIdx)

/-- The part of `activate_tap` in the namespace of the pod. -/
def wireTap (tap : String) : M Unit := do
  let tapIdx ← ctx "TAP index" (getLinkIndex tap)
  ctx "TAP up" (setLinkUp tapIdx)
  let veth ← ctx "find veth" (retry (findVeth tap) 20)
  redirect veth.1.idx tapIdx

section Run

variable (H : Kernel Nets) (K : Kernel Netns)

def activateTap (tap : String) (nsFd : Int32) (s : Nets) : Except NlError Unit × Nets :=
  let moved := runOn (step H) (moveTap tap nsFd).run (.fresh s)
  match moved.1 with
  | .error e => (.error e, moved.2.kernel)
  | .ok _ =>
    let wired := runOn (step K) (wireTap tap).run (.fresh moved.2.kernel.pod)
    (wired.1, ⟨moved.2.kernel.host, wired.2.kernel⟩)

/-- The qdisc of the veth. -/
def cleanVeth (tap : String) : M Unit := do
  match ← attempt (findVeth tap) with
  | .ok (some veth) => do
    let _ ← attempt (delIngressQdisc veth.1.idx)
  | _ => pure ()

/-- The qdisc of the TAP. -/
def cleanTap (tap : String) : M Unit := do
  match ← attempt (getLinkIndex tap) with
  | .ok tapIdx => do
    let _ ← attempt (delIngressQdisc tapIdx)
  | .error _ => pure ()

/-- What `cleanup_tap` does in the namespace; all failures are ignored. -/
def unwireTap (tap : String) : M Unit := do
  cleanVeth tap
  cleanTap tap
  let _ ← attempt (delLink tap)

def cleanupTap (tap : String) (pod : Netns) : Netns :=
  (runOn (step K) (unwireTap tap).run (.fresh pod)).2.kernel

end Run

/-! ### The links of a namespace -/

section Links

variable {n : Netns} {i : ℕ} {l l' : Link}

/-- An index is that of one link. -/
theorem Netns.eq_of_idx (n : Netns) (hl : l ∈ n.links) (hl' : l' ∈ n.links) (h : l.idx = l'.idx) : l = l' :=
  List.inj_on_of_nodup_map n.indices hl hl' h

theorem Netns.eq_of_name (n : Netns) (hl : l ∈ n.links) (hl' : l' ∈ n.links) (h : l.name = l'.name) : l = l' :=
  List.inj_on_of_nodup_map n.names hl hl' h

theorem Netns.find_mem (hl : l ∈ n.links) : n.find l.idx = some l := by
  cases hf : n.find l.idx with
  | none => exact absurd (decide_eq_true rfl) (List.find?_eq_none.mp hf l hl)
  | some x =>
    have hx : x.idx = l.idx := by simpa using List.find?_some hf
    rw [n.eq_of_idx (List.mem_of_find?_eq_some hf) hl hx]

theorem Netns.byName_mem (hl : l ∈ n.links) : n.byName l.name = some l := by
  cases hf : n.byName l.name with
  | none => exact absurd (decide_eq_true rfl) (List.find?_eq_none.mp hf l hl)
  | some x =>
    have hx : x.name = l.name := by simpa using List.find?_some hf
    rw [n.eq_of_name (List.mem_of_find?_eq_some hf) hl hx]

theorem Netns.byName_some {name : String} (h : n.byName name = some l) : l ∈ n.links ∧ l.name = name :=
  ⟨List.mem_of_find?_eq_some h, by simpa using List.find?_some h⟩

/-- A link after a change of its own. -/
def Link.changed (l : Link) (f : LinkState → LinkState) : Link := { l with st := f l.st }

@[simp] theorem Link.changed_idx (f : LinkState → LinkState) : (l.changed f).idx = l.idx := rfl

@[simp] theorem Link.changed_name (f : LinkState → LinkState) : (l.changed f).name = l.name := rfl

theorem Netns.mem_modify {f : LinkState → LinkState} :
    l ∈ (n.modify i f).links ↔ ∃ x ∈ n.links, (if x.idx = i then x.changed f else x) = l := List.mem_map

theorem Netns.modify_self {f : LinkState → LinkState} (hl : l ∈ n.links) :
    l.changed f ∈ (n.modify l.idx f).links := by
  refine Netns.mem_modify.mpr ⟨l, hl, ?_⟩
  rw [if_pos rfl]

theorem Netns.modify_other {f : LinkState → LinkState} (hl : l ∈ n.links) (hi : l.idx ≠ i) :
    l ∈ (n.modify i f).links := by
  refine Netns.mem_modify.mpr ⟨l, hl, ?_⟩
  rw [if_neg hi]

theorem Netns.mem_remove : l ∈ (n.remove i).links ↔ l ∈ n.links ∧ l.idx ≠ i := by
  show l ∈ n.links.filter _ ↔ _
  rw [List.mem_filter, decide_eq_true_eq]

end Links

/-! ### The search for the veth -/

/-- The first link of this kind is the veth. -/
def Link.isVeth (tap : String) (l : Link) : Bool :=
  !(l.name = "lo" ∨ l.name = tap ∨ l.name = "") && !l.st.addrs.isEmpty

/-- The address of the veth as `get_ipv4` returns it. -/
def Link.cidr (l : Link) : Option String :=
  l.st.addrs.head?.map fun a => a.ip.text ++ "/" ++ toString a.prefixLen.toNat

section Search

variable {K : Kernel Netns} {deletes : ℕ → List IfAddr → IfAddr → Option (List IfAddr)} {n : Netns} {tap : String}

/-- The addresses that are listed for an index are those of its link. -/
theorem findSome_addrs {ls : List Link} {l : Link} (hnodup : (ls.map Link.idx).Nodup) (hl : l ∈ ls) :
    (ls.flatMap fun x => x.st.addrs.map (IfAddr.record x.idx)).findSome? (fun a =>
      if a.idx = l.idx then a.address.map fun ip => ip.text ++ "/" ++ toString a.prefixLen.toNat else none) = l.cidr := by
  have hpart : ∀ (i : ℕ) (as : List IfAddr), (as.map (IfAddr.record i)).findSome? (fun a =>
      if a.idx = l.idx then a.address.map fun ip => ip.text ++ "/" ++ toString a.prefixLen.toNat else none) =
      if i = l.idx then as.head?.map fun a => a.ip.text ++ "/" ++ toString a.prefixLen.toNat else none := by
    intro i as
    induction as with
    | nil => simp
    | cons a as ih =>
      by_cases hi : i = l.idx
      · simp [IfAddr.record, hi]
      · rw [if_neg hi] at ih ⊢
        simp only [List.map_cons, List.findSome?_cons, ih]
        simp [IfAddr.record, hi]
  induction ls with
  | nil => cases hl
  | cons x ls ih =>
    rw [List.map_cons, List.nodup_cons] at hnodup
    rw [List.flatMap_cons, List.findSome?_append, hpart]
    rcases List.mem_cons.mp hl with rfl | hl
    · -- no other link has the index
      have hrest : (ls.flatMap fun x => x.st.addrs.map (IfAddr.record x.idx)).findSome? (fun a =>
          if a.idx = l.idx then a.address.map fun ip => ip.text ++ "/" ++ toString a.prefixLen.toNat else none) =
          none := by
        rw [List.findSome?_eq_none_iff]
        intro a ha
        obtain ⟨y, hy, hay⟩ := List.mem_flatMap.mp ha
        obtain ⟨b, -, rfl⟩ := List.mem_map.mp hay
        refine if_neg fun he => hnodup.1 ?_
        exact List.mem_map.mpr ⟨y, hy, he⟩
      rw [hrest, if_pos rfl, Option.or_none]
      rfl
    · have hne : x.idx ≠ l.idx := fun he => hnodup.1 (he ▸ List.mem_map_of_mem hl)
      rw [if_neg hne, Option.none_or]
      exact ih hnodup.2 hl

theorem addrs_own (hK : ServesPod tap K deletes) (n : Netns) : runOn (ownStep K) (say .addrs).run n =
    (.ok (n.links.flatMap fun l => l.st.addrs.map (IfAddr.record l.idx)), n) := by
  rw [← hK.addrs]
  rfl

theorem getIpv4_own (hK : ServesPod tap K deletes) {l : Link} (hl : l ∈ n.links) :
    runOn (ownStep K) (getIpv4 l.idx).run n = (.ok l.cidr, n) := by
  unfold getIpv4
  rw [runOn_ok (addrs_own hK n)]
  exact congrArg (fun x => (Except.ok x, n)) (findSome_addrs n.indices hl)

theorem findVethIn_own (hK : ServesPod tap K deletes) {ls : List Link} (hls : ∀ l ∈ ls, l ∈ n.links) :
    runOn (ownStep K) (findVethIn tap (ls.map Link.record)).run n =
      (.ok ((ls.find? (Link.isVeth tap)).bind fun l => l.cidr.map fun c => (l.record, c)), n) := by
  induction ls with
  | nil => rfl
  | cons l ls ih =>
    have hrest := ih fun x hx => hls x (List.mem_cons_of_mem l hx)
    have hmem := hls l List.mem_cons_self
    rw [List.map_cons, findVethIn]
    by_cases hname : l.record.name = "lo" ∨ l.record.name = tap ∨ l.record.name = ""
    · have hno : l.isVeth tap = false := by
        have hd : decide (l.name = "lo" ∨ l.name = tap ∨ l.name = "") = true := decide_eq_true hname
        simp only [Link.isVeth, hd]
        rfl
      rw [if_pos hname, hrest, List.find?_cons_of_neg (by rw [hno]; decide)]
    · have hip : runOn (ownStep K) (getIpv4 l.record.idx).run n = (.ok l.cidr, n) := getIpv4_own hK hmem
      rw [if_neg hname, runOn_ok hip]
      cases ha : l.st.addrs with
      | nil =>
        have hno : l.isVeth tap = false := by
          simp [Link.isVeth, ha]
        have hcidr : l.cidr = none := by
          rw [Link.cidr, ha]
          rfl
        rw [hcidr, List.find?_cons_of_neg (by rw [hno]; decide)]
        exact hrest
      | cons a as =>
        have hyes : l.isVeth tap = true := by
          have hd : decide (l.name = "lo" ∨ l.name = tap ∨ l.name = "") = false := decide_eq_false hname
          simp only [Link.isVeth, ha, hd]
          rfl
        have hcidr : l.cidr = some (a.ip.text ++ "/" ++ toString a.prefixLen.toNat) := by
          rw [Link.cidr, ha]
          rfl
        rw [List.find?_cons_of_pos hyes, Option.bind_some, hcidr]
        rfl

/-- `find_veth` returns the first link that looks like a veth. -/
theorem findVeth_own (hK : ServesPod tap K deletes) : runOn (ownStep K) (findVeth tap).run n =
    (.ok ((n.links.find? (Link.isVeth tap)).bind fun l => l.cidr.map fun c => (l.record, c)), n) := by
  have hlinks : runOn (ownStep K) dumpLinks.run n = (.ok (n.links.map Link.record), n) := by
    rw [← hK.links]
    rfl
  unfold findVeth
  rw [runOn_ok hlinks]
  exact findVethIn_own hK fun _ hl => hl

theorem isVeth_cidr {l : Link} (h : l.isVeth tap = true) : ∃ c, l.cidr = some c := by
  cases ha : l.st.addrs with
  | nil => simp [Link.isVeth, ha] at h
  | cons a as => exact ⟨_, by rw [Link.cidr, ha]; rfl⟩

end Search

/-! ### The effect of the setup -/

theorem Netns.ext {n n' : Netns} (h : n.links = n'.links) : n = n' := by
  obtain ⟨ls, _, _⟩ := n
  obtain ⟨ls', _, _⟩ := n'
  obtain rfl : ls = ls' := h
  rfl

section Modify

variable {n : Netns} {l : Link} {i : ℕ} {f g : LinkState → LinkState} {tap : String}

theorem Netns.modify_congr (hl : l ∈ n.links) (h : f l.st = g l.st) : n.modify l.idx f = n.modify l.idx g := by
  refine Netns.ext (List.map_congr_left fun x hx => ?_)
  by_cases hi : x.idx = l.idx
  · rw [if_pos hi, if_pos hi, n.eq_of_idx hx hl hi, h]
  · rw [if_neg hi, if_neg hi]

theorem Netns.modify_id (hl : l ∈ n.links) (h : f l.st = l.st) : n.modify l.idx f = n := by
  have hid : ∀ x ∈ n.links, (if x.idx = l.idx then { x with st := f x.st } else x) = x := by
    intro x hx
    by_cases hi : x.idx = l.idx
    · rw [if_pos hi, n.eq_of_idx hx hl hi, h]
    · rw [if_neg hi]
  refine Netns.ext ?_
  show n.links.map _ = n.links
  rw [List.map_congr_left hid, List.map_id']

theorem Netns.modify_modify : (n.modify i f).modify i g = n.modify i (g ∘ f) := by
  refine Netns.ext ?_
  show ((n.links.map _).map _) = n.links.map _
  rw [List.map_map]
  refine List.map_congr_left fun x _ => ?_
  by_cases hi : x.idx = i
  · simp [hi]
  · simp [hi]

/-- The search for the veth after a change that does not concern it. -/
theorem find_modify (h : ∀ l ∈ n.links, l.idx = i → (l.changed f).isVeth tap = l.isVeth tap) :
    (n.modify i f).links.find? (Link.isVeth tap) =
      (n.links.find? (Link.isVeth tap)).map fun l => if l.idx = i then l.changed f else l := by
  have hsame : ∀ x ∈ n.links,
      (Link.isVeth tap ∘ fun l => if l.idx = i then { l with st := f l.st } else l) x = x.isVeth tap := by
    intro x hx
    show (if x.idx = i then { x with st := f x.st } else x).isVeth tap = x.isVeth tap
    by_cases hi : x.idx = i
    · rw [if_pos hi]
      exact h x hx hi
    · rw [if_neg hi]
  show (n.links.map _).find? _ = _
  rw [List.find?_map, List.find?_congr hsame]
  rfl

end Modify

section Effects

variable {K : Kernel Netns} {deletes : ℕ → List IfAddr → IfAddr → Option (List IfAddr)} {n : Netns} {l : Link}
  {tap : String}

theorem own_ok {n' : Netns} {r : Req} (h : K.ask n r = (.ok (), n')) :
    runOn (ownStep K) (say (.request r)).run n = (.ok (), n') := by
  rw [runOn_say]
  simp only [ownStep, h]

theorem own_error {n' : Netns} {r : Req} {e : ℕ} (h : K.ask n r = (.error e, n')) :
    runOn (ownStep K) (say (.request r)).run n = (.error ⟨"netlink request", some e⟩, n') := by
  rw [runOn_say]
  simp only [ownStep, h]

/-- Whatever the answer, the request has been made. -/
theorem own_state (r : Req) : (runOn (ownStep K) (say (.request r)).run n).2 = (K.ask n r).2 := by
  cases hask : K.ask n r with
  | mk res n' =>
    cases res with
    | ok u => rw [own_ok hask]
    | error e => rw [own_error hask]

/-- A request that succeeds was granted. -/
theorem own_granted {r : Req} (h : (runOn (ownStep K) (say (.request r)).run n).1 = .ok ()) :
    (K.ask n r).1 = .ok () := by
  cases hask : K.ask n r with
  | mk res n' =>
    cases res with
    | ok u => rfl
    | error e =>
      rw [own_error hask] at h
      cases h

section Context

variable {κ : Type} {step : κ → (a : Action) → Answer a × κ} {α β : Type} {m : M α} {text : String} {k k' : κ}

theorem runOn_ctx {x : α} (h : runOn step m.run k = (.ok x, k')) : runOn step (ctx text m).run k = (.ok x, k') := by
  show runOn step (m.run >>= _) k = _
  rw [runOn_bind, h]
  rfl

theorem runOn_ctx_error {e : NlError} (h : runOn step m.run k = (.error e, k')) :
    runOn step (ctx text m).run k = (.error ⟨text, e.os⟩, k') := by
  show runOn step (m.run >>= _) k = _
  rw [runOn_bind, h]
  rfl

/-- Code that succeeds has done so at first. -/
theorem runOn_bind_fst {f : α → M β} {y : β} (h : (runOn step (m >>= f).run k).1 = .ok y) :
    ∃ x, (runOn step m.run k).1 = .ok x ∧
      runOn step (m >>= f).run k = runOn step (f x).run (runOn step m.run k).2 := by
  cases hm : runOn step m.run k with
  | mk r k' =>
    cases r with
    | ok x => exact ⟨x, rfl, runOn_ok hm⟩
    | error e =>
      rw [runOn_error hm] at h
      cases h

theorem runOn_ctx_fst {x : α} (h : (runOn step (ctx text m).run k).1 = .ok x) :
    (runOn step m.run k).1 = .ok x ∧ (runOn step (ctx text m).run k).2 = (runOn step m.run k).2 := by
  cases hm : runOn step m.run k with
  | mk r k' =>
    cases r with
    | ok y =>
      rw [runOn_ctx hm] at h ⊢
      exact ⟨h, rfl⟩
    | error e =>
      rw [runOn_ctx_error hm] at h
      cases h

end Context

/-- A qdisc that is new, or one that is there. -/
theorem addIngressQdisc_own (hK : ServesPod tap K deletes) (hl : l ∈ n.links)
    (h : (runOn (ownStep K) (addIngressQdisc l.idx).run n).1 = .ok ()) :
    (runOn (ownStep K) (addIngressQdisc l.idx).run n).2 = n.modify l.idx LinkState.ensured := by
  unfold addIngressQdisc at h ⊢
  cases hask : K.ask n (.newQdisc l.idx) with
  | mk res n' =>
    cases res with
    | ok u =>
      have hnew := hK.newQdisc n l hl (congrArg Prod.fst hask)
      rw [runOn_ok (runOn_attempt.trans (by rw [own_ok hask])), ← hnew, hask]
      rfl
    | error e =>
      rw [runOn_ok (runOn_attempt.trans (by rw [own_error hask]))] at h ⊢
      dsimp only at h ⊢
      by_cases he : e = eexist
      · subst he
        obtain ⟨hold, hsame⟩ := hK.qdiscThere n l hl (congrArg Prod.fst hask)
        rw [hask] at hsame
        obtain ⟨fs, hfs⟩ := Option.ne_none_iff_exists'.mp hold
        have hid : n.modify l.idx LinkState.ensured = n := by
          refine Netns.modify_id hl ?_
          rw [LinkState.ensured, hfs, Option.getD_some, ← hfs]
        rw [if_pos rfl, hid]
        exact hsame
      · rw [if_neg (fun hos => he (Option.some.inj hos))] at h
        cases h

/-- The addresses that a flush of `as` leaves of `cur`: the kernel is asked to delete one after the other, until it
refuses. -/
def flushed (deletes : ℕ → List IfAddr → IfAddr → Option (List IfAddr)) (i : ℕ) : List IfAddr → List IfAddr → List IfAddr
  | [], cur => cur
  | a :: as, cur =>
    match deletes i cur a with
    | none => cur
    | some cur => flushed deletes i as cur

/-- The loop of the flush. -/
theorem delAddrs_own (hK : ServesPod tap K deletes) (as : List IfAddr) {n : Netns} {l : Link} (hl : l ∈ n.links) :
    (runOn (ownStep K) (delAddrs (as.map (IfAddr.record l.idx))).run n).2 =
      n.modify l.idx (LinkState.keeping (flushed deletes l.idx as l.st.addrs)) := by
  have hsame : n.modify l.idx (LinkState.keeping l.st.addrs) = n := Netns.modify_id hl rfl
  induction as generalizing n l with
  | nil => exact hsame.symm
  | cons a as ih =>
    rw [List.map_cons, delAddrs, flushed]
    cases hd : deletes l.idx l.st.addrs a with
    | none =>
      obtain ⟨e, hask⟩ := hK.refused n l a hl hd
      rw [runOn_error (own_error hask), hsame]
    | some cur =>
      have hask := hK.delAddr n l a cur hl hd
      have hl' : l.changed (LinkState.keeping cur) ∈ (n.modify l.idx (LinkState.keeping cur)).links :=
        Netns.modify_self hl
      have hrest := ih hl' (Netns.modify_id hl' rfl)
      rw [runOn_ok (own_ok hask)]
      refine hrest.trans ?_
      show (n.modify l.idx (LinkState.keeping cur)).modify l.idx _ = _
      rw [Netns.modify_modify]
      rfl

/-- The addresses that are listed for an index. -/
theorem filter_addrs {ls : List Link} (hnodup : (ls.map Link.idx).Nodup) (hl : l ∈ ls) :
    (ls.flatMap fun x => x.st.addrs.map (IfAddr.record x.idx)).filter (fun a => a.idx = l.idx) =
      l.st.addrs.map (IfAddr.record l.idx) := by
  have hpart : ∀ (i : ℕ) (as : List IfAddr), (as.map (IfAddr.record i)).filter (fun a => a.idx = l.idx) =
      if i = l.idx then as.map (IfAddr.record i) else [] := by
    intro i as
    by_cases hi : i = l.idx
    · rw [if_pos hi, List.filter_eq_self]
      intro a ha
      obtain ⟨b, -, rfl⟩ := List.mem_map.mp ha
      exact decide_eq_true hi
    · rw [if_neg hi, List.filter_eq_nil_iff]
      intro a ha
      obtain ⟨b, -, rfl⟩ := List.mem_map.mp ha
      rw [decide_eq_true_eq]
      exact hi
  induction ls with
  | nil => cases hl
  | cons x ls ih =>
    rw [List.map_cons, List.nodup_cons] at hnodup
    rw [List.flatMap_cons, List.filter_append, hpart]
    rcases List.mem_cons.mp hl with rfl | hl
    · have hrest : (ls.flatMap fun x => x.st.addrs.map (IfAddr.record x.idx)).filter (fun a => a.idx = l.idx) = [] := by
        rw [List.filter_eq_nil_iff]
        intro a ha
        obtain ⟨y, hy, hay⟩ := List.mem_flatMap.mp ha
        obtain ⟨b, -, rfl⟩ := List.mem_map.mp hay
        rw [decide_eq_true_eq]
        exact fun he => hnodup.1 (List.mem_map.mpr ⟨y, hy, he⟩)
      rw [hrest, if_pos rfl, List.append_nil]
    · have hne : x.idx ≠ l.idx := fun he => hnodup.1 (he ▸ List.mem_map_of_mem hl)
      rw [if_neg hne, List.nil_append]
      exact ih hnodup.2 hl

theorem flushAddrs_own (hK : ServesPod tap K deletes) (hl : l ∈ n.links) :
    (runOn (ownStep K) (flushAddrs l.idx).run n).2 =
      n.modify l.idx (LinkState.keeping (flushed deletes l.idx l.st.addrs l.st.addrs)) := by
  unfold flushAddrs
  rw [runOn_ok (addrs_own hK n), filter_addrs n.indices hl]
  exact delAddrs_own hK l.st.addrs hl

end Effects

/-! ### The setup as a whole -/

/-- The namespace after the setup: veth `v` and TAP `t` redirect to each other, and the veth keeps the addresses
`as`. -/
def wired (n : Netns) (v t : ℕ) (as : List IfAddr) : Netns :=
  ((n.modify v (LinkState.redirected t)).modify t (LinkState.redirected v)).modify v (LinkState.keeping as)

section Setup

variable {K : Kernel Netns} {deletes : ℕ → List IfAddr → IfAddr → Option (List IfAddr)} {n : Netns} {tap : String}

theorem redirected_ensured (i : ℕ) : LinkState.redirected i ∘ LinkState.ensured = LinkState.redirected i := rfl

/-- A qdisc if there is none, and a filter in it. -/
theorem redirectTo_own (hK : ServesPod tap K deletes) {l : Link} (hl : l ∈ n.links) {dst : ℕ} {t t' : String} {α : Type}
    {f : M α} {x : α} (h : (runOn (ownStep K) (do
      ctx t (addIngressQdisc l.idx)
      ctx t' (addRedirectFilter l.idx dst)
      f : M α).run n).1 = .ok x) :
    runOn (ownStep K) (do
      ctx t (addIngressQdisc l.idx)
      ctx t' (addRedirectFilter l.idx dst)
      f : M α).run n = runOn (ownStep K) f.run (n.modify l.idx (LinkState.redirected dst)) := by
  have hl' : l.changed LinkState.ensured ∈ (n.modify l.idx LinkState.ensured).links := Netns.modify_self hl
  obtain ⟨_, hqdisc, hrest⟩ := runOn_bind_fst h
  obtain ⟨hok, hstate⟩ := runOn_ctx_fst hqdisc
  rw [hstate, addIngressQdisc_own hK hl hok] at hrest
  rw [hrest] at h ⊢
  obtain ⟨_, hfilter, hrest⟩ := runOn_bind_fst h
  obtain ⟨hok, hstate⟩ := runOn_ctx_fst hfilter
  have hadded := hK.newFilter _ _ dst hl' (own_granted hok)
  rw [Link.changed_idx, Netns.modify_modify, redirected_ensured] at hadded
  rw [hrest, hstate, addRedirectFilter, own_state, hadded]

theorem redirect_own (hK : ServesPod tap K deletes) {V T : Link} (hV : V ∈ n.links) (hT : T ∈ n.links) (hne : V.idx ≠ T.idx)
    (h : (runOn (ownStep K) (redirect V.idx T.idx).run n).1 = .ok ()) :
    (runOn (ownStep K) (redirect V.idx T.idx).run n).2 =
      wired n V.idx T.idx (flushed deletes V.idx V.st.addrs V.st.addrs) := by
  have hT' : T ∈ (n.modify V.idx (LinkState.redirected T.idx)).links := Netns.modify_other hT hne.symm
  have hV' : V.changed (LinkState.redirected T.idx) ∈ (n.modify V.idx (LinkState.redirected T.idx)).links :=
    Netns.modify_self hV
  have hV'' : V.changed (LinkState.redirected T.idx) ∈
      ((n.modify V.idx (LinkState.redirected T.idx)).modify T.idx (LinkState.redirected V.idx)).links :=
    Netns.modify_other hV' hne
  unfold redirect at h ⊢
  have hveth := redirectTo_own hK hV h
  rw [hveth] at h ⊢
  have htap := redirectTo_own hK hT' h
  rw [htap, runOn_ok runOn_attempt]
  refine (flushAddrs_own (l := V.changed (LinkState.redirected T.idx)) hK hV'').trans ?_
  rfl

theorem retry_own {α : Type} {f : M (Option α)} {x : α} (h : runOn (ownStep K) f.run n = (.ok (some x), n)) (k : ℕ) :
    runOn (ownStep K) (retry f (k + 1)).run n = (.ok x, n) := by
  rw [retry, runOn_ok h]
  rfl

theorem retry_none {α : Type} {f : M (Option α)} (h : runOn (ownStep K) f.run n = (.ok none, n)) (k : ℕ) :
    runOn (ownStep K) (retry f k).run n = (.error ⟨"not found", none⟩, n) := by
  induction k with
  | zero => rfl
  | succ k ih =>
    rw [retry, runOn_ok h]
    exact ih

theorem ctx_balanced {α : Type} {m : M α} {text : String} (hm : Only Action.balanced m.run) :
    Only Action.balanced (ctx text m).run := by
  refine hm.bind fun r => ?_
  cases r with
  | ok x => trivial
  | error e => trivial

theorem findVeth_balanced (tap : String) : Only Action.balanced (findVeth tap).run :=
  prog_balanced (m := .findVeth tap) rfl

theorem retry_balanced {α : Type} {f : M (Option α)} (hf : Only Action.balanced f.run) (k : ℕ) :
    Only Action.balanced (retry f k).run := by
  induction k with
  | zero => trivial
  | succ k ih =>
    refine hf.bindE fun r => ?_
    cases r with
    | some x => trivial
    | none => exact ih

theorem redirect_balanced (v t : ℕ) : Only Action.balanced (redirect v t).run := by
  refine (ctx_balanced (addIngressQdisc_balanced v)).bindE fun _ => ?_
  refine (ctx_balanced (prog_balanced (m := .addRedirectFilter v t) rfl)).bindE fun _ => ?_
  refine (ctx_balanced (addIngressQdisc_balanced t)).bindE fun _ => ?_
  refine (ctx_balanced (prog_balanced (m := .addRedirectFilter t v) rfl)).bindE fun _ => ?_
  exact (attempt_balanced (prog_balanced (m := .flushAddrs v) rfl)).bindE fun _ => trivial

/-- What a lookup reads on a fresh socket. -/
theorem getIndex_fresh (hK : ServesPod tap K deletes) {T : Link} (hT : n.byName tap = some T) :
    step K (.fresh n) (.getIndex tap) = (.ok T.idx, ⟨[[.ack 0 (getLinkLen tap)]], n⟩) := by
  simp only [step, Handle.fresh, hK.found n tap T hT]
  rfl

theorem getIndex_fresh_none (hK : ServesPod tap K deletes) (hT : n.byName tap = none) :
    ∃ e h, step K (.fresh n) (.getIndex tap) = (.error e, h) := by
  obtain ⟨e, he⟩ := hK.missed n tap hT
  have hne := K.getLink_errno n tap e he
  simp only [step, Handle.fresh, he, readIndex, recv, if_pos hne]
  exact ⟨_, _, rfl⟩

/-- A request after a lookup reads the acknowledgement of the lookup, and leaves its own. -/
theorem request_stale {r : Req} {len : ℕ} : step K ⟨[[.ack 0 len]], n⟩ (.request r) =
    (.ok (), ⟨[[.ack (errno (K.ask n r).1) r.len]], (K.ask n r).2⟩) := rfl

theorem isVeth_name {l : Link} (h : l.isVeth tap = true) : l.name ≠ tap := by
  rintro rfl
  simp [Link.isVeth] at h

/-- The veth is another link than the TAP. -/
theorem veth_ne_tap {V T : Link} (hV : n.links.find? (Link.isVeth tap) = some V) (hT : T ∈ n.links)
    (hname : T.name = tap) : V.idx ≠ T.idx := by
  intro he
  obtain rfl := n.eq_of_idx (List.mem_of_find?_eq_some hV) hT he
  exact isVeth_name (List.find?_some hV) hname

/-- Nothing that is done to the TAP changes the search for the veth. -/
theorem find_tap {T : Link} (hT : T ∈ n.links) (hname : T.name = tap) (f : LinkState → LinkState) :
    (n.modify T.idx f).links.find? (Link.isVeth tap) = n.links.find? (Link.isVeth tap) := by
  have hno : ∀ l : Link, l.name = tap → l.isVeth tap = false := by
    intro l hl
    by_contra h
    exact isVeth_name (Bool.eq_true_of_not_eq_false h) hl
  rw [find_modify]
  · cases hf : n.links.find? (Link.isVeth tap) with
    | none => rfl
    | some V => rw [Option.map_some, if_neg (veth_ne_tap hf hT hname)]
  · intro l hl hi
    obtain rfl := n.eq_of_idx hl hT hi
    rw [hno _ hname, hno (l.changed f) hname]

/-- The namespace when the TAP `T` is up. -/
def raise (n : Netns) (T : Link) : Netns := n.modify T.idx LinkState.raised

/-- The rest of the setup, once the TAP is up. -/
def wireVeth (tap : String) (tapIdx : ℕ) : M Unit := do
  let veth ← ctx "find veth" (retry (findVeth tap) 20)
  redirect veth.1.idx tapIdx

theorem wireVeth_balanced (tap : String) (t : ℕ) : Only Action.balanced (wireVeth tap t).run :=
  (ctx_balanced (retry_balanced (findVeth_balanced tap) 20)).bindE fun _ => redirect_balanced _ t

/-- The lookup of the TAP leaves an acknowledgement, which the request after it reads, and the search for the veth
begins with a dump: it gets the results of its own messages. -/
theorem wireTap_wireVeth (hK : ServesPod tap K deletes) {T : Link} (hT : n.byName tap = some T) :
    (runOn (step K) (wireTap tap).run (.fresh n)).1 =
      (runOn (ownStep K) (wireVeth tap T.idx).run (raise n T)).1 ∧
    (runOn (step K) (wireTap tap).run (.fresh n)).2.kernel =
      (runOn (ownStep K) (wireVeth tap T.idx).run (raise n T)).2 := by
  obtain ⟨hmem, -⟩ := Netns.byName_some hT
  have hidx : runOn (step K) (ctx "TAP index" (getLinkIndex tap)).run (.fresh n) =
      (.ok T.idx, ⟨[[.ack 0 (getLinkLen tap)]], n⟩) := runOn_ctx (getIndex_fresh hK hT)
  have hset : runOn (step K) (ctx "TAP up" (setLinkUp T.idx)).run ⟨[[.ack 0 (getLinkLen tap)]], n⟩ =
      (.ok (), ⟨[[.ack 0 32]], raise n T⟩) := by
    refine runOn_ctx ?_
    rw [setLinkUp, runOn_say, request_stale, hK.setLinkUp n T hmem]
    rfl
  have hrest : runOn (step K) (wireTap tap).run (.fresh n) =
      runOn (step K) (wireVeth tap T.idx).run ⟨[[.ack 0 32]], raise n T⟩ := by
    unfold wireTap
    rw [runOn_ok hidx, runOn_ok hset]
    rfl
  have hsettled : Settled (⟨[[.ack 0 32]], raise n T⟩ : Handle Netns) := .inr ⟨32, rfl⟩
  obtain ⟨h1, -, h3⟩ := dump_run (K := K) (wireVeth_balanced tap T.idx) rfl rfl hsettled
  rw [hrest]
  exact ⟨h1, h3⟩

theorem wireTap_some (hK : ServesPod tap K deletes) {T V : Link} (hT : n.byName tap = some T)
    (hV : n.links.find? (Link.isVeth tap) = some V) (h : (runOn (step K) (wireTap tap).run (.fresh n)).1 = .ok ()) :
    (runOn (step K) (wireTap tap).run (.fresh n)).2.kernel =
      wired (raise n T) V.idx T.idx (flushed deletes V.idx V.st.addrs V.st.addrs) := by
  obtain ⟨hmem, hname⟩ := Netns.byName_some hT
  have hVmem := List.mem_of_find?_eq_some hV
  have hne : V.idx ≠ T.idx := veth_ne_tap hV hmem hname
  obtain ⟨c, hc⟩ := isVeth_cidr (List.find?_some hV)
  have hsearch : runOn (ownStep K) (findVeth tap).run (raise n T) = (.ok (some (V.record, c)), raise n T) := by
    rw [findVeth_own hK, raise, find_tap hmem hname, hV, Option.bind_some, hc]
    rfl
  have hT' : T.changed LinkState.raised ∈ (raise n T).links := Netns.modify_self hmem
  have hV' : V ∈ (raise n T).links := Netns.modify_other hVmem hne
  rw [(wireTap_wireVeth hK hT).1] at h
  rw [(wireTap_wireVeth hK hT).2]
  unfold wireVeth at h ⊢
  rw [runOn_ok (runOn_ctx (retry_own hsearch 19))] at h ⊢
  exact redirect_own hK (T := T.changed LinkState.raised) hV' hT' hne h

theorem wireTap_none (hK : ServesPod tap K deletes) {T : Link} (hT : n.byName tap = some T)
    (hV : n.links.find? (Link.isVeth tap) = none) : (runOn (step K) (wireTap tap).run (.fresh n)).1 ≠ .ok () := by
  obtain ⟨hmem, hname⟩ := Netns.byName_some hT
  have hsearch : runOn (ownStep K) (findVeth tap).run (raise n T) = (.ok none, raise n T) := by
    rw [findVeth_own hK, raise, find_tap hmem hname, hV]
    rfl
  rw [(wireTap_wireVeth hK hT).1]
  unfold wireVeth
  rw [runOn_error (runOn_ctx_error (retry_none hsearch 20))]
  exact nofun

theorem wireTap_absent (hK : ServesPod tap K deletes) (hT : n.byName tap = none) :
    (runOn (step K) (wireTap tap).run (.fresh n)).1 ≠ .ok () := by
  obtain ⟨e, h, hidx⟩ : ∃ e h, runOn (step K) (getLinkIndex tap).run (.fresh n) = (.error e, h) :=
    getIndex_fresh_none hK hT
  unfold wireTap
  rw [runOn_error (runOn_ctx_error hidx)]
  exact nofun

end Setup

/-! ### The setup from the host on -/

section Activate

variable {H : Kernel Nets} {K : Kernel Netns} {deletes : ℕ → List IfAddr → IfAddr → Option (List IfAddr)}
  {s s' : Nets} {tap : String} {nsFd : Int32}

/-- The request that moves the TAP reads the acknowledgement of the lookup: the code goes on whether the kernel
moved the TAP or not. -/
theorem moveTap_run (hH : ServesHost H) {L : Link} (hL : s.host.byName tap = some L) :
    runOn (step H) (moveTap tap nsFd).run (.fresh s) =
      (.ok (), ⟨[[.ack (errno (H.ask s (.setLinkNetnsFd L.idx nsFd)).1) 40]],
        (H.ask s (.setLinkNetnsFd L.idx nsFd)).2⟩) := by
  have hidx : runOn (step H) (getLinkIndex tap).run (.fresh s) = (.ok L.idx, ⟨[[.ack 0 (getLinkLen tap)]], s⟩) := by
    rw [getLinkIndex, runOn_say]
    simp only [step, Handle.fresh, hH.found s tap L hL]
    rfl
  unfold moveTap
  rw [runOn_ok (runOn_ctx hidx)]
  exact runOn_ctx rfl

theorem moveTap_absent (hH : ServesHost H) (hL : s.host.byName tap = none) :
    ∃ e, (runOn (step H) (moveTap tap nsFd).run (.fresh s)).1 = .error e := by
  obtain ⟨code, hcode⟩ := hH.missed s tap hL
  have hne := H.getLink_errno s tap code hcode
  obtain ⟨e, h, hidx⟩ : ∃ e h, runOn (step H) (getLinkIndex tap).run (.fresh s) = (.error e, h) := by
    rw [getLinkIndex, runOn_say]
    simp only [step, Handle.fresh, hcode, readIndex, recv, if_pos hne]
    exact ⟨_, _, rfl⟩
  unfold moveTap
  rw [runOn_error (runOn_ctx_error hidx)]
  exact ⟨_, rfl⟩

/-- The pod's namespace after the attempt to move the TAP: as it was, or with one more link, which is no veth. -/
theorem moved_find (hH : ServesHost H) {L : Link} (hL : s.host.byName tap = some L) :
    (H.ask s (.setLinkNetnsFd L.idx nsFd)).2.pod.links.find? (Link.isVeth tap) =
      s.pod.links.find? (Link.isVeth tap) := by
  rcases hH.moved s L nsFd (Netns.byName_some hL).1 with h | ⟨l', before, after, -, haddrs, hpod, hmoved⟩
  · rw [h]
  · have hno : l'.isVeth tap = false := by simp [Link.isVeth, haddrs]
    rw [hmoved, hpod, List.find?_append, List.find?_append, List.find?_cons_of_neg (by rw [hno]; decide)]

/-- What a setup that succeeds has found and done. -/
theorem activateTap_ok (hH : ServesHost H) (hK : ServesPod tap K deletes) (h : activateTap H K tap nsFd s = (.ok (), s')) :
    ∃ n T V, n.byName tap = some T ∧ n.links.find? (Link.isVeth tap) = some V ∧
      s.pod.links.find? (Link.isVeth tap) = some V ∧
      s'.pod = wired (raise n T) V.idx T.idx (flushed deletes V.idx V.st.addrs V.st.addrs) := by
  unfold activateTap at h
  cases hL : s.host.byName tap with
  | none =>
    obtain ⟨e, he⟩ : ∃ e, (runOn (step H) (moveTap tap nsFd).run (.fresh s)).1 = .error e := moveTap_absent hH hL
    simp only [he] at h
    cases h
  | some L =>
    simp only [moveTap_run hH hL] at h
    obtain ⟨hok, hs⟩ := Prod.mk.inj h
    set pod := (H.ask s (.setLinkNetnsFd L.idx nsFd)).2.pod with hpod
    have hfind : pod.links.find? (Link.isVeth tap) = s.pod.links.find? (Link.isVeth tap) := moved_find hH hL
    cases hT : pod.byName tap with
    | none => exact absurd hok (wireTap_absent hK hT)
    | some T =>
      cases hV : pod.links.find? (Link.isVeth tap) with
      | none => exact absurd hok (wireTap_none hK hT hV)
      | some V => exact ⟨pod, T, V, hT, hV, hfind.symm.trans hV, by rw [← hs, ← wireTap_some hK hT hV hok]⟩

end Activate

/-! ### The cleanup -/

/-- The namespace without the qdisc of the link that the search for the veth finds. -/
def bareVeth (tap : String) (n : Netns) : Netns :=
  match n.links.find? (Link.isVeth tap) with
  | none => n
  | some W => n.modify W.idx LinkState.bare

section Cleanup

variable {K : Kernel Netns} {deletes : ℕ → List IfAddr → IfAddr → Option (List IfAddr)} {n : Netns} {tap : String}
  {l : Link}

theorem delIngressQdisc_own (hK : ServesPod tap K deletes) (hl : l ∈ n.links) :
    (runOn (ownStep K) (delIngressQdisc l.idx).run n).2 = n.modify l.idx LinkState.bare := by
  rw [delIngressQdisc, own_state]
  by_cases hi : l.st.ingress = none
  · rw [hK.qdiscGone n l hl hi]
    refine (Netns.modify_id hl ?_).symm
    rw [LinkState.bare, ← hi]
  · rw [hK.delQdisc n l hl hi]

theorem cleanVeth_own (hK : ServesPod tap K deletes) :
    (runOn (ownStep K) (cleanVeth tap).run n) = (.ok (), bareVeth tap n) := by
  have hsearch : runOn (ownStep K) (attempt (findVeth tap)).run n =
      (.ok (.ok ((n.links.find? (Link.isVeth tap)).bind fun l => l.cidr.map fun c => (l.record, c))), n) := by
    rw [runOn_attempt, findVeth_own hK]
  unfold cleanVeth bareVeth
  rw [runOn_ok hsearch]
  cases hf : n.links.find? (Link.isVeth tap) with
  | none => rfl
  | some W =>
    obtain ⟨c, hc⟩ := isVeth_cidr (List.find?_some hf)
    simp only [Option.bind_some, hc, Option.map_some]
    rw [runOn_ok runOn_attempt]
    exact congrArg (fun x => (Except.ok (), x)) (delIngressQdisc_own hK (List.mem_of_find?_eq_some hf))

theorem cleanVeth_balanced (tap : String) : Only Action.balanced (cleanVeth tap).run := by
  refine (attempt_balanced (findVeth_balanced tap)).bindE fun r => ?_
  cases r with
  | error e => trivial
  | ok v =>
    cases v with
    | none => trivial
    | some veth =>
      exact (attempt_balanced (prog_balanced (m := .delIngressQdisc veth.1.idx) rfl)).bindE fun _ => trivial

/-- The first part of the cleanup leaves nothing unread. -/
theorem cleanVeth_run (hK : ServesPod tap K deletes) : runOn (step K) (cleanVeth tap).run (.fresh n) =
    (.ok (), .fresh (bareVeth tap n)) := by
  have hclean : Handle.queue (.fresh n) = [] := rfl
  obtain ⟨h1, h2, h3⟩ := balanced_run (K := K) (cleanVeth_balanced tap) hclean
  have hfresh : Handle.kernel (.fresh n) = n := rfl
  rw [hfresh, cleanVeth_own hK] at h1 h3
  generalize runOn (step K) (cleanVeth tap).run (.fresh n) = r at h1 h2 h3 ⊢
  obtain ⟨r, ⟨q, k⟩⟩ := r
  obtain rfl : r = .ok () := h1
  obtain rfl : q = [] := h2
  obtain rfl : k = bareVeth tap n := h3
  rfl

/-- The second part: the request for the TAP's qdisc reads the acknowledgement of the lookup before it, and leaves
its own. -/
theorem cleanTap_run (hK : ServesPod tap K deletes) {T : Link} (hT : T ∈ n.links) (hname : T.name = tap)
    (hq : T.st.ingress ≠ none) : runOn (step K) (cleanTap tap).run (.fresh n) =
      (.ok (), ⟨[[.ack 0 48]], n.modify T.idx LinkState.bare⟩) := by
  have hidx : runOn (step K) (getLinkIndex tap).run (.fresh n) = (.ok T.idx, ⟨[[.ack 0 (getLinkLen tap)]], n⟩) :=
    getIndex_fresh hK (hname ▸ Netns.byName_mem hT)
  have hlookup : runOn (step K) (attempt (getLinkIndex tap)).run (.fresh n) =
      (.ok (.ok T.idx), ⟨[[.ack 0 (getLinkLen tap)]], n⟩) := by
    rw [runOn_attempt, hidx]
  unfold cleanTap
  rw [runOn_ok hlookup]
  show runOn (step K) (attempt (delIngressQdisc T.idx) >>= fun _ => pure ()).run _ = _
  rw [runOn_ok runOn_attempt, delIngressQdisc, runOn_say, request_stale, hK.delQdisc n T hT hq]
  rfl

/-- The third part: the lookup of the TAP reads that acknowledgement, and takes its length for the index. -/
theorem delLink_stale (hK : ServesPod tap K deletes) {T : Link} (hT : T ∈ n.links) (hname : T.name = tap) :
    (runOn (step K) (delLink tap).run ⟨[[.ack 0 48]], n⟩).2.kernel = (K.ask n (.delLink 48)).2 := by
  have hlink : K.getLink n tap = .ok T.record := hK.found n tap T (hname ▸ Netns.byName_mem hT)
  have hidx : runOn (step K) (getLinkIndex tap).run ⟨[[.ack 0 48]], n⟩ =
      (.ok 48, ⟨[[.link T.record], [.ack 0 (getLinkLen tap)]], n⟩) := by
    rw [getLinkIndex, runOn_say]
    simp only [step, hlink]
    rfl
  unfold delLink
  rw [runOn_ok hidx]
  rfl

/-- The other links stay. -/
theorem delLink_keeps (hK : ServesPod tap K deletes) {i : ℕ} (hl : l ∈ n.links) (hi : l.idx ≠ i) :
    l ∈ (K.ask n (.delLink i)).2.links := by
  rcases hK.delLink n i with h | h
  · rwa [h]
  · rw [h]
    exact Netns.mem_remove.mpr ⟨hl, hi⟩

/-- A link that is no veth keeps its qdisc. -/
theorem bareVeth_other (hl : l ∈ n.links) (hno : ¬ l.isVeth tap = true) : l ∈ (bareVeth tap n).links := by
  unfold bareVeth
  split
  · exact hl
  · next W hW =>
    refine Netns.modify_other hl fun he => ?_
    obtain rfl := n.eq_of_idx hl (List.mem_of_find?_eq_some hW) he
    exact hno (List.find?_some hW)

/-- The effect of the cleanup as a whole. -/
theorem cleanupTap_eq (hK : ServesPod tap K deletes) {T : Link} (hT : T ∈ n.links) (hname : T.name = tap)
    (hq : T.st.ingress ≠ none) :
    cleanupTap K tap n = (K.ask ((bareVeth tap n).modify T.idx LinkState.bare) (.delLink 48)).2 := by
  have hT' : T ∈ (bareVeth tap n).links := bareVeth_other hT fun hv => isVeth_name hv hname
  have hT'' : T.changed LinkState.bare ∈ ((bareVeth tap n).modify T.idx LinkState.bare).links :=
    Netns.modify_self hT'
  unfold cleanupTap unwireTap
  rw [runOn_ok (cleanVeth_run hK), runOn_ok (cleanTap_run hK hT' hname hq), runOn_ok runOn_attempt]
  exact delLink_stale hK hT'' hname

end Cleanup

/-! ### Setup and cleanup together -/

/-- The cleanup undoes the setup: the TAP is gone, and the veth `v` has no redirect to the TAP `t`, and no ingress
qdisc unless it had one before the setup.  All other links are as they were. -/
structure Undone (tap : String) (v t : ℕ) (before wired after : Netns) : Prop where
  tapGone : ∀ l ∈ after.links, l.name ≠ tap
  filterGone : ∀ l ∈ after.links, l.idx = v → t ∉ l.st.ingress.getD []
  qdiscGone : (∀ l ∈ before.links, l.idx = v → l.st.ingress = none) →
    ∀ l ∈ after.links, l.idx = v → l.st.ingress = none
  others : ∀ l ∈ wired.links, l.name ≠ tap → l.idx ≠ v → l ∈ after.links

section Together

variable {K : Kernel Netns} {deletes : ℕ → List IfAddr → IfAddr → Option (List IfAddr)} {n : Netns} {tap : String}
  {i v t : ℕ} {l V T : Link} {f : LinkState → LinkState} {as : List IfAddr}

theorem Netns.modify_idx (h : l ∈ (n.modify i f).links) (hi : l.idx = i) :
    ∃ x ∈ n.links, x.idx = i ∧ l = x.changed f := by
  obtain ⟨x, hx, rfl⟩ := Netns.mem_modify.mp h
  by_cases hxi : x.idx = i
  · rw [if_pos hxi]
    exact ⟨x, hx, hxi, rfl⟩
  · rw [if_neg hxi] at hi
    exact absurd hi hxi

theorem Netns.of_modify_other (h : l ∈ (n.modify i f).links) (hi : l.idx ≠ i) : l ∈ n.links := by
  obtain ⟨x, hx, rfl⟩ := Netns.mem_modify.mp h
  by_cases hxi : x.idx = i
  · rw [if_pos hxi] at hi
    exact absurd hxi hi
  · rwa [if_neg hxi]

/-- The veth after the setup. -/
theorem wired_veth (hne : v ≠ t) (hl : l ∈ (wired n v t as).links) (hi : l.idx = v) :
    l.st.addrs = as ∧ t ∈ l.st.ingress.getD [] := by
  obtain ⟨x, hx, hxi, rfl⟩ := Netns.modify_idx hl hi
  have hx' := Netns.of_modify_other hx (hxi ▸ hne)
  obtain ⟨y, -, -, rfl⟩ := Netns.modify_idx hx' hxi
  refine ⟨rfl, ?_⟩
  show t ∈ (some (y.st.ingress.getD [] ++ [t])).getD []
  rw [Option.getD_some]
  exact List.mem_append_right _ List.mem_cons_self

theorem Netns.modify_has {j : ℕ} (h : ∃ l ∈ n.links, l.idx = j) : ∃ l ∈ (n.modify i f).links, l.idx = j := by
  obtain ⟨l, hl, rfl⟩ := h
  refine ⟨_, Netns.mem_modify.mpr ⟨l, hl, rfl⟩, ?_⟩
  split <;> rfl

theorem wired_has (hV : V ∈ n.links) : ∃ l ∈ (wired n V.idx t as).links, l.idx = V.idx :=
  Netns.modify_has (Netns.modify_has (Netns.modify_has ⟨V, hV, rfl⟩))

/-- The TAP after the setup. -/
theorem wired_tap (hne : T.idx ≠ v) (hT : T ∈ n.links) :
    ∃ l ∈ (wired n v T.idx as).links, l.idx = T.idx ∧ l.name = T.name ∧ l.st.ingress ≠ none := by
  have hT' : T ∈ (n.modify v (LinkState.redirected T.idx)).links := Netns.modify_other hT hne
  have hself := Netns.modify_self (f := LinkState.redirected v) hT'
  exact ⟨_, Netns.modify_other hself hne, rfl, rfl, Option.some_ne_none _⟩

/-- A redirect is no matter for the search. -/
theorem redirected_mem (tap : String) {j : ℕ} (h : l ∈ (n.modify i (LinkState.redirected j)).links) :
    ∃ x ∈ n.links, x.idx = l.idx ∧ x.isVeth tap = l.isVeth tap := by
  obtain ⟨x, hx, rfl⟩ := Netns.mem_modify.mp h
  refine ⟨x, hx, ?_⟩
  split
  · exact ⟨rfl, rfl⟩
  · exact ⟨rfl, rfl⟩

/-- A link that looks like a veth does so with other addresses. -/
theorem keeping_isVeth (h : l.isVeth tap = true) (has : as ≠ []) :
    (l.changed (LinkState.keeping as)).isVeth tap = true := by
  have hname : decide (l.name = "lo" ∨ l.name = tap ∨ l.name = "") = false := by
    by_contra hd
    rw [Link.isVeth, Bool.eq_true_of_not_eq_false hd] at h
    cases h
  cases as with
  | nil => exact absurd rfl has
  | cons a as =>
    show (!decide (l.name = "lo" ∨ l.name = tap ∨ l.name = "") && true) = true
    rw [hname]
    rfl

/-- The search of the cleanup, when the veth has kept an address. -/
theorem find_wired (hV : n.links.find? (Link.isVeth tap) = some V) (has : as ≠ []) :
    ∃ W, (wired n V.idx t as).links.find? (Link.isVeth tap) = some W ∧ W.idx = V.idx := by
  have hidx : ∀ (j : ℕ) (g : LinkState → LinkState) (x : Link), (if x.idx = j then x.changed g else x).idx = x.idx := by
    intro j g x
    split <;> rfl
  have hmem := List.mem_of_find?_eq_some hV
  have hveth : V.isVeth tap = true := List.find?_some hV
  unfold wired
  rw [find_modify, find_modify, find_modify, hV]
  · refine ⟨_, rfl, ?_⟩
    rw [hidx, hidx, hidx]
  · exact fun _ _ _ => rfl
  · exact fun _ _ _ => rfl
  · -- the veth had an address, and has one
    intro l hl hi
    obtain ⟨x, hx, hxi, hxv⟩ := redirected_mem tap hl
    obtain ⟨y, hy, hyi, hyv⟩ := redirected_mem tap hx
    obtain rfl := n.eq_of_idx hy hmem (hyi.trans (hxi.trans hi))
    have hl' : l.isVeth tap = true := by rw [← hxv, ← hyv, hveth]
    rw [keeping_isVeth hl' has, hl']

/-- The cleanup after a setup with TAP `T` and veth `V`, which has kept the addresses `as`. -/
theorem cleanup_wired (hK : ServesPod tap K deletes) {before : Netns} (hT : n.byName tap = some T)
    (hV : n.links.find? (Link.isVeth tap) = some V) :
    Undone tap V.idx T.idx before (wired n V.idx T.idx as) (cleanupTap K tap (wired n V.idx T.idx as)) ↔
      T.idx = 48 ∧ as ≠ [] := by
  obtain ⟨hTmem, hTname⟩ := Netns.byName_some hT
  have hVmem := List.mem_of_find?_eq_some hV
  have hne : V.idx ≠ T.idx := veth_ne_tap hV hTmem hTname
  set mid := wired n V.idx T.idx as with hmid
  obtain ⟨T', hT', hTidx, hTname', hTq⟩ : ∃ l ∈ mid.links, l.idx = T.idx ∧ l.name = T.name ∧ l.st.ingress ≠ none :=
    wired_tap hne.symm hTmem
  rw [hTname] at hTname'
  rw [cleanupTap_eq hK hT' hTname' hTq, hTidx]
  constructor
  · intro h
    have hTbare : T' ∈ (bareVeth tap mid).links := bareVeth_other hT' fun he => isVeth_name he hTname'
    have hidx : T.idx = 48 := by
      by_contra h48
      have hlast : T'.changed LinkState.bare ∈ ((bareVeth tap mid).modify T.idx LinkState.bare).links :=
        hTidx ▸ Netns.modify_self hTbare
      have hafter := delLink_keeps hK hlast (by rw [Link.changed_idx, hTidx]; exact h48)
      exact h.tapGone _ hafter hTname'
    refine ⟨hidx, ?_⟩
    -- the veth has no address, and the search of the cleanup does not find it
    rintro rfl
    obtain ⟨V', hV', hVidx⟩ : ∃ l ∈ mid.links, l.idx = V.idx := wired_has hVmem
    obtain ⟨haddrs, hfilter⟩ := wired_veth hne hV' hVidx
    have hno : ¬ V'.isVeth tap = true := by simp [Link.isVeth, haddrs]
    have hV'' := Netns.modify_other (f := LinkState.bare) (bareVeth_other hV' hno) (hVidx ▸ hne)
    exact h.filterGone V' (delLink_keeps hK hV'' (by rw [hVidx, ← hidx]; exact hne)) hVidx hfilter
  · rintro ⟨hidx, has⟩
    obtain ⟨W, hW, hWidx⟩ := find_wired (t := T.idx) hV has
    have hbare : bareVeth tap mid = mid.modify V.idx LinkState.bare := by
      rw [bareVeth, hW, ← hWidx]
    have hTmid := Netns.modify_other (f := LinkState.bare) hT' (i := V.idx) (hTidx ▸ hne.symm)
    have hTlast : T'.changed LinkState.bare ∈
        ((mid.modify V.idx LinkState.bare).modify T.idx LinkState.bare).links := hTidx ▸ Netns.modify_self hTmid
    have hdel := hK.delTap _ _ hTlast hTname'
    rw [show (T'.changed LinkState.bare).idx = 48 from hTidx.trans hidx] at hdel
    rw [hbare, hdel]
    have hgone : ∀ l ∈ (((mid.modify V.idx LinkState.bare).modify T.idx LinkState.bare).remove 48).links,
        l.idx = V.idx → l.st.ingress = none := by
      intro l hl hi
      have hl' := Netns.of_modify_other (Netns.mem_remove.mp hl).1 (hi ▸ hne)
      obtain ⟨x, -, -, rfl⟩ := Netns.modify_idx hl' hi
      rfl
    refine ⟨?_, ?_, fun _ => hgone, ?_⟩
    · intro l hl hname
      obtain ⟨hl', h48⟩ := Netns.mem_remove.mp hl
      have hmem := Netns.of_modify_other hl' (hidx ▸ h48)
      obtain rfl := Netns.eq_of_name _ hmem hTmid (hname.trans hTname'.symm)
      exact h48 (hTidx.trans hidx)
    · intro l hl hi
      rw [hgone l hl hi]
      exact List.not_mem_nil
    · intro l hl hname hi
      have ht : l.idx ≠ T.idx := by
        intro he
        obtain rfl := mid.eq_of_idx hl hT' (he.trans hTidx.symm)
        exact hname hTname'
      exact Netns.mem_remove.mpr ⟨Netns.modify_other (Netns.modify_other hl hi) ht, hidx ▸ ht⟩

/-- **Setup and cleanup.**  After a setup that succeeded, with the first link that looked like a veth, the cleanup
undoes it exactly when the TAP has the index 48 in the pod and the flush has left the veth an address. -/
theorem cleanup_undoes (H : Kernel Nets) (K : Kernel Netns)
    (deletes : ℕ → List IfAddr → IfAddr → Option (List IfAddr)) (tap : String) (hH : ServesHost H)
    (hK : ServesPod tap K deletes) (nsFd : Int32) (s s' : Nets) (h : activateTap H K tap nsFd s = (.ok (), s')) :
    ∃ T V, T ∈ s'.pod.links ∧ T.name = tap ∧ s.pod.links.find? (Link.isVeth tap) = some V ∧
      (Undone tap V.idx T.idx s.pod s'.pod (cleanupTap K tap s'.pod) ↔
        T.idx = 48 ∧ flushed deletes V.idx V.st.addrs V.st.addrs ≠ []) := by
  obtain ⟨n, T, V, hT, hV, hbefore, hpod⟩ := activateTap_ok hH hK h
  obtain ⟨hmem, hname⟩ := Netns.byName_some hT
  have hraised : T.changed LinkState.raised ∈ (raise n T).links := Netns.modify_self hmem
  have hT' : (raise n T).byName tap = some (T.changed LinkState.raised) := hname ▸ Netns.byName_mem hraised
  have hV' : (raise n T).links.find? (Link.isVeth tap) = some V := (find_tap hmem hname _).trans hV
  have hne : T.idx ≠ V.idx := (veth_ne_tap hV hmem hname).symm
  obtain ⟨T', hmem', hidx, hname', -⟩ : ∃ l ∈ s'.pod.links, l.idx = T.idx ∧ l.name = T.name ∧ l.st.ingress ≠ none :=
    hpod ▸ wired_tap (T := T.changed LinkState.raised) hne hraised
  refine ⟨T', V, hmem', hname'.trans hname, hbefore, ?_⟩
  rw [hidx, hpod]
  exact cleanup_wired hK (T := T.changed LinkState.raised) hT' hV'

end Together

/-! ### A kernel that deletes each address alone -/

/-- Requests about an interface that is not there: ENODEV. -/
def enodev : ℕ := 19

/-- A change of the link of an index, unless `check` gives an error. -/
def onLink (n : Netns) (i : ℕ) (check : LinkState → Option ℕ) (change : LinkState → LinkState) :
    Except ℕ Unit × Netns :=
  match n.find i with
  | none => (.error enodev, n)
  | some l =>
    match check l.st with
    | some e => (.error e, n)
    | none => (.ok (), n.modify i change)

section Kernels

variable (refuses : AddrRec → Bool) {n : Netns} {l : Link}

/-- The requests in the pod's namespace.  The messages that the setup and the cleanup do not send there are not
supported. -/
def podAsk (n : Netns) : Req → Except ℕ Unit × Netns
  | .setLinkUp i => onLink n i (fun _ => none) LinkState.raised
  | .delLink i =>
    match n.find i with
    | none => (.error enodev, n)
    | some _ => (.ok (), n.remove i)
  | .newQdisc i => onLink n i (fun st => if st.ingress.isSome then some eexist else none)
      fun st => { st with ingress := some [] }
  -- ENOENT
  | .delQdisc i => onLink n i (fun st => if st.ingress.isSome then none else some 2)
      fun st => { st with ingress := none }
  -- EINVAL, when there is no qdisc
  | .newFilter src dst => onLink n src
      (fun st => if st.ingress.isNone then some 22 else if (n.find dst).isNone then some enodev else none)
      fun st => { st with ingress := some (st.ingress.getD [] ++ [dst]) }
  -- EPERM, and EADDRNOTAVAIL
  | .delAddr a => onLink n a.idx
      (fun st => if refuses a then some 1 else if st.addrs.any fun b => b.record a.idx = a then none else some 99)
      fun st => { st with addrs := st.addrs.eraseP fun b => b.record a.idx = a }
  | .setLinkNetnsFd _ _ | .newAddr _ _ _ | .newRoute _ _ | .delRoute _ => (.error 95, n)

/-- Move a link of the host to the pod. -/
def moveLink (s : Nets) (i : ℕ) : Except ℕ Unit × Nets :=
  match s.host.find i with
  | none => (.error enodev, s)
  | some l =>
    if h : l.name ∈ s.pod.links.map Link.name then (.error eexist, s)
    else (.ok (), ⟨s.host.remove i, s.pod.moveIn l h⟩)

def linkOf (n : Netns) (name : String) : Except ℕ LinkRec :=
  match n.byName name with
  | some l => .ok l.record
  | none => .error enodev

theorem linkOf_errno {n : Netns} {name : String} {e : ℕ} (h : linkOf n name = .error e) : e ≠ 0 := by
  unfold linkOf at h
  split at h
  · cases h
  · cases h
    decide

theorem onLink_errno {n : Netns} {i : ℕ} {check : LinkState → Option ℕ} {change : LinkState → LinkState} {e : ℕ}
    (hc : ∀ st, check st ≠ some 0) (h : (onLink n i check change).1 = .error e) : e ≠ 0 := by
  unfold onLink at h
  split at h
  · cases h
    decide
  · split at h
    · next l _ e' he =>
      cases h
      rintro rfl
      exact hc _ he
    · cases h

/-- No request fails with the code of success. -/
theorem podAsk_errno {n : Netns} {r : Req} {e : ℕ} (h : (podAsk refuses n r).1 = .error e) : e ≠ 0 := by
  cases r with
  | setLinkNetnsFd i fd => cases h; decide
  | newAddr i ip p => cases h; decide
  | newRoute gw i => cases h; decide
  | delRoute r => cases h; decide
  | setLinkUp i => exact onLink_errno (fun st => by simp) h
  | delLink i =>
    simp only [podAsk] at h
    split at h
    · cases h
      decide
    · cases h
  | newQdisc i => exact onLink_errno (fun st => by split <;> simp [eexist]) h
  | delQdisc i => exact onLink_errno (fun st => by split <;> simp) h
  | newFilter src dst =>
    refine onLink_errno (fun st => ?_) h
    split
    · simp
    · split <;> simp [enodev]
  | delAddr a =>
    refine onLink_errno (fun st => ?_) h
    split
    · simp
    · split <;> simp

theorem moveLink_errno {s : Nets} {i e : ℕ} (h : (moveLink s i).1 = .error e) : e ≠ 0 := by
  unfold moveLink at h
  split at h
  · cases h
    decide
  · split at h
    · cases h
      decide
    · cases h

/-- The kernel behind a socket in the namespace of the host. -/
def hostKernel (strerror : ℕ → String) : Kernel Nets where
  getLink := fun s name => linkOf s.host name
  ask := fun s r =>
    match r with
    | .setLinkNetnsFd i _ => moveLink s i
    | _ => (.error 95, s)
  links := fun s => [s.host.links.map Link.record]
  addrs := fun s => [s.host.links.flatMap fun l => l.st.addrs.map (IfAddr.record l.idx)]
  routes := fun _ => []
  strerror := strerror
  getLink_errno := fun _ _ _ h => linkOf_errno h
  ask_errno := by
    intro s r e h
    split at h
    · exact moveLink_errno h
    · cases h
      decide

/-- The kernel behind a socket in the namespace of the pod. -/
def podKernel (strerror : ℕ → String) : Kernel Netns where
  getLink := linkOf
  ask := podAsk refuses
  links := fun n => [n.links.map Link.record]
  addrs := fun n => [n.links.flatMap fun l => l.st.addrs.map (IfAddr.record l.idx)]
  routes := fun _ => []
  strerror := strerror
  getLink_errno := fun _ _ _ h => linkOf_errno h
  ask_errno := fun _ _ _ h => podAsk_errno refuses h

/-- A request about a link that is there. -/
theorem onLink_ok {check : LinkState → Option ℕ} {change : LinkState → LinkState} (hl : l ∈ n.links)
    (hc : check l.st = none) : onLink n l.idx check change = (.ok (), n.modify l.idx change) := by
  rw [onLink, Netns.find_mem hl]
  simp only [hc]

theorem onLink_refused {check : LinkState → Option ℕ} {change : LinkState → LinkState} {e : ℕ} (hl : l ∈ n.links)
    (hc : check l.st = some e) : onLink n l.idx check change = (.error e, n) := by
  rw [onLink, Netns.find_mem hl]
  simp only [hc]

/-- What this kernel leaves of the addresses of a link. -/
def alone (i : ℕ) (as : List IfAddr) (a : IfAddr) : Option (List IfAddr) :=
  if refuses (a.record i) then none
  else if as.any fun b => b.record i = a.record i then some (as.eraseP fun b => b.record i = a.record i) else none

theorem linkOf_found (n : Netns) (name : String) (l : Link) (h : n.byName name = some l) :
    linkOf n name = .ok l.record := by
  rw [linkOf, h]

theorem linkOf_missed (n : Netns) (name : String) (h : n.byName name = none) : ∃ e, linkOf n name = .error e :=
  ⟨enodev, by rw [linkOf, h]⟩

section Answers

variable (hl : l ∈ n.links)
include hl

theorem newQdisc_new (hi : l.st.ingress = none) :
    podAsk refuses n (.newQdisc l.idx) = (.ok (), n.modify l.idx LinkState.ensured) := by
  have hsame : n.modify l.idx LinkState.ensured = n.modify l.idx fun st => { st with ingress := some [] } := by
    refine Netns.modify_congr hl ?_
    rw [LinkState.ensured, hi]
    rfl
  rw [podAsk, hsame]
  exact onLink_ok hl (by rw [hi]; rfl)

theorem newQdisc_there {fs : List ℕ} (hi : l.st.ingress = some fs) :
    podAsk refuses n (.newQdisc l.idx) = (.error eexist, n) := by
  rw [podAsk]
  exact onLink_refused hl (by rw [hi]; rfl)

theorem newFilter_granted {dst : ℕ} (h : (podAsk refuses n (.newFilter l.idx dst)).1 = .ok ()) :
    (podAsk refuses n (.newFilter l.idx dst)).2 = n.modify l.idx (LinkState.redirected dst) := by
  rw [podAsk] at h ⊢
  cases hc : (if l.st.ingress.isNone then some 22 else if (n.find dst).isNone then some enodev else none) with
  | none =>
    rw [onLink_ok hl hc]
    rfl
  | some e =>
    rw [onLink_refused hl hc] at h
    cases h

theorem delAddr_alone {a : IfAddr} {as : List IfAddr} (h : alone refuses l.idx l.st.addrs a = some as) :
    podAsk refuses n (.delAddr (a.record l.idx)) = (.ok (), n.modify l.idx (LinkState.keeping as)) := by
  unfold alone at h
  split_ifs at h with hr ha
  cases h
  rw [podAsk]
  refine (onLink_ok hl ?_).trans ?_
  · rw [if_neg hr]
    exact if_pos ha
  · exact congrArg (Prod.mk _) (Netns.modify_congr hl rfl)

theorem delAddr_refused {a : IfAddr} (h : alone refuses l.idx l.st.addrs a = none) :
    ∃ e, podAsk refuses n (.delAddr (a.record l.idx)) = (.error e, n) := by
  unfold alone at h
  rw [podAsk]
  split_ifs at h with hr ha
  · refine ⟨1, onLink_refused hl ?_⟩
    rw [if_pos hr]
  · refine ⟨99, onLink_refused hl ?_⟩
    rw [if_neg hr]
    exact if_neg ha

end Answers

theorem podKernel_serves (strerror : ℕ → String) (tap : String) :
    ServesPod tap (podKernel refuses strerror) (alone refuses) where
  found := linkOf_found
  missed := linkOf_missed
  links := fun _ => List.append_nil _
  addrs := fun _ => List.append_nil _
  setLinkUp := by
    intro n l hl
    show podAsk refuses n (.setLinkUp l.idx) = _
    rw [podAsk]
    exact onLink_ok hl rfl
  newQdisc := by
    intro n l hl h
    cases hi : l.st.ingress with
    | none => exact congrArg Prod.snd (newQdisc_new refuses hl hi)
    | some fs => cases (congrArg Prod.fst (newQdisc_there refuses hl hi)).symm.trans h
  qdiscThere := by
    intro n l hl h
    cases hi : l.st.ingress with
    | none => cases (congrArg Prod.fst (newQdisc_new refuses hl hi)).symm.trans h
    | some fs => exact ⟨Option.some_ne_none fs, congrArg Prod.snd (newQdisc_there refuses hl hi)⟩
  newFilter := fun _ _ _ hl h => newFilter_granted refuses hl h
  delAddr := fun _ _ _ _ hl h => delAddr_alone refuses hl h
  refused := fun _ _ _ hl h => delAddr_refused refuses hl h
  delQdisc := by
    intro n l hl h
    obtain ⟨fs, hfs⟩ := Option.ne_none_iff_exists'.mp h
    show podAsk refuses n (.delQdisc l.idx) = _
    rw [podAsk]
    exact onLink_ok hl (by rw [hfs]; rfl)
  qdiscGone := by
    intro n l hl h
    show (podAsk refuses n (.delQdisc l.idx)).2 = n
    rw [podAsk, onLink_refused (e := 2) hl (by rw [h]; rfl)]
  delLink := by
    intro n i
    show (podAsk refuses n (.delLink i)).2 = _ ∨ (podAsk refuses n (.delLink i)).2 = _
    rw [podAsk]
    split
    · exact .inl rfl
    · exact .inr rfl
  delTap := by
    intro n l hl _
    show (podAsk refuses n (.delLink l.idx)).2 = _
    rw [podAsk, Netns.find_mem hl]

theorem hostKernel_serves (strerror : ℕ → String) : ServesHost (hostKernel strerror) where
  found := fun s => linkOf_found s.host
  missed := fun s => linkOf_missed s.host
  moved := by
    intro s l fd hl
    show (moveLink s l.idx).2.pod = s.pod ∨ ∃ l' before after, l'.name = l.name ∧ l'.st.addrs = [] ∧
      s.pod.links = before ++ after ∧ (moveLink s l.idx).2.pod.links = before ++ l' :: after
    unfold moveLink
    rw [Netns.find_mem hl]
    dsimp only
    split
    · exact .inl rfl
    · exact .inr ⟨⟨s.pod.idxFor l.idx, l.name, l.mac, ⟨false, [], none⟩⟩, s.pod.links, [], rfl, rfl,
        (List.append_nil _).symm, rfl⟩

/-- Addresses are left exactly when one of them is refused. -/
theorem flushed_alone (i : ℕ) (as : List IfAddr) :
    flushed (alone refuses) i as as ≠ [] ↔ ∃ a ∈ as, refuses (a.record i) = true := by
  induction as with
  | nil => simp [flushed]
  | cons a as ih =>
    have hany : ((a :: as).any fun b => b.record i = a.record i) = true := by simp
    have herase : (a :: as).eraseP (fun b => b.record i = a.record i) = as := List.eraseP_cons_of_pos (decide_eq_true rfl)
    rw [flushed, alone]
    by_cases hr : refuses (a.record i) = true
    · rw [if_pos hr]
      exact ⟨fun _ => ⟨a, List.mem_cons_self, hr⟩, fun _ => List.cons_ne_nil a as⟩
    · rw [if_neg hr, if_pos hany, herase]
      dsimp only
      rw [ih, List.exists_mem_cons_iff]
      exact ⟨.inr, fun h => h.resolve_left hr⟩

end Kernels

/-- A pod with eth0, and a host with the TAP at an index. -/
def podAndTap (i : ℕ) : Nets where
  host := ⟨[⟨i, "tap0", "02:00:00:00:00:02", ⟨true, [], none⟩⟩], List.nodup_singleton _, List.nodup_singleton _⟩
  pod := ⟨[⟨1, "lo", "", ⟨true, [⟨⟨127, 0, 0, 1⟩, 8, 76⟩], none⟩⟩,
    ⟨2, "eth0", "02:00:00:00:00:01", ⟨true, [⟨⟨10, 0, 0, 2⟩, 24, 80⟩], none⟩⟩], by decide, by decide⟩

theorem cleanup_undoes_refused :
    ∃ s', activateTap (hostKernel toString) (podKernel (fun _ => true) toString) "tap0" 5 (podAndTap 48) =
        (.ok (), s') ∧
      Undone "tap0" 2 48 (podAndTap 48).pod s'.pod (cleanupTap (podKernel (fun _ => true) toString) "tap0" s'.pod) := by
  set s' := (activateTap (hostKernel toString) (podKernel (fun _ => true) toString) "tap0" 5 (podAndTap 48)).2 with hs'
  have hok : activateTap (hostKernel toString) (podKernel (fun _ => true) toString) "tap0" 5 (podAndTap 48) =
    (.ok (), s') := Prod.ext rfl rfl
  obtain ⟨T, V, hT, hname, hV, hiff⟩ :=
    cleanup_undoes _ _ _ _ (hostKernel_serves toString) (podKernel_serves _ toString _) _ _ _ hok
  have hidx : ∀ l ∈ s'.pod.links, l.name = "tap0" → l.idx = 48 := by decide +kernel
  have hveth : (podAndTap 48).pod.links.find? (Link.isVeth "tap0") =
      some ⟨2, "eth0", "02:00:00:00:00:01", ⟨true, [⟨⟨10, 0, 0, 2⟩, 24, 80⟩], none⟩⟩ := by decide +kernel
  obtain rfl := Option.some.inj (hV.symm.trans hveth)
  rw [hidx T hT hname, flushed_alone] at hiff
  exact ⟨s', hok, hiff.mpr ⟨rfl, _, List.mem_cons_self, rfl⟩⟩

/-- A TAP with the index 7, and a kernel that deletes the addresses: after the cleanup the TAP is there, and so is
the redirect of eth0. -/
theorem tap_left :
    ∃ s', activateTap (hostKernel toString) (podKernel (fun _ => false) toString) "tap0" 5 (podAndTap 7) =
        (.ok (), s') ∧
      (∃ l ∈ (cleanupTap (podKernel (fun _ => false) toString) "tap0" s'.pod).links, l.name = "tap0") ∧
      (∃ l ∈ (cleanupTap (podKernel (fun _ => false) toString) "tap0" s'.pod).links,
        l.idx = 2 ∧ 7 ∈ l.st.ingress.getD []) ∧
      ¬ Undone "tap0" 2 7 (podAndTap 7).pod s'.pod (cleanupTap (podKernel (fun _ => false) toString) "tap0" s'.pod) := by
  set s' := (activateTap (hostKernel toString) (podKernel (fun _ => false) toString) "tap0" 5 (podAndTap 7)).2 with hs'
  have htap : ∃ l ∈ (cleanupTap (podKernel (fun _ => false) toString) "tap0" s'.pod).links, l.name = "tap0" := by
    decide +kernel
  refine ⟨s', Prod.ext rfl rfl, htap, by decide +kernel, fun h => ?_⟩
  obtain ⟨l, hl, hname⟩ := htap
  exact h.tapGone l hl hname

end CloudHv.Netlink
