import CloudHv.Common.Dump
import CloudHv.Lib.Text
import CloudHv.Lib.Utf8

/-!
# Nlas — the walks over attributes

`parse_link_nlas`, `find_ipv4_nla` and the loop in `flush_routes` of `crates/common/src/netlink.rs` go over the
attributes of a message by hand.  What was laid out as attributes is read back (`attributes_decoded`).

On other bytes the first two stop at the first attribute that is too short or runs past the end.  The third does not
look whether an attribute runs past the end, and reads an interface from what there is (`walkers_stop_iff`).
-/

namespace CloudHv.Netlink.Raw

open Wire Walk Walk.Read

section Code

variable (o : ByteOrder) (data : List UInt8)

/-- `trim_end_matches('\0')`. -/
def trimEndNul (s : String) : String := String.ofList (s.toList.rdropWhile (· = '\x00'))

/-- The text of a MAC address. -/
def macText (p : List UInt8) : String := ":".intercalate (p.map fun b => Text.hex 2 b.toNat)

def linkRound : ℕ × String × String → Read (Turn (ℕ × String × String) (String × String))
  | (off, name, mac) =>
    if off + 4 ≤ data.length then do
      let len ← readU16 o data off
      let ty ← readU16 o data (off + 2)
      if len < 4 ∨ data.length < off + len then pure (.stop (name, mac))
      else do
        let p ← get data (off + 4) (len - 4)
        let name := if ty = 3 then trimEndNul (Utf8.lossy p) else name
        let mac := if ty = 1 ∧ p.length = 6 then macText p else mac
        pure (.next (off + align4 len, name, mac))
    else pure (.stop (name, mac))

/-- `parse_link_nlas`: the name and the MAC address. -/
def parseLinkNlas : Read (Option (String × String)) := loop (linkRound o data) (data.length + 1) (0, "", "")

/-- `Ipv4Addr::new`, of four bytes. -/
def ofOctets : List UInt8 → Option Ipv4Addr
  | [a, b, c, d] => some ⟨a, b, c, d⟩
  | _ => none

def ipv4Round (target : ℕ) : ℕ × Unit → Read (Turn (ℕ × Unit) (Option Ipv4Addr))
  | (off, _) =>
    if off + 4 ≤ data.length then do
      let len ← readU16 o data off
      let ty ← readU16 o data (off + 2)
      if len < 4 ∨ data.length < off + len then pure (.stop none)
      else if (ty = target ∧ 8 ≤ len) ∧ 4 ≤ data.length - (off + 4) then do
        let p ← get data (off + 4) 4
        pure (.stop (ofOctets p))
      else pure (.next (off + align4 len, ()))
    else pure (.stop none)

/-- `find_ipv4_nla`. -/
def findIpv4Nla (target : ℕ) : Read (Option (Option Ipv4Addr)) :=
  loop (ipv4Round o data target) (data.length + 1) (0, ())

/-- The interface of an RTA_OIF. -/
def oifAt (off len ty : ℕ) (ifindex : ℕ) (found : Bool) : Read Bool :=
  if ty = 4 ∧ 8 ≤ len then do
    let oif ← readU32 o data (off + 4)
    pure (found || oif == ifindex)
  else pure found

def routeRound (ifindex : ℕ) : ℕ × Bool → Read (Turn (ℕ × Bool) Bool)
  | (off, found) =>
    if off + 4 ≤ data.length then do
      let len ← readU16 o data off
      if len < 4 then pure (.stop found)
      else do
        let ty ← readU16 o data (off + 2)
        let found ← oifAt o data off len ty ifindex found
        pure (.next (off + align4 len, found))
    else pure (.stop found)

/-- The loop of `flush_routes` over the attributes of a route: whether the route is of the interface, and is deleted. -/
def routeFound (ifindex : ℕ) : Read (Option Bool) := loop (routeRound o data ifindex) (data.length + 1) (0, false)

end Code

/-! ### What attributes say -/

section Attributes

variable (o : ByteOrder)

/-- What the last attribute that `p` holds of says. -/
def lastOr {α : Type} (p : Attr → Prop) [DecidablePred p] (f : Attr → α) (x : α) (as : List Attr) : α :=
  ((as.filter (p ·)).getLast?.map f).getD x

/-- The name in the last IFLA_IFNAME. -/
def nameOf (as : List Attr) : String := lastOr (·.ty = 3) (fun a => trimEndNul (Utf8.lossy a.payload)) "" as

/-- The address in the last IFLA_ADDRESS of six bytes. -/
def macOf (as : List Attr) : String := lastOr (fun a => a.ty = 1 ∧ a.payload.length = 6) (fun a => macText a.payload) "" as

/-- The address in the first attribute of the type with four bytes. -/
def ipv4Of (target : ℕ) (as : List Attr) : Option Ipv4Addr :=
  (as.find? fun a => a.ty = target ∧ 4 ≤ a.payload.length).bind fun a => ofOctets (a.payload.take 4)

/-- One of the RTA_OIF is the interface. -/
def viaOf (ifindex : ℕ) (as : List Attr) : Bool :=
  as.any fun a => (a.ty = 4 ∧ 4 ≤ a.payload.length) && value o (a.payload.take 4) == ifindex

/-! ### A visit to an attribute -/

def visitLink (a : Attr) : String × String → Turn (String × String) (String × String)
  | (name, mac) => .next (if a.ty = 3 then trimEndNul (Utf8.lossy a.payload) else name,
      if a.ty = 1 ∧ a.payload.length = 6 then macText a.payload else mac)

def visitIpv4 (target : ℕ) (a : Attr) (_ : Unit) : Turn Unit (Option Ipv4Addr) :=
  if a.ty = target ∧ 4 ≤ a.payload.length then .stop (ofOctets (a.payload.take 4)) else .next ()

def visitRoute (ifindex : ℕ) (a : Attr) (found : Bool) : Turn Bool Bool :=
  .next (if a.ty = 4 ∧ 4 ≤ a.payload.length then found || value o (a.payload.take 4) == ifindex else found)

variable {o} {as : List Attr}

theorem lastOr_cons {α : Type} {p : Attr → Prop} [DecidablePred p] {f : Attr → α} {x : α} {a : Attr} :
    lastOr p f x (a :: as) = lastOr p f (if p a then f a else x) as := by
  unfold lastOr
  by_cases hp : p a
  · rw [List.filter_cons_of_pos (by simpa using hp), if_pos hp, List.getLast?_cons]
    cases (as.filter (p ·)).getLast? <;> rfl
  · rw [List.filter_cons_of_neg (by simpa using hp), if_neg hp]

theorem sweep_link {name mac : String} : sweep visitLink id as (name, mac) =
    (lastOr (·.ty = 3) (fun a => trimEndNul (Utf8.lossy a.payload)) name as,
      lastOr (fun a => a.ty = 1 ∧ a.payload.length = 6) (fun a => macText a.payload) mac as) := by
  induction as generalizing name mac with
  | nil => rfl
  | cons a as ih =>
    rw [sweep, visitLink, lastOr_cons, lastOr_cons]
    exact ih

theorem sweep_ipv4 {target : ℕ} : sweep (visitIpv4 target) (fun _ => none) as () = ipv4Of target as := by
  induction as with
  | nil => rfl
  | cons a as ih =>
    rw [sweep, visitIpv4, ipv4Of]
    by_cases h : a.ty = target ∧ 4 ≤ a.payload.length
    · rw [if_pos h, List.find?_cons_of_pos (by simpa using h)]
      rfl
    · rw [if_neg h, List.find?_cons_of_neg (by simpa using h)]
      exact ih

theorem sweep_route {ifindex : ℕ} {found : Bool} :
    sweep (visitRoute o ifindex) id as found = (found || viaOf o ifindex as) := by
  induction as generalizing found with
  | nil => simp [sweep, viaOf]
  | cons a as ih =>
    rw [sweep, visitRoute, viaOf, List.any_cons]
    dsimp only
    rw [ih, viaOf]
    by_cases h : a.ty = 4 ∧ 4 ≤ a.payload.length
    · rw [if_pos h, decide_eq_true h, Bool.true_and, Bool.or_assoc]
    · rw [if_neg h, decide_eq_false h, Bool.false_and, Bool.false_or]

end Attributes

/-! ### The rounds -/

section Rounds

variable {o : ByteOrder} {data : List UInt8} {off : ℕ} {a : Attr}

/-- The numbers of an attribute that is all there. -/
theorem attr_at (h : Attr.atFront o (data.drop off) = some a) : (off + 4 ≤ data.length ∧ off + a.len ≤ data.length) ∧
    u16At o data off = a.len ∧ u16At o data (off + 2) = a.ty ∧ (data.drop (off + 4)).take (a.len - 4) = a.payload := by
  obtain ⟨hin, hlen⟩ := Attr.atFront_le h
  have hfour : 4 ≤ a.len := Nat.le_add_right 4 _
  unfold Attr.atFront at h
  split at h
  · next hc =>
    have ha := Option.some.inj h
    have hty : a.ty = u16At o data (off + 2) := by
      rw [← ha, u16At, ← List.drop_drop]
    have hpay : a.payload = (data.drop (off + 4)).take (a.len - 4) := by
      rw [← hlen, ← ha, ← List.drop_drop]
    exact ⟨⟨by omega, hin⟩, hlen, hty.symm, hpay.symm⟩
  · cases h

/-- An attribute that is too short or runs past the end, or what is too short for its header. -/
theorem no_attr_at (h : Attr.atFront o (data.drop off) = none) :
    data.length < off + 4 ∨ u16At o data off < 4 ∨ data.length < off + u16At o data off := by
  unfold Attr.atFront at h
  split at h
  · cases h
  · next hc =>
    rw [List.length_drop] at hc
    by_contra hno
    refine hc ⟨by omega, ?_, ?_⟩
    · show 4 ≤ u16At o data off
      omega
    · show u16At o data off ≤ data.length - off
      omega

/-- The spans of a header. -/
def headerSpans (off : ℕ) : List Span := [⟨off, 2⟩, ⟨off + 2, 2⟩]

theorem headerSpans_le {y : Span} (hy : y ∈ headerSpans off) : y.stop ≤ off + 4 := by
  rcases List.mem_pair.mp hy with rfl | rfl
  · show off + 2 ≤ off + 4
    omega
  · exact le_refl (off + 2 + 2)

/-- The header and a part of the payload. -/
theorem payloadSpans_le {pos len n : ℕ} (hhead : off + 4 ≤ n) (hpart : pos + len ≤ n) :
    ∀ y ∈ headerSpans off ++ [⟨pos, len⟩], y.stop ≤ n :=
  List.forall_mem_append.mpr ⟨fun _ hy => le_trans (headerSpans_le hy) hhead, List.forall_mem_singleton.mpr hpart⟩

theorem read_attr (h : off + 4 ≤ data.length) :
    readU16 o data off = done (u16At o data off) [⟨off, 2⟩] ∧
      readU16 o data (off + 2) = done (u16At o data (off + 2)) [⟨off + 2, 2⟩] :=
  ⟨readU16_eq (by omega), readU16_eq (by omega)⟩

theorem linkRound_attr (h : Attr.atFront o (data.drop off) = some a) (s : String × String) :
    ∃ spans, linkRound o data (off, s) = done ((visitLink a s).at (off + align4 a.len)) spans ∧
      ∀ y ∈ spans, y.stop ≤ off + a.len := by
  obtain ⟨⟨hhead, hin⟩, hlen, hty, hpay⟩ := attr_at h
  obtain ⟨hfirst, hsecond⟩ := read_attr (o := o) hhead
  have hfour : 4 ≤ a.len := Nat.le_add_right 4 _
  have hgood : ¬ (a.len < 4 ∨ data.length < off + a.len) := by omega
  have hget : get data (off + 4) (a.len - 4) = done a.payload [⟨off + 4, a.len - 4⟩] := by
    rw [get_eq (by omega), hpay]
  refine ⟨headerSpans off ++ [⟨off + 4, a.len - 4⟩], ?_, payloadSpans_le (by omega) (by omega)⟩
  rw [linkRound, if_pos hhead, hfirst, done_bind, hsecond, done_bind, hlen, hty, if_neg hgood, hget, done_bind]
  rfl

/-- A walk that leaves its loop where no attribute is left, with the header read or without it. -/
theorem walk_end {σ ρ : Type} {round : ℕ × σ → Read (Turn (ℕ × σ) ρ)} {s : σ} {r : ρ}
    (h : Attr.atFront o (data.drop off) = none)
    (hshort : ¬ off + 4 ≤ data.length → round (off, s) = done (.stop r) [])
    (hbad : off + 4 ≤ data.length → (u16At o data off < 4 ∨ data.length < off + u16At o data off) →
      round (off, s) = done (.stop r) (headerSpans off)) :
    ∃ spans, loop round 1 (off, s) = done (some r) spans ∧ ∀ y ∈ spans, y.stop ≤ data.length ∧ y.stop ≤ off + 4 := by
  by_cases hhead : off + 4 ≤ data.length
  · have hlen : u16At o data off < 4 ∨ data.length < off + u16At o data off := by
      rcases no_attr_at h with hc | hc
      · omega
      · exact hc
    refine ⟨headerSpans off, loop_stop (hbad hhead hlen), fun y hy => ?_⟩
    have hstop := headerSpans_le hy
    exact ⟨le_trans hstop hhead, hstop⟩
  · exact ⟨[], loop_stop (hshort hhead), by simp⟩

theorem linkRound_end (h : Attr.atFront o (data.drop off) = none) (s : String × String) :
    ∃ spans, loop (linkRound o data) 1 (off, s) = done (some (id s)) spans ∧
      ∀ y ∈ spans, y.stop ≤ data.length ∧ y.stop ≤ off + 4 := by
  refine walk_end h (fun hshort => ?_) fun hhead hbad => ?_
  · rw [linkRound, if_neg hshort]
    rfl
  · obtain ⟨hfirst, hsecond⟩ := read_attr (o := o) hhead
    rw [linkRound, if_pos hhead, hfirst, done_bind, hsecond, done_bind, if_pos hbad]
    rfl

theorem ipv4Round_attr (target : ℕ) (h : Attr.atFront o (data.drop off) = some a) (s : Unit) :
    ∃ spans, ipv4Round o data target (off, s) = done ((visitIpv4 target a s).at (off + align4 a.len)) spans ∧
      ∀ y ∈ spans, y.stop ≤ off + a.len := by
  obtain ⟨⟨hhead, hin⟩, hlen, hty, hpay⟩ := attr_at h
  obtain ⟨hfirst, hsecond⟩ := read_attr (o := o) hhead
  have hfour : a.len = 4 + a.payload.length := rfl
  have hgood : ¬ (a.len < 4 ∨ data.length < off + a.len) := by omega
  by_cases hhit : a.ty = target ∧ 4 ≤ a.payload.length
  · have htake : (data.drop (off + 4)).take 4 = a.payload.take 4 := by
      rw [← hpay, List.take_take]
      congr 1
      omega
    have hget : get data (off + 4) 4 = done (a.payload.take 4) [⟨off + 4, 4⟩] := by
      rw [get_eq (by omega), htake]
    have hcond : (a.ty = target ∧ 8 ≤ a.len) ∧ 4 ≤ data.length - (off + 4) := ⟨⟨hhit.1, by omega⟩, by omega⟩
    refine ⟨headerSpans off ++ [⟨off + 4, 4⟩], ?_, payloadSpans_le (by omega) (by omega)⟩
    rw [ipv4Round, if_pos hhead, hfirst, done_bind, hsecond, done_bind, hlen, hty, if_neg hgood, if_pos hcond, hget,
      done_bind, visitIpv4, if_pos hhit]
    rfl
  · have hcond : ¬ ((a.ty = target ∧ 8 ≤ a.len) ∧ 4 ≤ data.length - (off + 4)) :=
      fun hc => hhit ⟨hc.1.1, by omega⟩
    refine ⟨headerSpans off, ?_, fun y hy => le_trans (headerSpans_le hy) (by omega)⟩
    rw [ipv4Round, if_pos hhead, hfirst, done_bind, hsecond, done_bind, hlen, hty, if_neg hgood, if_neg hcond,
      visitIpv4, if_neg hhit]
    rfl

theorem ipv4Round_end {target : ℕ} (h : Attr.atFront o (data.drop off) = none) (s : Unit) :
    ∃ spans, loop (ipv4Round o data target) 1 (off, s) = done (some none) spans ∧
      ∀ y ∈ spans, y.stop ≤ data.length ∧ y.stop ≤ off + 4 := by
  refine walk_end h (fun hshort => ?_) fun hhead hbad => ?_
  · rw [ipv4Round, if_neg hshort]
    rfl
  · obtain ⟨hfirst, hsecond⟩ := read_attr (o := o) hhead
    rw [ipv4Round, if_pos hhead, hfirst, done_bind, hsecond, done_bind, if_pos hbad]
    rfl

theorem routeRound_attr (ifindex : ℕ) (h : Attr.atFront o (data.drop off) = some a) (found : Bool) :
    ∃ spans, routeRound o data ifindex (off, found) = done ((visitRoute o ifindex a found).at (off + align4 a.len)) spans ∧
      ∀ y ∈ spans, y.stop ≤ off + a.len := by
  obtain ⟨⟨hhead, hin⟩, hlen, hty, hpay⟩ := attr_at h
  obtain ⟨hfirst, hsecond⟩ := read_attr (o := o) hhead
  have hfour : a.len = 4 + a.payload.length := rfl
  have hgood : ¬ a.len < 4 := by omega
  by_cases hhit : a.ty = 4 ∧ 4 ≤ a.payload.length
  · have htake : u32At o data (off + 4) = value o (a.payload.take 4) := by
      rw [u32At, ← hpay, List.take_take]
      congr 2
      omega
    have hcond : a.ty = 4 ∧ 8 ≤ a.len := ⟨hhit.1, by omega⟩
    have hread : readU32 o data (off + 4) = done (value o (a.payload.take 4)) [⟨off + 4, 4⟩] := by
      rw [readU32_eq (by omega), htake]
    refine ⟨headerSpans off ++ [⟨off + 4, 4⟩], ?_, payloadSpans_le (by omega) (by omega)⟩
    rw [routeRound, if_pos hhead, hfirst, done_bind, hlen, if_neg hgood, hsecond, done_bind, hty, oifAt, if_pos hcond,
      hread, done_bind, visitRoute, if_pos hhit]
    rfl
  · have hcond : ¬ (a.ty = 4 ∧ 8 ≤ a.len) := fun hc => hhit ⟨hc.1, by omega⟩
    refine ⟨headerSpans off, ?_, fun y hy => le_trans (headerSpans_le hy) (by omega)⟩
    rw [routeRound, if_pos hhead, hfirst, done_bind, hlen, if_neg hgood, hsecond, done_bind, hty, oifAt, if_neg hcond,
      visitRoute, if_neg hhit]
    rfl

/-- Where the attributes end there is an RTA_OIF that runs past the end. -/
def CutOif (o : ByteOrder) (data : List UInt8) (off : ℕ) : Prop :=
  off + 4 ≤ data.length ∧ 8 ≤ u16At o data off ∧ data.length < off + u16At o data off ∧ u16At o data (off + 2) = 4

/-- Any other attribute that runs past the end is passed over, and the loop is over in the round after. -/
theorem routeRound_end (ifindex : ℕ) (h : Attr.atFront o (data.drop off) = none) (hcut : ¬ CutOif o data off) :
    ∃ j, (j = 1 ∨ j = 2 ∧ off + 4 ≤ data.length) ∧ ∀ found, ∃ spans,
      loop (routeRound o data ifindex) j (off, found) = done (some (id found)) spans ∧
      ∀ y ∈ spans, y.stop ≤ data.length ∧ y.stop ≤ off + 4 := by
  by_cases hhead : off + 4 ≤ data.length
  · obtain ⟨hfirst, hsecond⟩ := read_attr (o := o) hhead
    by_cases hshort : u16At o data off < 4
    · refine ⟨1, .inl rfl, fun found => ⟨[⟨off, 2⟩], loop_stop ?_, fun y hy => ?_⟩⟩
      · rw [routeRound, if_pos hhead, hfirst, done_bind, if_pos hshort]
        rfl
      · rw [List.mem_singleton.mp hy]
        show off + 2 ≤ data.length ∧ off + 2 ≤ off + 4
        omega
    · have hpast : data.length < off + u16At o data off := by
        rcases no_attr_at h with hc | hc | hc
        · omega
        · omega
        · exact hc
      have hcond : ¬ (u16At o data (off + 2) = 4 ∧ 8 ≤ u16At o data off) :=
        fun hc => hcut ⟨hhead, hc.2, hpast, hc.1⟩
      have hle := le_align4 (u16At o data off)
      have hover : ¬ off + align4 (u16At o data off) + 4 ≤ data.length := by omega
      refine ⟨2, .inr ⟨rfl, hhead⟩, fun found => ⟨headerSpans off, ?_, fun y hy => ?_⟩⟩
      · have hround : routeRound o data ifindex (off, found) =
            done (.next (off + align4 (u16At o data off), found)) (headerSpans off) := by
          rw [routeRound, if_pos hhead, hfirst, done_bind, if_neg hshort, hsecond, done_bind, oifAt, if_neg hcond]
          rfl
        have hlast : routeRound o data ifindex (off + align4 (u16At o data off), found) = done (.stop found) [] := by
          rw [routeRound, if_neg hover]
          rfl
        rw [loop_next hround, loop_stop hlast, behind_done, List.append_nil]
        rfl
      · have := headerSpans_le hy
        omega
  · refine ⟨1, .inl rfl, fun found => ⟨[], loop_stop ?_, by simp⟩⟩
    rw [routeRound, if_neg hhead]
    rfl

/-- An RTA_OIF that runs past the end is read all the same. -/
theorem routeRound_cut (ifindex : ℕ) (hcut : CutOif o data off) (found : Bool) :
    routeRound o data ifindex (off, found) = panic ∨
      ∃ f spans, routeRound o data ifindex (off, found) = done f spans ∧ ⟨off + 4, 4⟩ ∈ spans := by
  obtain ⟨hhead, height, -, hty⟩ := hcut
  obtain ⟨hfirst, hsecond⟩ := read_attr (o := o) hhead
  have hgood : ¬ u16At o data off < 4 := by omega
  cases hr : routeRound o data ifindex (off, found) with
  | panic => exact .inl rfl
  | done f spans =>
    refine .inr ⟨f, spans, rfl, ?_⟩
    rw [routeRound, if_pos hhead, hfirst, done_bind, if_neg hgood, hsecond, done_bind, oifAt, if_pos ⟨hty, height⟩] at hr
    by_cases hin : off + 4 + 4 ≤ data.length
    · rw [readU32_eq hin, done_bind, pure_eq, behind_done, done_bind] at hr
      obtain ⟨a, ha, rfl⟩ := behind_eq_done hr
      obtain ⟨b, hb, rfl⟩ := behind_eq_done ha
      obtain ⟨c, -, rfl⟩ := behind_eq_done hb
      simp
    · rw [readU32, get_panics (by omega)] at hr
      cases hr

end Rounds

/-! ### The walks -/

/-- The walk ends with this result, and it indexes nothing outside the bytes, and of the first attribute that is too
short or runs past the end only the header. -/
def StopsShort {ρ : Type} (o : ByteOrder) (data : List UInt8) (walk : Read (Option ρ)) (r : ρ) : Prop :=
  ∃ spans, walk = done (some r) spans ∧ ∀ y ∈ spans, y.stop ≤ data.length ∧ y.stop ≤ attrsEnd o data + 4

section Walks

variable {o : ByteOrder} {data : List UInt8}

theorem atFront_end (o : ByteOrder) (data : List UInt8) : Attr.atFront o (data.drop (attrsEnd o data)) = none := by
  have hend : ∀ {off stop : ℕ} {as : List Attr}, Attrs o data off as stop →
      Attr.atFront o (data.drop stop) = none := by
    intro off stop as h
    induction h with
    | nil h => exact h
    | cons _ _ ih => exact ih
  exact hend (attrs_spec o data)

theorem parseLinkNlas_stops (o : ByteOrder) (data : List UInt8) :
    StopsShort o data (parseLinkNlas o data) (nameOf (attrs o data), macOf (attrs o data)) := by
  obtain ⟨k, spans, hk, hloop, hin⟩ := loop_attrs (s := ("", "")) (attrs_spec o data)
    (fun off s a h => linkRound_attr h s) (linkRound_end (atFront_end o data))
  have hlen := (attrs_spec o data).length_le
  rw [sweep_link] at hloop
  exact ⟨spans, loop_more hloop (by omega), hin⟩

theorem findIpv4Nla_stops (o : ByteOrder) (data : List UInt8) (target : ℕ) :
    StopsShort o data (findIpv4Nla o data target) (ipv4Of target (attrs o data)) := by
  obtain ⟨k, spans, hk, hloop, hin⟩ := loop_attrs (s := ()) (attrs_spec o data)
    (fun off s a h => ipv4Round_attr target h s) (ipv4Round_end (atFront_end o data))
  have hlen := (attrs_spec o data).length_le
  rw [sweep_ipv4] at hloop
  exact ⟨spans, loop_more hloop (by omega), hin⟩

theorem routeFound_stops (hcut : ¬ CutOif o data (attrsEnd o data)) (ifindex : ℕ) :
    StopsShort o data (routeFound o data ifindex) (viaOf o ifindex (attrs o data)) := by
  obtain ⟨j, hj, hend⟩ := routeRound_end ifindex (atFront_end o data) hcut
  obtain ⟨k, spans, hk, hloop, hin⟩ := loop_attrs (s := false) (attrs_spec o data)
    (fun off s a h => routeRound_attr ifindex h s) hend
  have hlen := (attrs_spec o data).length_le
  have hstop := (attrs_spec o data).le
  rw [sweep_route, Bool.false_or] at hloop
  exact ⟨spans, loop_more hloop (by omega), hin⟩

/-- A walk that indexes of an RTA_OIF that runs past the end no more than its header does not come to one. -/
theorem not_cut_of_stops {ifindex : ℕ} {r : Bool} (h : StopsShort o data (routeFound o data ifindex) r) :
    ¬ CutOif o data (attrsEnd o data) := by
  intro hcut
  obtain ⟨spans, hloop, hin⟩ := h
  obtain ⟨found, before, hreach⟩ := loop_reaches (s := false) (attrs_spec o data) fun off s a h => by
    obtain ⟨spans, hround, -⟩ := routeRound_attr ifindex h s
    exact ⟨_, spans, hround⟩
  have hmore : loop (routeRound o data ifindex) ((attrs o data).length + (data.length + 1)) (0, false) =
      done (some r) spans := loop_more hloop (Nat.le_add_left _ _)
  rw [hreach] at hmore
  obtain ⟨after, hafter, rfl⟩ := behind_eq_done hmore
  have hread := loop_mem (routeRound_cut ifindex hcut found) hafter
  have hle : attrsEnd o data + 4 + 4 ≤ attrsEnd o data + 4 := (hin _ (List.mem_append_right before hread)).2
  omega

/-- **All three walks stop at the first attribute that is too short or runs past the end, if and only if it is no
RTA_OIF that runs past the end.** -/
theorem walkers_stop_iff (o : ByteOrder) (data : List UInt8) :
    (StopsShort o data (parseLinkNlas o data) (nameOf (attrs o data), macOf (attrs o data)) ∧
      (∀ target, StopsShort o data (findIpv4Nla o data target) (ipv4Of target (attrs o data))) ∧
      ∀ ifindex, StopsShort o data (routeFound o data ifindex) (viaOf o ifindex (attrs o data))) ↔
    ¬ CutOif o data (attrsEnd o data) := by
  constructor
  · rintro ⟨-, -, hroute⟩
    exact not_cut_of_stops (hroute 0)
  · intro hcut
    exact ⟨parseLinkNlas_stops o data, findIpv4Nla_stops o data, routeFound_stops hcut⟩

/-- An RTA_OIF of 12 bytes, of which there are 8. -/
def cutRoute : List UInt8 := [12, 0, 4, 0, 1, 0, 0, 0]

/-- An RTA_OIF of 8 bytes, of which there is the header. -/
def bareRoute : List UInt8 := [8, 0, 4, 0]

/-- The route that no attribute says is of interface 1 is found to be; the other one is read outside. -/
theorem cut_oif_read : ¬ StopsShort .little cutRoute (routeFound .little cutRoute 1) (viaOf .little 1 (attrs .little cutRoute)) ∧
    routeFound .little bareRoute 1 = panic := by
  constructor
  · rintro ⟨spans, hwalk, -⟩
    have hfound : routeFound .little cutRoute 1 = done (some true) [⟨0, 2⟩, ⟨2, 2⟩, ⟨4, 4⟩] := by decide
    have hnone : viaOf .little 1 (attrs .little cutRoute) = false := by decide
    rw [hfound, hnone] at hwalk
    cases hwalk
  · decide

end Walks

/-! ### Reading back what was laid out -/

/-- The attributes one after the other with their padding; the last may lack it. -/
def LaidOut (o : ByteOrder) (as : List Attr) (data : List UInt8) : Prop :=
  data = encode o as ∨ ∃ init last, as = init ++ [last] ∧ data = encode o init ++ last.bare o

section LaidOut

variable {o : ByteOrder} {data : List UInt8} {as bs : List Attr} {off stop : ℕ}

theorem attrs_encode {rest : List UInt8} (hfits : ∀ a ∈ as, a.Fits) (hd : data.drop off = encode o as ++ rest)
    (hrest : Attrs o data (off + (encode o as).length) bs stop) : Attrs o data off (as ++ bs) stop := by
  induction as generalizing off with
  | nil => exact hrest
  | cons a as ih =>
    have hcons : encode o (a :: as) = a.encode o ++ encode o as := rfl
    have hfront : Attr.atFront o (data.drop off) = some a := by
      rw [hd, hcons, Attr.encode_eq, List.append_assoc, List.append_assoc]
      exact Attr.atFront_bare (hfits a List.mem_cons_self) _
    have hlen := a.length_encode o
    have hnext : data.drop (off + align4 a.len) = encode o as ++ rest := by
      rw [← List.drop_drop, hd, hcons, List.append_assoc, List.drop_left' hlen]
    rw [hcons, List.length_append, hlen, ← Nat.add_assoc] at hrest
    exact .cons hfront (ih (fun b hb => hfits b (List.mem_cons_of_mem a hb)) hnext hrest)

theorem attrs_nil (h : data.length ≤ off) : Attrs o data off [] off := by
  refine .nil ?_
  rw [List.drop_eq_nil_of_le h]
  rfl

/-- **What was laid out are the attributes.** -/
theorem attrs_laidOut (hfits : ∀ a ∈ as, a.Fits) (h : LaidOut o as data) : attrs o data = as := by
  obtain ⟨stop, hall⟩ : ∃ stop, Attrs o data 0 as stop := by
    rcases h with rfl | ⟨init, last, rfl, rfl⟩
    · have hd : (encode o as).drop 0 = encode o as ++ [] := by rw [List.drop_zero, List.append_nil]
      have hnil : Attrs o (encode o as) (0 + (encode o as).length) [] _ := attrs_nil (by omega)
      have hall := attrs_encode hfits hd hnil
      rw [List.append_nil] at hall
      exact ⟨_, hall⟩
    · have hlast : last.Fits := hfits last (List.mem_append_right init (List.mem_singleton_self last))
      set all := encode o init ++ last.bare o with hdef
      have hd : all.drop 0 = encode o init ++ last.bare o := List.drop_zero
      have hfront : Attr.atFront o (all.drop (0 + (encode o init).length)) = some last := by
        rw [Nat.zero_add, hdef, List.drop_left, ← List.append_nil (last.bare o)]
        exact Attr.atFront_bare hlast []
      have hend : all.length ≤ 0 + (encode o init).length + align4 last.len := by
        have hle := le_align4 last.len
        rw [hdef, List.length_append, last.length_bare o]
        omega
      exact ⟨_, attrs_encode (fun a ha => hfits a (List.mem_append_left _ ha)) hd (.cons hfront (attrs_nil hend))⟩
  exact ((attrs_spec o data).unique hall).1

end LaidOut

/-- The text of UTF-8 bytes, without the NULs at the end. -/
theorem asBytes_trimmed (s : String) : asBytes (trimEndNul (Utf8.lossy (asBytes s))) = (asBytes s).rdropWhile (· = 0) := by
  have hbytes : ∀ t : String, asBytes t = Utf8.encode t.toList := fun t => Utf8.data_toByteArray t
  rw [Utf8.lossy, hbytes s, Utf8.decode_encode, trimEndNul, hbytes, String.toList_ofList, String.toList_ofList,
    Utf8.encode_rdropWhile]

/-- The text of a MAC address: two hexadecimal digits for a byte. -/
theorem toList_macText (p : List UInt8) : (macText p).toList =
    [':'].intercalate (p.map fun b => [Nat.digitChar (b.toNat / 16), Nat.digitChar (b.toNat % 16)]) := by
  have hbyte : ∀ b : UInt8, (Text.hex 2 b.toNat).toList = [Nat.digitChar (b.toNat / 16), Nat.digitChar (b.toNat % 16)] := by
    intro b
    have hlt : b.toNat / 16 < 16 := Nat.div_lt_of_lt_mul b.toNat_lt
    rw [Text.toList_hex (by decide) b.toNat_lt, Text.hexDigits, Text.hexDigits, Nat.mod_eq_of_lt hlt]
    rfl
  rw [macText, String.toList_intercalate, List.map_map]
  congr 1
  exact List.map_congr_left fun b _ => hbyte b

theorem octets_ofOctets {p : List UInt8} (h : p.length = 4) : (ofOctets p).map Ipv4Addr.octets = some p := by
  match p, h with
  | [a, b, c, d], _ => rfl

theorem octets_ipv4Of (target : ℕ) (as : List Attr) : (ipv4Of target as).map Ipv4Addr.octets =
    (as.find? fun a => a.ty = target ∧ 4 ≤ a.payload.length).map fun a => a.payload.take 4 := by
  unfold ipv4Of
  cases hf : as.find? fun a => a.ty = target ∧ 4 ≤ a.payload.length with
  | none => rfl
  | some a =>
    have hp := List.find?_some hf
    have hfour : (a.payload.take 4).length = 4 := by
      rw [List.length_take]
      exact Nat.min_eq_left (of_decide_eq_true hp).2
    exact octets_ofOctets hfour

/-- What is read of the bytes is what the attributes say. -/
structure Decoded (o : ByteOrder) (as : List Attr) (data : List UInt8) : Prop where
  /-- The name is the payload of the last IFLA_IFNAME without the NULs at its end, and the MAC address is the last
  IFLA_ADDRESS of six bytes. -/
  link : ∃ name mac spans, parseLinkNlas o data = done (some (name, mac)) spans ∧
    (∀ a, (as.filter (·.ty = 3)).getLast? = some a → ∀ s, a.payload = asBytes s →
      asBytes name = a.payload.rdropWhile (· = 0)) ∧
    ((as.filter (·.ty = 3)).getLast? = none → name = "") ∧
    (∀ a, (as.filter fun a => a.ty = 1 ∧ a.payload.length = 6).getLast? = some a → mac.toList =
      [':'].intercalate (a.payload.map fun b => [Nat.digitChar (b.toNat / 16), Nat.digitChar (b.toNat % 16)])) ∧
    ((as.filter fun a => a.ty = 1 ∧ a.payload.length = 6).getLast? = none → mac = "")
  /-- The IPv4 address is in the first attribute of the type with room for one. -/
  ipv4 : ∀ target, ∃ ip spans, findIpv4Nla o data target = done (some ip) spans ∧ ip.map Ipv4Addr.octets =
    (as.find? fun a => a.ty = target ∧ 4 ≤ a.payload.length).map fun a => a.payload.take 4

/-- **Decoding inverts encoding.** -/
theorem attributes_decoded (o : ByteOrder) (as : List Attr) (data : List UInt8) (hfits : ∀ a ∈ as, a.Fits)
    (hdata : LaidOut o as data) : Decoded o as data := by
  have hattrs := attrs_laidOut hfits hdata
  constructor
  · obtain ⟨spans, hparse, -⟩ := parseLinkNlas_stops o data
    rw [hattrs] at hparse
    refine ⟨_, _, spans, hparse, fun a ha s hs => ?_, fun hnone => ?_, fun a ha => ?_, fun hnone => ?_⟩
    · rw [nameOf, lastOr, ha, Option.map_some, Option.getD_some, hs]
      exact asBytes_trimmed s
    · rw [nameOf, lastOr, hnone]
      rfl
    · rw [macOf, lastOr, ha, Option.map_some, Option.getD_some]
      exact toList_macText a.payload
    · rw [macOf, lastOr, hnone]
      rfl
  · intro target
    obtain ⟨spans, hfind, -⟩ := findIpv4Nla_stops o data target
    rw [hattrs] at hfind
    exact ⟨_, spans, hfind, octets_ipv4Of target as⟩

/-- The attributes of a link that has been renamed. -/
def eth0Attrs : List Attr :=
  [⟨3, [0x76]⟩, ⟨1, [0x52, 0x54, 0, 0xab, 0xcd, 0xef]⟩, ⟨5, [10, 0, 0, 1]⟩, ⟨3, [0x65, 0x74, 0x68, 0x30, 0]⟩]

theorem attributes_decoded_eth0 : Decoded .little eth0Attrs (encode .little eth0Attrs) :=
  attributes_decoded .little eth0Attrs _ (by
    intro a ha
    simp only [eth0Attrs, List.mem_cons, List.not_mem_nil, or_false] at ha
    rcases ha with rfl | rfl | rfl | rfl <;> exact ⟨by decide, by decide⟩) (.inl rfl)

example : nameOf eth0Attrs = "eth0" ∧ macOf eth0Attrs = "52:54:00:ab:cd:ef" := by decide

end CloudHv.Netlink.Raw
