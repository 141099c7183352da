import CloudHv.Agent.Logs

/-!
# Polls — the pieces of output that a polling client gets

A client polls `GetContainerLogs` with the offset of the response before, from 0 on, and puts the
pieces of each stream together.  What it has then is the part of each stream before its offset, which
is all of a stream as long as no stream grows that is behind the offset: the offset is the length of
the longer stream, and what the shorter one gets later, up to that length, is in no response.

`Session` is what is written down of the client's calls along a run.  Its `cursor` is the offset that
comes with the last reading of the buffer; the client has it when the response is there.
-/

namespace CloudHv.Agent

open Conc

/-- The client's offset and the pieces it has; the call in flight; the length of the longer stream when
the buffer was last read for it; and whether nothing was appended since its last call came in. -/
structure Session where
  offset : ℕ
  out : List UInt8
  err : List UInt8
  busy : Option ℕ
  cursor : ℕ
  settled : Bool

def Session.start : Session := ⟨0, [], [], none, 0, true⟩

/-- A reader adds to the output of `p`. -/
def appendsTo (p : ℕ) : Event Action Answer TaskName → Bool
  | .act _ (.capture q _) (some _) => q = p
  | _ => false

/-- Write down the calls of a client: `mine` says which requests are its own, by their number among the
tasks. -/
def noteCall (p : ℕ) (mine : ℕ → Bool) (h : Session) (x : AgentConf) :
    Event Action Answer TaskName → Guest → Session
  | .arrive _, _ =>
    if mine x.threads.length then { h with busy := some x.threads.length, settled := true } else h
  | .act i (.readLogs _) l, _ =>
    if h.busy = some i then { h with cursor := max l.stdout.length l.stderr.length } else h
  | .act i (.respond (.logs out err off _)) _, _ =>
    if h.busy = some i then
      { h with offset := off, out := h.out ++ out, err := h.err ++ err, busy := none }
    else h
  | e, _ => { h with settled := h.settled && !appendsTo p e }

/-- The offset that a request for logs comes with. -/
def TaskName.pollsFrom : TaskName → Option ℕ
  | .getContainerLogs _ off => some off
  | _ => none

/-- The client makes one call after the other, each with the offset it was told last, and each for the
container whose child is `p`. -/
def follows (p : ℕ) (mine : ℕ → Bool) (h : Session) (x : AgentConf) : Event Action Answer TaskName → Bool
  | .arrive t => !mine x.threads.length || (h.busy = none && t.pollsFrom = some h.offset)
  | .act i (.getLogBuffer _) r => h.busy ≠ some i || r = some p
  | _ => true

/-- A stream grows only when it is not behind the cursor. -/
def keepsUp (p : ℕ) (h : Session) (x : AgentConf) : Event Action Answer TaskName → Bool
  | .act _ (.capture q s) (some bytes) => q ≠ p || bytes = [] || h.cursor ≤ (x.shared.content p).length s
  | _ => true

/-! ### The client's part of the output -/

/-- The client has what is before its offset. -/
def Waits (h : Session) (l : ContainerLogs) : Prop :=
  h.cursor = h.offset ∧ h.out = l.stdout.take h.offset ∧ h.err = l.stderr.take h.offset

/-- And it has everything, if nothing came after its last call. -/
def Idle (h : Session) (l : ContainerLogs) : Prop :=
  Waits h l ∧ (h.settled = true → h.out = l.stdout ∧ h.err = l.stderr)

/-- The call in flight has read `l₀`: what is before the new offset. -/
structure Carries (h : Session) (l₀ l : ContainerLogs) : Prop where
  cursor : h.cursor = max l₀.stdout.length l₀.stderr.length
  stdout : l₀.stdout = l.stdout.take h.cursor
  stderr : l₀.stderr = l.stderr.take h.cursor
  out : h.out = l₀.stdout.take h.offset
  err : h.err = l₀.stderr.take h.offset
  all : h.settled = true → l₀.stdout = l.stdout ∧ l₀.stderr = l.stderr

/-- The call in flight is for `p`, with the client's offset. -/
def Calls (p : ℕ) (h : Session) (s : LogStage) : Prop :=
  s.offset = h.offset ∧ s.missed = false ∧ ∀ q, s.buf = some q → q = p

def PollInv (p : ℕ) (h : Session) (g : Guest) (ss : List LogStage) : Prop :=
  g.BufsKnown ∧
  ((h.busy = none ∧ Idle h (g.content p)) ∨
    ∃ i s, h.busy = some i ∧ ss[i]? = some s ∧ Calls p h s ∧
      ((s.seen = none ∧ Waits h (g.content p)) ∨ ∃ l₀, s.seen = some (p, l₀) ∧ Carries h l₀ (g.content p)))

/-- The streams are the same up to the cursor, and the same altogether if nothing was appended. -/
structure Kept (h : Session) (settled : Bool) (l l' : ContainerLogs) : Prop where
  stdout : l'.stdout.take h.cursor = l.stdout.take h.cursor
  stderr : l'.stderr.take h.cursor = l.stderr.take h.cursor
  all : settled = true → l'.stdout = l.stdout ∧ l'.stderr = l.stderr

theorem take_append_of {l b : List UInt8} {k : ℕ} (h : b = [] ∨ k ≤ l.length) : (l ++ b).take k = l.take k := by
  rcases h with rfl | h
  · rw [List.append_nil]
  · exact List.take_append_of_le_length h

/-- A step that lets the streams keep up keeps what the client has. -/
theorem kept_of_step {p i : ℕ} {h : Session} {x : AgentConf} {g' : Guest} {a : Action} {c : Choice}
    {r : Answer a} (hk : x.shared.BufsKnown) (hp : perform x.shared a c = some (r, g'))
    (hok : keepsUp p h x (.act i a r) = true) :
    Kept h (!appendsTo p (.act i a r)) (x.shared.content p) (g'.content p) := by
  have hsame : ∀ {b : Bool}, (g'.content p).stdout = (x.shared.content p).stdout →
      (g'.content p).stderr = (x.shared.content p).stderr →
      Kept h b (x.shared.content p) (g'.content p) := by
    intro b ho he
    exact ⟨by rw [ho], by rw [he], fun _ => ⟨ho, he⟩⟩
  cases bufs_step hp with
  | none hb _ =>
    have hc : g'.content p = x.shared.content p := by rw [Guest.content, Guest.content, hb]
    exact hsame (by rw [hc]) (by rw [hc])
  | @made _ _ _ q hf _ hb _ =>
    -- a new buffer is empty, and there was none
    have hc : g'.content p = x.shared.content p := by
      rw [Guest.content, Guest.content, hb, Finmap.lookup_insert_eq]
      by_cases hpq : p = q
      · subst hpq
        have hn : x.shared.logBufs.lookup p = none := by
          cases hl : x.shared.logBufs.lookup p with
          | none => rfl
          | some l => exact absurd (hk p (Finmap.mem_of_lookup hl)) hf
        rw [if_pos rfl, hn]
        rfl
      · rw [if_neg hpq]
    exact hsame (by rw [hc]) (by rw [hc])
  | @append q st bytes =>
    by_cases hqp : q = p
    · subst hqp
      simp only [keepsUp, ne_eq, not_true_eq_false, decide_false, Bool.false_or, Bool.or_eq_true,
        decide_eq_true_eq] at hok
      have hset : (!appendsTo q (.act i (.capture q st) (some bytes))) = false := by simp [appendsTo]
      rw [hset]
      cases hl : x.shared.logBufs.lookup q with
      | none =>
        have hc : (x.shared.append q st bytes).content q = x.shared.content q := by
          rw [Guest.content, Guest.content, append_lookup, if_pos rfl, hl]
          rfl
        exact hsame (by rw [hc]) (by rw [hc])
      | some l =>
        have hcon : x.shared.content q = l := by rw [Guest.content, hl]; rfl
        have hc : (x.shared.append q st bytes).content q = l.append bytes st := by
          rw [Guest.content, append_lookup, if_pos rfl, hl]
          rfl
        rw [hcon] at hok ⊢
        rw [hc]
        cases st with
        | stdout => exact ⟨take_append_of hok, rfl, fun hf => by cases hf⟩
        | stderr => exact ⟨rfl, take_append_of hok, fun hf => by cases hf⟩
    · have hc : (x.shared.append q st bytes).content p = x.shared.content p := by
        rw [Guest.content, Guest.content, append_lookup, if_neg (Ne.symm hqp)]
      exact hsame (by rw [hc]) (by rw [hc])
  | @close q =>
    have hc : (x.shared.setEof q).logBufs.lookup p = x.shared.logBufs.lookup p ∨
        ∃ l, x.shared.logBufs.lookup p = some l ∧
          (x.shared.setEof q).logBufs.lookup p = some { l with eof := true } := by
      rw [setEof_lookup]
      split
      · next hpq =>
        subst hpq
        cases hl : x.shared.logBufs.lookup p with
        | none => exact .inl rfl
        | some l => exact .inr ⟨l, rfl, rfl⟩
      · exact .inl rfl
    rcases hc with hc | ⟨l, hl, hc⟩
    · exact hsame (by rw [Guest.content, Guest.content, hc]) (by rw [Guest.content, Guest.content, hc])
    · exact hsame (by rw [Guest.content, Guest.content, hc, hl]; rfl)
        (by rw [Guest.content, Guest.content, hc, hl]; rfl)

/-! ### Steps -/

def Session.heard (h : Session) (b : Bool) : Session := { h with settled := h.settled && b }

theorem heard_true (h : Session) : h.heard true = h := by rw [Session.heard, Bool.and_true]

theorem Waits.kept {h : Session} {b : Bool} {l l' : ContainerLogs} (hw : Waits h l) (hk : Kept h b l l') :
    Waits (h.heard b) l' := by
  obtain ⟨hc, ho, he⟩ := hw
  refine ⟨hc, ?_, ?_⟩
  · show h.out = l'.stdout.take h.offset
    rw [ho, ← hc, hk.stdout]
  · show h.err = l'.stderr.take h.offset
    rw [he, ← hc, hk.stderr]

theorem Idle.kept {h : Session} {b : Bool} {l l' : ContainerLogs} (hi : Idle h l) (hk : Kept h b l l') :
    Idle (h.heard b) l' := by
  refine ⟨hi.1.kept hk, fun hs => ?_⟩
  obtain ⟨hset, hb⟩ := Bool.and_eq_true_iff.mp hs
  obtain ⟨ho, he⟩ := hi.2 hset
  obtain ⟨ho', he'⟩ := hk.all hb
  exact ⟨ho.trans ho'.symm, he.trans he'.symm⟩

theorem Carries.kept {h : Session} {b : Bool} {l₀ l l' : ContainerLogs} (hc : Carries h l₀ l)
    (hk : Kept h b l l') : Carries (h.heard b) l₀ l' := by
  refine ⟨hc.cursor, hc.stdout.trans hk.stdout.symm, hc.stderr.trans hk.stderr.symm, hc.out, hc.err,
    fun hs => ?_⟩
  obtain ⟨hset, hb⟩ := Bool.and_eq_true_iff.mp hs
  obtain ⟨ho, he⟩ := hc.all hset
  obtain ⟨ho', he'⟩ := hk.all hb
  exact ⟨ho.trans ho'.symm, he.trans he'.symm⟩

/-- A step that is not one of the client's own keeps the invariant. -/
theorem PollInv.frame {p : ℕ} {h : Session} {g g' : Guest} {ss ss' : List LogStage} {b : Bool}
    (hI : PollInv p h g ss) (hk' : g'.BufsKnown) (hk : Kept h b (g.content p) (g'.content p))
    (hcall : ∀ i s, h.busy = some i → ss[i]? = some s → ∃ s', ss'[i]? = some s' ∧ s'.offset = s.offset ∧
      s'.missed = s.missed ∧ s'.buf = s.buf ∧ s'.seen = s.seen) : PollInv p (h.heard b) g' ss' := by
  refine ⟨hk', ?_⟩
  rcases hI.2 with ⟨hb, hidle⟩ | ⟨i, s, hb, hs, ⟨ho, hm, hbuf⟩, hphase⟩
  · exact .inl ⟨hb, hidle.kept hk⟩
  · obtain ⟨s', hs', ho', hm', hbuf', hseen'⟩ := hcall i s hb hs
    refine .inr ⟨i, s', hb, hs', ⟨ho'.trans ho, hm'.trans hm, fun q hq => hbuf q (hbuf' ▸ hq)⟩, ?_⟩
    rcases hphase with ⟨hseen, hw⟩ | ⟨l₀, hseen, hc⟩
    · exact .inl ⟨hseen'.trans hseen, hw.kept hk⟩
    · exact .inr ⟨l₀, hseen'.trans hseen, hc.kept hk⟩

/-- The call reads the buffer. -/
theorem Waits.read {h : Session} {l : ContainerLogs} (hw : Waits h l) :
    Carries { h with cursor := max l.stdout.length l.stderr.length } l l := by
  obtain ⟨-, ho, he⟩ := hw
  refine ⟨rfl, ?_, ?_, ho, he, fun _ => ⟨rfl, rfl⟩⟩
  · exact (List.take_of_length_le (Nat.le_max_left _ _)).symm
  · exact (List.take_of_length_le (Nat.le_max_right _ _)).symm

/-- The response has the rest of what the call has read. -/
theorem Carries.respond {h : Session} {l₀ l : ContainerLogs} (hc : Carries h l₀ l) :
    Idle ⟨max l₀.stdout.length l₀.stderr.length, h.out ++ l₀.stdout.drop h.offset,
      h.err ++ l₀.stderr.drop h.offset, none, h.cursor, h.settled⟩ l := by
  have hout : h.out ++ l₀.stdout.drop h.offset = l₀.stdout := by rw [hc.out, List.take_append_drop]
  have herr : h.err ++ l₀.stderr.drop h.offset = l₀.stderr := by rw [hc.err, List.take_append_drop]
  refine ⟨⟨hc.cursor, ?_, ?_⟩, fun hs => ?_⟩
  · rw [hout, ← hc.cursor]
    exact hc.stdout
  · rw [herr, ← hc.cursor]
    exact hc.stderr
  · rw [hout, herr]
    exact hc.all hs

theorem poll_step {p : ℕ} {mine : ℕ → Bool} {h : Session} {x : AgentConf} {g' : Guest} {j : ℕ} {s : LogStage}
    {a : Action} {c : Choice} {r : Answer a} (hI : PollInv p h x.shared (logStages x))
    (hj : (logStages x)[j]? = some s) (hreq : s.req a) (hp : perform x.shared a c = some (r, g'))
    (hfol : follows p mine h x (.act j a r) = true) (hok : keepsUp p h x (.act j a r) = true) :
    PollInv p (noteCall p mine h x (.act j a r) g') g'
      ((logStages x).set j (s.upd a r) ++ (spawned a r).map LogStage.init) := by
  have hk' := bufsKnown_step hI.1 hp
  have hk := kept_of_step hI.1 hp hok
  have hlt : j < (logStages x).length := (List.getElem?_eq_some_iff.mp hj).1
  -- another task moves, or the client's own does something it does not note
  have hother : ∀ i u, (i = j → s.upd a r = { s with reads := none }) → (logStages x)[i]? = some u →
      ∃ s', ((logStages x).set j (s.upd a r) ++ (spawned a r).map LogStage.init)[i]? = some s' ∧
        s'.offset = u.offset ∧ s'.missed = u.missed ∧ s'.buf = u.buf ∧ s'.seen = u.seen := by
    intro i u hupd hu
    have hi : i < (logStages x).length := (List.getElem?_eq_some_iff.mp hu).1
    rw [List.getElem?_append_left (by rw [List.length_set]; exact hi)]
    by_cases hij : i = j
    · subst hij
      obtain rfl := Option.some.inj (hj.symm.trans hu)
      exact ⟨_, List.getElem?_set_self hlt, by rw [hupd rfl], by rw [hupd rfl], by rw [hupd rfl], by rw [hupd rfl]⟩
    · exact ⟨u, by rw [List.getElem?_set_ne (Ne.symm hij), hu], rfl, rfl, rfl, rfl⟩
  have hself : ((logStages x).set j (s.upd a r) ++ (spawned a r).map LogStage.init)[j]? = some (s.upd a r) := by
    rw [List.getElem?_append_left (by rw [List.length_set]; exact hlt), List.getElem?_set_self hlt]
  cases a with
  | getLogBuffer id =>
    have hframe : h.busy ≠ some j → PollInv p h g'
        ((logStages x).set j (s.upd (.getLogBuffer id) r) ++ []) := fun hne => by
      rw [← heard_true h]
      exact hI.frame hk' hk fun i u hb hu => hother i u (fun hij => absurd (hij ▸ hb) hne) hu
    show PollInv p (h.heard true) g' _
    rw [heard_true]
    by_cases hb : h.busy = some j
    · -- the client's call gets its buffer
      simp only [follows, hb, ne_eq, not_true_eq_false, decide_false, Bool.false_or, decide_eq_true_eq] at hfol
      subst hfol
      refine ⟨hk', .inr ⟨j, _, hb, hself, ?_⟩⟩
      rcases hI.2 with ⟨hn, -⟩ | ⟨i, u, hbi, hu, ⟨ho, hm, -⟩, hphase⟩
      · rw [hb] at hn
        cases hn
      · obtain rfl := Option.some.inj (hb.symm.trans hbi)
        obtain rfl := Option.some.inj (hj.symm.trans hu)
        refine ⟨⟨ho, hm, fun q hq => (Option.some.inj hq).symm⟩, ?_⟩
        rcases hphase with ⟨hseen, hw⟩ | ⟨l₀, hseen, hc⟩
        · exact .inl ⟨hseen, heard_true h ▸ hw.kept hk⟩
        · exact .inr ⟨l₀, hseen, heard_true h ▸ hc.kept hk⟩
    · exact hframe hb
  | readLogs q =>
    obtain ⟨rfl, rfl⟩ := Prod.mk.inj (Option.some.inj hp)
    simp only [noteCall]
    split
    · next hb =>
      refine ⟨hk', .inr ⟨j, _, hb, hself, ?_⟩⟩
      rcases hI.2 with ⟨hn, -⟩ | ⟨i, u, hbi, hu, ⟨ho, hm, hbuf⟩, hphase⟩
      · rw [hb] at hn
        cases hn
      · obtain rfl := Option.some.inj (hb.symm.trans hbi)
        obtain rfl := Option.some.inj (hj.symm.trans hu)
        obtain rfl := hbuf q hreq.1
        refine ⟨⟨ho, hm, hbuf⟩, .inr ⟨_, rfl, ?_⟩⟩
        rcases hphase with ⟨-, hw⟩ | ⟨l₀, hseen, -⟩
        · exact hw.read
        · rw [hreq.2.1] at hseen
          cases hseen
    · next hb =>
      rw [← heard_true h]
      exact hI.frame hk' hk fun i u hbi hu => hother i u (fun hij => absurd (hij ▸ hbi) hb) hu
  | respond resp =>
    have hquiet : (∀ u, h.busy = some j → (logStages x)[j]? = some u →
        s.upd (.respond resp) r = { s with reads := none }) →
        PollInv p h g' ((logStages x).set j (s.upd (.respond resp) r) ++ []) := fun hu => by
      rw [← heard_true h]
      exact hI.frame hk' hk fun i v hbi hv => hother i v (fun hij => hu v (hij ▸ hbi) (hij ▸ hv)) hv
    cases resp with
    | logs out err off eof =>
      simp only [noteCall]
      split
      · next hb =>
        refine ⟨hk', .inl ⟨rfl, ?_⟩⟩
        rcases hI.2 with ⟨hn, -⟩ | ⟨i, u, hbi, hu, ⟨ho, hm, -⟩, hphase⟩
        · rw [hb] at hn
          cases hn
        · obtain rfl := Option.some.inj (hb.symm.trans hbi)
          obtain rfl := Option.some.inj (hj.symm.trans hu)
          obtain ⟨rfl, rfl⟩ := Prod.mk.inj (Option.some.inj hp)
          rcases hreq with ⟨q, l, hl, rfl, rfl, rfl, -⟩ | ⟨hmiss, -⟩
          · rcases hphase with ⟨hseen, -⟩ | ⟨l₀, hseen, hc⟩
            · rw [hseen] at hl
              cases hl
            · obtain ⟨-, rfl⟩ := Prod.mk.inj (Option.some.inj (hseen.symm.trans hl))
              rw [ho]
              exact hc.respond
          · rw [hm] at hmiss
            cases hmiss
      · next hb => exact hquiet fun u hbj => absurd hbj hb
    | _ =>
      show PollInv p (h.heard true) g' _
      rw [heard_true]
      exact hquiet fun _ _ _ => rfl
  | _ => exact hI.frame hk' hk fun i u _ hu => hother i u (fun _ => rfl) hu

theorem poll_arrive {p : ℕ} {mine : ℕ → Bool} {h : Session} {x : AgentConf} {t : TaskName}
    (hI : PollInv p h x.shared (logStages x)) (hfol : follows p mine h x (.arrive t) = true) :
    PollInv p (noteCall p mine h x (.arrive t) x.shared) x.shared (logStages x ++ [LogStage.init t]) := by
  have hlen : (logStages x).length = x.threads.length := List.length_map _
  simp only [noteCall]
  split
  · next hm =>
    simp only [follows, hm, Bool.not_true, Bool.false_or, Bool.and_eq_true, decide_eq_true_eq] at hfol
    obtain ⟨hb, hoff⟩ := hfol
    cases t with
    | getContainerLogs id off =>
      obtain rfl := Option.some.inj hoff
      rcases hI.2 with ⟨-, hidle⟩ | ⟨i, s, hbi, -⟩
      · refine ⟨hI.1, .inr ⟨x.threads.length, LogStage.init (.getContainerLogs id h.offset), rfl, ?_,
          ⟨rfl, rfl, fun q hq => (by cases hq)⟩, .inl ⟨rfl, hidle.1⟩⟩⟩
        rw [← hlen, List.getElem?_concat_length]
      · rw [hb] at hbi
        cases hbi
    | _ => cases hoff
  · rw [← heard_true h]
    refine hI.frame hI.1 ⟨rfl, rfl, fun _ => ⟨rfl, rfl⟩⟩ fun i s _ hs => ⟨s, ?_, rfl, rfl, rfl, rfl⟩
    rw [List.getElem?_append_left (List.getElem?_eq_some_iff.mp hs).1, hs]

theorem poll_inv {disks : List Disk} {p : ℕ} {mine : ℕ → Bool} {h : Session} {x : AgentConf}
    (hh : agent.Hist (noteCall p mine) (fun h x e => follows p mine h x e = true ∧ keepsUp p h x e = true)
      Session.start (booted disks) h x) : PollInv p h x.shared (logStages x) := by
  refine (System.Hist.invOn (fun _ => True) (PollInv p) (fun _ => True) (fun t _ => logTasks_body t)
    (fun _ _ _ _ => trivial) ?_ (fun t ht => by cases ht) ?_ ?_ hh).1
  · refine ⟨fun q hq => absurd hq Finmap.notMem_empty, .inl ⟨rfl, ⟨rfl, ?_, ?_⟩, fun _ => ?_⟩⟩
    · exact (List.take_zero).symm
    · exact (List.take_zero).symm
    · simp [Session.start, booted, Guest.boot, Guest.content]
  · exact fun n x t hI _ hok => ⟨trivial, poll_arrive hI hok.1⟩
  · exact fun n x i s a c r g' hI hi hreq hp hok => ⟨trivial, poll_step hI hi hreq hp hok.1 hok.2⟩

/-- **The pieces are prefixes.**  In every run in which a client polls from offset 0 on, each time with
the offset of the response before, and no stream grows while it is behind the other one as the client
last read them, the pieces of each stream are a prefix of it; and they are the whole streams after a
call that was made when everything had been appended. -/
theorem polled_pieces {disks : List Disk} {p : ℕ} {mine : ℕ → Bool} {h : Session} {x : AgentConf}
    (hh : agent.Hist (noteCall p mine) (fun h x e => follows p mine h x e = true ∧ keepsUp p h x e = true)
      Session.start (booted disks) h x) :
    h.out <+: (x.shared.content p).stdout ∧ h.err <+: (x.shared.content p).stderr ∧
      (h.busy = none → h.settled = true →
        h.out = (x.shared.content p).stdout ∧ h.err = (x.shared.content p).stderr) := by
  rcases (poll_inv hh).2 with ⟨-, ⟨-, ho, he⟩, hall⟩ | ⟨i, s, hb, -, -, hphase⟩
  · refine ⟨?_, ?_, fun _ => hall⟩
    · rw [ho]
      exact List.take_prefix _ _
    · rw [he]
      exact List.take_prefix _ _
  · have hpre : h.out <+: (x.shared.content p).stdout ∧ h.err <+: (x.shared.content p).stderr := by
      rcases hphase with ⟨-, -, ho, he⟩ | ⟨l₀, -, hc⟩
      · rw [ho, he]
        exact ⟨List.take_prefix _ _, List.take_prefix _ _⟩
      · have hso : l₀.stdout <+: (x.shared.content p).stdout := hc.stdout ▸ List.take_prefix _ _
        have hse : l₀.stderr <+: (x.shared.content p).stderr := hc.stderr ▸ List.take_prefix _ _
        rw [hc.out, hc.err]
        exact ⟨(List.take_prefix _ _).trans hso, (List.take_prefix _ _).trans hse⟩
    refine ⟨hpre.1, hpre.2, fun hn => ?_⟩
    rw [hb] at hn
    cases hn

/-- The container writes a byte to stdout and the client polls; it writes one to `second`, and the
client polls again. -/
def pollRun (second : ℕ) : List (Label Choice TaskName) :=
  [.arrive (.runContainer oneContainer), go 0 .changed, chunk 1 [104], .arrive (.getContainerLogs "web" 0),
    go 5 .changed, go 5 .changed, go 5 .changed, chunk second [105], .arrive (.getContainerLogs "web" 1),
    go 7 .changed, go 7 .changed, go 7 .changed]

/-- The requests of the client in `pollRun`. -/
def pollers (i : ℕ) : Bool := i = 5 || i = 7

/-- Both bytes on stdout. -/
theorem polled_pieces_stdout : ∃ h x, agent.Hist (noteCall 10 pollers)
    (fun h x e => follows 10 pollers h x e = true ∧ keepsUp 10 h x e = true) Session.start (booted twoDisks) h x ∧
    (x.shared.content 10).stdout = [104, 105] ∧ h.out = [104, 105] := by
  have hrun : (agent.execHist (noteCall 10 pollers) (fun h x e => follows 10 pollers h x e && keepsUp 10 h x e)
      Session.start (booted twoDisks) (pollRun 4)).any (fun q => decide (q.1.busy = none ∧ q.1.settled = true ∧
        (q.2.shared.content 10).stdout = [104, 105])) = true := by decide +kernel
  obtain ⟨h, x, hx, hP⟩ := System.exists_hist hrun
  obtain ⟨hb, hs, hc⟩ := of_decide_eq_true hP
  have hx' : agent.Hist (noteCall 10 pollers) (fun h x e => follows 10 pollers h x e = true ∧
      keepsUp 10 h x e = true) Session.start (booted twoDisks) h x :=
    hx.mono fun _ _ _ he => Bool.and_eq_true_iff.mp he
  exact ⟨h, x, hx', hc, ((polled_pieces hx').2.2 hb hs).1.trans hc⟩

/-- The second byte on stderr, which is behind: it is in neither response. -/
theorem polled_stderr_lost : ¬ ∀ (disks : List Disk) (p : ℕ) (mine : ℕ → Bool) (h : Session) (x : AgentConf),
    agent.Hist (noteCall p mine) (fun h x e => follows p mine h x e = true) Session.start (booted disks) h x →
    h.out <+: (x.shared.content p).stdout ∧ h.err <+: (x.shared.content p).stderr ∧
      (h.busy = none → h.settled = true →
        h.out = (x.shared.content p).stdout ∧ h.err = (x.shared.content p).stderr) := by
  intro hall
  have hrun : (agent.execHist (noteCall 10 pollers) (follows 10 pollers) Session.start (booted twoDisks)
      (pollRun 2)).any (fun q => decide (q.1.busy = none ∧ q.1.settled = true ∧ q.1.err = [] ∧
        (q.2.shared.content 10).stderr = [105])) = true := by decide +kernel
  obtain ⟨h, x, hx, hP⟩ := System.exists_hist hrun
  obtain ⟨hb, hs, he, hc⟩ := of_decide_eq_true hP
  have heq := ((hall twoDisks 10 pollers h x hx).2.2 hb hs).2
  rw [he, hc] at heq
  cases heq

end CloudHv.Agent
