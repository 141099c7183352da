import CloudHv.Daemon.Rules
import CloudHv.Daemon.Names

/-!
# Panics — byte slices of client strings

Two strings are cut by bytes: the id of a container at 12, for the id of its disk, and the id of a VM at 8, for the
name of its TAP.  A cut inside a character panics.  The ids of pool VMs are ASCII; the id of a warm VM has the client's
image key in it, and the container id is the client's.

The tables matter in one place: a VM from the ready list has an id that can be cut, because only `restore_one` makes
the VMs that are pushed there.
-/

namespace CloudHv.Daemon

open Conc

/-- The string has a character boundary at byte `n`, or ends before. -/
def Cuts (s : String) (n : ℕ) : Prop := (slicePrefix s n).isSome = true

instance (s : String) (n : ℕ) : Decidable (Cuts s n) := inferInstanceAs (Decidable (_ = true))

/-! ### Cutting ASCII -/

theorem cuts_iff {s : String} {n : ℕ} : Cuts s n ↔ (takeBytes s.toList n).isSome = true := by
  rw [Cuts, slicePrefix, Option.isSome_map]

theorem takeBytes_succ (c : Char) (l : List Char) (n : ℕ) : takeBytes (c :: l) (n + 1) =
    if c.utf8Size ≤ n + 1 then (takeBytes l (n + 1 - c.utf8Size)).map (c :: ·) else none := rfl

theorem takeBytes_cons {c : Char} {l : List Char} {n : ℕ} (h : c.utf8Size ≤ n) :
    (takeBytes (c :: l) n).isSome = (takeBytes l (n - c.utf8Size)).isSome := by
  cases n with
  | zero =>
    have hpos : 0 < c.utf8Size := c.utf8Size_pos
    omega
  | succ n => rw [takeBytes_succ, if_pos h, Option.isSome_map]

theorem takeBytes_ascii {l : List Char} {n : ℕ} (h : ∀ c ∈ l, c.utf8Size = 1) : (takeBytes l n).isSome = true := by
  induction l generalizing n with
  | nil => cases n <;> rfl
  | cons c l ih =>
    cases n with
    | zero => rfl
    | succ n =>
      rw [takeBytes_cons (by rw [h c List.mem_cons_self]; omega)]
      exact ih fun d hd => h d (List.mem_cons_of_mem c hd)

/-- What comes after the cut does not matter, if it is ASCII. -/
theorem takeBytes_append {l r : List Char} {n : ℕ} (h : (takeBytes l n).isSome = true)
    (hr : ∀ c ∈ r, c.utf8Size = 1) : (takeBytes (l ++ r) n).isSome = true := by
  induction l generalizing n with
  | nil => exact takeBytes_ascii hr
  | cons c l ih =>
    cases n with
    | zero => rfl
    | succ n =>
      by_cases hc : c.utf8Size ≤ n + 1
      · rw [takeBytes_cons hc] at h
        rw [List.cons_append, takeBytes_cons hc]
        exact ih h
      · rw [takeBytes_succ, if_neg hc] at h
        cases h

/-- What comes before the cut, if it is ASCII. -/
theorem takeBytes_ascii_append {l r : List Char} {n : ℕ} (hl : ∀ c ∈ l, c.utf8Size = 1)
    (h : (takeBytes r n).isSome = true) : (takeBytes (l ++ r) (l.length + n)).isSome = true := by
  induction l with
  | nil => simpa using h
  | cons c l ih =>
    have hc : c.utf8Size = 1 := hl c List.mem_cons_self
    rw [List.cons_append, takeBytes_cons (by rw [hc, List.length_cons]; omega), hc, List.length_cons,
      show l.length + 1 + n - 1 = l.length + n by omega]
    exact ih fun d hd => hl d (List.mem_cons_of_mem c hd)

theorem ascii_of_all {l : List Char} (h : l.all (fun c => c.utf8Size == 1) = true) : ∀ c ∈ l, c.utf8Size = 1 := by
  intro c hc
  exact beq_iff_eq.mp (List.all_eq_true.mp h c hc)

theorem utf8Size_digit {n : ℕ} {c : Char} (h : c ∈ (toString n).toList) : c.utf8Size = 1 := by
  have hmem : c ∈ Nat.toDigits 10 n := by simpa using h
  have hd : c.isDigit = true := Nat.isDigit_of_mem_toDigits (by decide) (by decide) hmem
  rw [Char.isDigit, Bool.and_eq_true, decide_eq_true_eq, decide_eq_true_eq] at hd
  refine Char.utf8Size_eq_one_iff.mpr (UInt32.le_trans hd.2 ?_)
  decide

theorem cuts_poolId (E : Env) (n k : ℕ) : Cuts (poolId E n) k := by
  refine cuts_iff.mpr (takeBytes_ascii fun c hc => ?_)
  have hlit : ∀ c ∈ "pool-".toList, c.utf8Size = 1 := ascii_of_all rfl
  have hdash : ∀ c ∈ "-".toList, c.utf8Size = 1 := ascii_of_all rfl
  simp only [poolId, String.toList_append, List.mem_append] at hc
  rcases hc with ((hc | hc) | hc) | hc
  · exact hlit c hc
  · exact utf8Size_digit hc
  · exact hdash c hc
  · exact utf8Size_digit hc

/-- The id of a warm VM is cut three bytes into the image key. -/
theorem cuts_warmId {key : String} (h : Cuts key 3) (seq : ℕ) : Cuts ("warm-" ++ key ++ "-" ++ toString seq) 8 := by
  have hlit : ∀ c ∈ "warm-".toList, c.utf8Size = 1 := ascii_of_all rfl
  have hend : ∀ c ∈ "-".toList ++ (toString seq).toList, c.utf8Size = 1 := by
    intro c hc
    rcases List.mem_append.mp hc with hc | hc
    · exact ascii_of_all (l := "-".toList) rfl c hc
    · exact utf8Size_digit hc
  have hlist : ("warm-" ++ key ++ "-" ++ toString seq).toList =
      "warm-".toList ++ (key.toList ++ ("-".toList ++ (toString seq).toList)) := by
    simp only [String.toList_append, List.append_assoc]
  rw [cuts_iff, hlist]
  exact takeBytes_ascii_append hlit (takeBytes_append (cuts_iff.mp h) hend)

/-! ### What a request asks to be cut -/

/-- The client strings of a request can be cut where the handler cuts them. -/
def Request.wellCut : Request → Prop
  | .acquireSandbox req =>
    (req.netns ≠ "" ∧ req.imageKey ≠ "" → Cuts req.imageKey 3) ∧
    (req.erofsPath ≠ "" ∧ req.containerId ≠ "" → Cuts req.containerId 12)
  | .addContainer req => req.vmId ≠ "" ∧ req.containerId ≠ "" → Cuts req.containerId 12
  | _ => True

instance : DecidablePred Request.wellCut
  | .acquireSandbox _ => inferInstanceAs (Decidable (_ ∧ _))
  | .addContainer req => inferInstanceAs (Decidable (req.vmId ≠ "" ∧ req.containerId ≠ "" → Cuts req.containerId 12))
  | .releaseSandbox _ | .killContainer _ _ _ | .waitContainer _ _ | .deleteContainer _ _ | .status
  | .unknown _ => inferInstanceAs (Decidable True)

/-- What a request does that does not panic. -/
def calmKinds : List Kind :=
  [.ready, .pop, .active, .lookup, .counter, .cache, .registry, .file, .remove, .pidFile, .spawn, .signal,
    .ch, .disk, .link, .agent, .configure, .container, .task, .reply]

theorem slice_calm {s : String} {n : ℕ} (h : Cuts s n) : Uses calmKinds (slice s n) := by
  obtain ⟨t, ht⟩ := Option.isSome_iff_exists.mp h
  unfold slice
  rw [ht]
  exact .pure _

theorem setupVmNetworking_calm {netns vmId : String} (h : Cuts vmId 8) (api : Path) :
    Uses calmKinds (setupVmNetworking netns vmId api) :=
  .bind (slice_calm h) fun _ => .bind (.context ((prepareTap_strict _ _).uses.mono (by simp [calmKinds]))) fun _ =>
  .bind (.context (.ask (Uses.onHost rfl))) fun _ =>
  .bind (.context ((activateTap_strict _ _).uses.mono (by simp [calmKinds]))) fun _ => .pure _

theorem runContainerInVm_calm (E : Env) {p : RunContainerParams} (hnet : p.netns ≠ "" → Cuts p.vmId 8)
    (hid : Cuts p.containerId 12) : Uses calmKinds (runContainerInVm E p) := by
  have hsetup : Uses calmKinds (setupNetwork p) := by
    unfold setupNetwork
    split
    · next h => exact .bind (.context (setupVmNetworking_calm (hnet h) _)) fun _ => .pure _
    · exact .pure _
  refine .bind hsetup fun r => ?_
  refine .bind (slice_calm hid) fun _ => .bind (.context (.ask (Uses.onHost rfl))) fun _ =>
    .bind ((agentFor_strict p).uses.mono (by simp [calmKinds])) fun _ => ?_
  obtain ⟨tap, net⟩ := r
  cases net with
  | some info =>
    exact .bind (.context ((configureGuestNetwork_strict _ _ _).uses.mono (by simp [calmKinds]))) fun _ =>
      .bind ((runContainerRpc_strict _ _ _).uses.mono (by simp [calmKinds])) fun _ => .pure _
  | none => exact .bind ((runContainerRpc_strict _ _ _).uses.mono (by simp [calmKinds])) fun _ => .pure _

theorem warmNetwork_calm {req : AcquireRequest} {id : String} (h : req.netns ≠ "" → Cuts id 8) (api vsock : Path) :
    Uses calmKinds (warmNetwork req id api vsock) := by
  unfold warmNetwork
  split
  · next hn =>
    refine .bind (.attempt (setupVmNetworking_calm (h hn) _)) fun r => ?_
    rcases r with e | ⟨tap, info⟩
    · exact .pure _
    · refine .bind (.attempt ((connectAgent_strict _).uses.mono (by simp [calmKinds]))) fun r => ?_
      cases r with
      | error e => exact .pure _
      | ok agent =>
        exact .bind (.tell rfl) fun _ =>
          .bind (.attempt ((configureGuestNetwork_strict _ _ _).uses.mono (by simp [calmKinds]))) fun _ => .pure _
  · exact .pure _

theorem acquireWarm_calm (E : Env) {req : AcquireRequest} (h : req.netns ≠ "" → Cuts req.imageKey 3) :
    Uses calmKinds (acquireWarm E req) := by
  refine .bind (.tell rfl) fun seq =>
    .bind (.attempt ((createDirAll_strict _).uses.mono (by simp [calmKinds]))) fun r => ?_
  cases r with
  | error e => exact .pure _
  | ok u =>
    refine .bind (.pool rfl) fun _ =>
      .bind (.attempt ((restoreFromSnapshot_strict _ _ _).uses.mono (by simp [calmKinds]))) fun r => ?_
    rcases r with e | ⟨pid, api, vsock⟩
    · exact .pure _
    · refine .bind (warmNetwork_calm (fun hn => cuts_warmId (h hn) seq) api vsock) fun r => ?_
      cases r with
      | error msg => exact .pure _
      | ok tap => exact .bind ((registerActive_uses _).mono (by simp [calmKinds])) fun _ => .pure _

theorem acquireContainer_calm (E : Env) {req : AcquireRequest} {vm : PoolVm} (hvm : Cuts vm.vmId 8)
    (h : req.erofsPath ≠ "" ∧ req.containerId ≠ "" → Cuts req.containerId 12) :
    Uses calmKinds (acquireContainer E req vm) := by
  unfold acquireContainer
  split
  · next hc => exact runContainerInVm_calm E (fun _ => hvm) (h hc)
  · exact .pure _

theorem handleAddContainer_calm (E : Env) {req : AddRequest}
    (h : req.vmId ≠ "" ∧ req.containerId ≠ "" → Cuts req.containerId 12) :
    Uses calmKinds (handleAddContainer E req) := by
  unfold handleAddContainer
  split
  · exact .pure _
  · next hne =>
    rw [not_or] at hne
    refine .bind (.pool rfl) fun r => ?_
    cases r with
    | none => exact .pure _
    | some vm =>
      refine .bind (.attempt (runContainerInVm_calm E (fun hn => absurd rfl hn) (h hne))) fun r => ?_
      rcases r with e | ⟨pid, tap⟩
      · exact .pure _
      · exact .pure _

/-! ### The discipline -/

/-- A careful task does not panic, and the VMs of the ready list have ids that can be cut. -/
def cutting : Discipline Action Answer Bool where
  upd := fun careful _ _ => careful
  req := fun careful a => match a with
    | .panicked => careful = false
    | .pool (.readyPush vm) => Cuts vm.vmId 8
    | _ => True
  may := fun _ a r => match a, r with
    | .pool .readyPop, r => ∀ vm, r = some vm → Cuts vm.vmId 8
    | _, _ => True

theorem cutting_req {b : Bool} {a : Action} (hpanic : a.kind = .panic → b = false) (hpush : a.kind ≠ .push) :
    cutting.req b a := by
  cases a with
  | pool c => cases c <;> trivial
  | panicked => exact hpanic rfl
  | _ => trivial

section Tasks

variable {E : Env}

theorem uses_cutting {α : Type} {ks : List Kind} {m : M α} {b : Bool} {Q : α → Bool → Prop} {F : Fail → Bool → Prop}
    (h : Uses ks m) (hk : ks.all (fun k => (!decide (k = .panic) || !b) && !decide (k = .push)) = true)
    (hQ : ∀ x, Q x b) (hF : ∀ e, F e b) : wpx cutting m Q F b := by
  refine Only.wp h (fun a ha => ?_) fun r => ?_
  · have hn := List.all_eq_true.mp hk _ ha
    simp only [Bool.and_eq_true, Bool.or_eq_true, Bool.not_eq_true', decide_eq_false_iff_not] at hn
    exact ⟨cutting_req (fun hp => hn.1.resolve_left fun hne => hne hp) hn.2, fun _ _ => rfl⟩
  · cases r with
    | ok x => exact hQ x
    | error e => exact hF e

theorem restoreOne_cutting {Q : PoolVm → Bool → Prop} {F : Fail → Bool → Prop}
    (hQ : ∀ vm, Cuts vm.vmId 8 → Q vm true) (hF : ∀ e, F e true) : wpx cutting (restoreOne E) Q F true := by
  unfold restoreOne
  rw [wpx_bind, wpx_pool]
  refine ⟨trivial, fun n _ => ?_⟩
  rw [wpx_bind, wpx_pool]
  refine ⟨trivial, fun cid _ => ?_⟩
  refine wpx_bind.mpr (uses_cutting (createDirAll_strict _).uses rfl (fun _ => ?_) hF)
  refine wpx_bind.mpr (uses_cutting (prepareSnapshot_strict _ _ _ _).uses rfl (fun prepared => ?_) hF)
  refine wpx_bind.mpr (uses_cutting (spawnCh_strict _).uses rfl (fun pid => ?_) hF)
  refine wpx_bind.mpr (uses_cutting (waitChReady_strict _).uses rfl (fun _ => ?_) hF)
  refine wpx_bind.mpr (uses_cutting (apiRequest_strict _ _).uses rfl (fun _ => ?_) hF)
  refine wpx_bind.mpr (uses_cutting (apiRequest_strict _ _).uses rfl (fun _ => ?_) hF)
  refine wpx_bind.mpr (uses_cutting (Uses.context (waitForAgent_strict _).uses) rfl (fun _ => ?_) hF)
  exact hQ _ (cuts_poolId E n 8)

theorem fillPool_cutting : ∀ k, wpx cutting (fillPool E k) (fun _ _ => True) (fun _ _ => True) true
  | 0 => trivial
  | k + 1 => by
    unfold fillPool
    rw [wpx_bind, wpx_attempt]
    refine restoreOne_cutting (fun vm hvm => ?_) (fun e => ?_)
    · rw [wpx_bind, wpx_pool]
      exact ⟨hvm, fun _ _ => fillPool_cutting k⟩
    · cases e with
      | err e => exact fillPool_cutting k
      | panic => trivial

theorem acquire_cutting {Q : PoolVm → Bool → Prop} {F : Fail → Bool → Prop}
    (hQ : ∀ vm, Cuts vm.vmId 8 → Q vm true) (hF : ∀ e, F e true) : wpx cutting (acquire E) Q F true := by
  unfold acquire
  rw [wpx_bind, wpx_pool]
  refine ⟨trivial, fun r hr => ?_⟩
  cases r with
  | some vm => exact wpx_bind.mpr (uses_cutting (registerActive_uses vm) rfl (fun _ => hQ vm (hr vm rfl)) hF)
  | none =>
    refine wpx_bind.mpr (restoreOne_cutting (fun vm hvm => ?_) hF)
    exact wpx_bind.mpr (uses_cutting (registerActive_uses vm) rfl (fun _ => hQ vm hvm) hF)

theorem acquirePool_cutting {req : AcquireRequest}
    (h : req.erofsPath ≠ "" ∧ req.containerId ≠ "" → Cuts req.containerId 12) :
    wpx cutting (acquirePool E req) (fun _ _ => True) (fun _ _ => True) true := by
  unfold acquirePool
  rw [wpx_bind, wpx_attempt]
  refine acquire_cutting (fun vm hvm => ?_) (fun e => ?_)
  · refine uses_cutting (?_ : Uses calmKinds _) rfl (fun _ => trivial) fun _ => trivial
    refine .bind (.tell rfl) fun _ => .bind ((shadowFor_uses req).mono (by simp [calmKinds])) fun _ =>
      .bind (.attempt (acquireContainer_calm E hvm h)) fun r => ?_
    rcases r with e | ⟨pid, tap⟩
    · exact .pure _
    · exact .pure _
  · cases e <;> trivial

theorem handleAcquire_cutting {req : AcquireRequest} (h : (Request.acquireSandbox req).wellCut) :
    wpx cutting (handleAcquire E req) (fun _ _ => True) (fun _ _ => True) true := by
  obtain ⟨hkey, hid⟩ := h
  have hpool : wpx cutting (acquirePool E req) (fun _ _ => True) (fun _ _ => True) true := acquirePool_cutting hid
  unfold handleAcquire hasWarmSnapshot
  by_cases hk : req.imageKey ≠ ""
  · rw [if_pos hk]
    refine wpx_bind.mpr (uses_cutting (.bind (.snap rfl) fun _ => .pure _ : Uses [.cache] _) rfl (fun b => ?_)
      fun _ => trivial)
    cases b with
    | false => exact hpool
    | true =>
      refine wpx_bind.mpr (uses_cutting (acquireWarm_calm E fun hn => hkey ⟨hn, hk⟩) rfl (fun r => ?_) fun _ => trivial)
      cases r with
      | some r => trivial
      | none => exact hpool
  · rw [if_neg hk]
    exact hpool

theorem serve_cutting {r : Request} (h : r.wellCut) :
    wpx cutting (serve E r) (fun _ _ => True) (fun _ _ => True) true := by
  have hreply : ∀ resp, wpx cutting (tell (.reply resp)) (fun _ _ => True) (fun _ _ => True) true := fun resp =>
    uses_cutting (Uses.tell rfl : Uses [.reply] _) rfl (fun _ => trivial) fun _ => trivial
  unfold serve
  rcases handle_poll E r with ⟨req, rfl⟩ | ⟨id, rfl⟩ | ⟨req, rfl⟩ | ⟨m, hm, he⟩
  · exact wpx_bind.mpr (wpx_mono (handleAcquire_cutting h) (fun resp _ _ => hreply resp) fun _ _ _ => trivial)
  · refine wpx_bind.mpr (wpx_bind.mpr (uses_cutting (handleRelease_uses E id) rfl (fun p => ?_) fun _ => trivial))
    exact hreply _
  · refine wpx_bind.mpr (wpx_bind.mpr (uses_cutting (handleAddContainer_calm E h) rfl (fun p => ?_) fun _ => trivial))
    exact hreply _
  · rw [he]
    refine wpx_bind.mpr (wpx_bind.mpr (uses_cutting hm rfl (fun p => ?_) fun _ => trivial))
    exact hreply _

theorem mainTask_cutting : wpx cutting (mainTask E) (fun _ _ => True) (fun _ _ => True) true := by
  have hpool : wpx cutting (initializePool E) (fun _ _ => True) (fun _ _ => True) true := by
    unfold initializePool
    rw [wpx_bind, wpx_host]
    refine ⟨trivial, fun b _ => ?_⟩
    cases b with
    | true => exact fillPool_cutting _
    | false =>
      exact wpx_bind.mpr (uses_cutting (createBaseSnapshot_uses E _) rfl (fun _ => fillPool_cutting _) fun _ => trivial)
  refine wpx_bind.mpr (wpx_mono hpool (fun _ _ _ => ?_) fun _ _ _ => trivial)
  refine wpx_ask.mpr (wp_call.mpr ⟨trivial, fun r _ => ?_⟩)
  cases r <;> trivial

theorem replenishTask_cutting : wpx cutting (replenishTask E) (fun _ _ => True) (fun _ _ => True) true := by
  unfold replenishTask replenishOne
  rw [wpx_bind, wpx_tell]
  refine ⟨trivial, fun _ _ => ?_⟩
  rw [wpx_bind, wpx_pool]
  refine ⟨trivial, fun n _ => ?_⟩
  split
  · trivial
  · rw [wpx_bind, wpx_attempt]
    refine restoreOne_cutting (fun vm hvm => ?_) (fun e => ?_)
    · exact wpx_pool.mpr ⟨hvm, fun _ _ => trivial⟩
    · cases e <;> trivial

def Task.wellCut : Task → Prop
  | .request r => r.wellCut
  | _ => True

instance : DecidablePred Task.wellCut
  | .request r => inferInstanceAs (Decidable r.wellCut)
  | .main | .replenish | .shadow _ _ | .touch _ _ => inferInstanceAs (Decidable True)

theorem body_cutting (t : Task) : wp cutting (t.body E) (fun _ _ => True) (decide t.wellCut) := by
  cases t with
  | main => exact wp_toTask mainTask_cutting
  | request r =>
    by_cases h : r.wellCut
    · rw [show decide (Task.wellCut (.request r)) = true from decide_eq_true h]
      exact wp_toTask (serve_cutting h)
    · -- what it does may panic, but a request pushes nothing
      rw [show decide (Task.wellCut (.request r)) = false from decide_eq_false h]
      exact wp_toTask (uses_cutting (serve_uses E r) rfl (fun _ => trivial) fun _ => trivial)
  | replenish => exact wp_toTask replenishTask_cutting
  | shadow key erofs =>
    exact wp_toTask (uses_cutting (shadowTask_uses E key erofs) rfl (fun _ => trivial) fun _ => trivial)
  | touch f t => exact ⟨trivial, fun _ _ => trivial⟩

end Tasks

/-! ### Runs -/

def ReadyCut (w : World) : Prop := ∀ vm ∈ w.pool.ready, Cuts vm.vmId 8

theorem cutting_may {b : Bool} {a : Action} {r : Answer a} (h : a ≠ .pool .readyPop) : cutting.may b a r := by
  cases a with
  | pool c =>
    cases c with
    | readyPop => exact absurd rfl h
    | _ => trivial
  | _ => trivial

theorem readyCut_step {E : Env} {w w' : World} {b : Bool} {a : Action} {c : Choice} {r : Answer a} (hI : ReadyCut w)
    (hreq : cutting.req b a) (hp : perform E w a c = some (r, w')) : cutting.may b a r ∧ ReadyCut w' := by
  by_cases hb : ∃ b, a = .pool b
  · obtain ⟨b, rfl⟩ := hb
    obtain ⟨rfl, rfl⟩ := perform_pool hp
    cases b with
    | readyPop =>
      refine ⟨fun vm hvm => hI vm (List.mem_of_getLast? hvm), fun vm hvm => hI vm ?_⟩
      exact List.mem_of_mem_dropLast hvm
    | readyPush vm =>
      refine ⟨trivial, fun u hu => ?_⟩
      rcases List.mem_append.mp hu with hu | hu
      · exact hI u hu
      · rw [List.mem_singleton.mp hu]
        exact hreq
    | _ => exact ⟨trivial, hI⟩
  · have hpool : w'.pool = w.pool := pool_frame hp fun b he => hb ⟨b, he⟩
    refine ⟨cutting_may fun he => hb ⟨_, he⟩, ?_⟩
    unfold ReadyCut
    rw [hpool]
    exact hI

/-- **The handler of a request whose strings can be cut does not panic**, whatever other requests arrive. -/
theorem handlers_calm (E : Env) (h : Host) (x : DaemonConf)
    (hx : (daemon E).Reach (fun _ _ => True) (boot E h) x) :
    ∀ t ∈ x.threads, t.task.wellCut → ∀ e ∈ t.log, e.1 ≠ .panicked := by
  have hinv : ∀ x, (daemon E).Reach (fun _ _ => True) (boot E h) x → ReadyCut x.shared ∧
      ∀ t ∈ x.threads, wp cutting t.prog (fun _ _ => True) (System.ghost cutting (fun t : Task => decide t.wellCut) t) := by
    intro x hx
    refine System.Reach.inv (fun w _ => ReadyCut w) (fun _ => True) body_cutting ?_ ?_ ?_ ?_ hx
    · exact fun vm hvm => absurd hvm List.not_mem_nil
    · intro t ht
      rw [List.mem_singleton.mp ht]
      exact body_cutting .main
    · exact fun x t hI _ _ => hI
    · exact fun x i g a c r w' hI _ hreq hp _ => readyCut_step hI hreq hp
  intro t ht hcut e he
  obtain ⟨before, after, hlog⟩ := List.append_of_mem he
  have hcare := System.Reach.log (D := cutting) (I := fun w _ => ReadyCut w)
    (fun careful a _ => careful = true → a ≠ .panicked) hinv ?_ ?_ hx t ht before e.1 e.2 after hlog
  · refine hcare ?_
    rw [List.foldl_fixed' (fun _ => rfl)]
    exact decide_eq_true hcut
  · intro t ht
    rw [List.mem_singleton.mp ht]
    rfl
  · rintro x i g a c r w' _ _ hreq _ _ hg rfl
    rw [hg] at hreq
    cases hreq

/-- A client acquires a VM and runs a container in it. -/
def acquireRunning (containerId : String) : Task :=
  .request (.acquireSandbox ⟨"", "", "/img.erofs", containerId, ""⟩)

def acquired (containerId : String) : List (Label Choice Task) :=
  steps 0 13 100 ++ [.arrive (acquireRunning containerId)] ++ steps 1 5 101

theorem handlers_calm_web : ∃ x, (daemon poolOfOne).Reach (fun _ _ => True) (boot poolOfOne (Host.withBase poolOfOne)) x ∧
    ∃ t ∈ x.threads, t.task = acquireRunning "web" ∧ t.task.wellCut ∧ ∀ e ∈ t.log, e.1 ≠ .panicked := by
  have hrun : ((daemon poolOfOne).exec (fun _ _ => true) (boot poolOfOne (Host.withBase poolOfOne))
      (acquired "web")).any (fun x => decide (∃ t ∈ x.threads, t.task = acquireRunning "web" ∧ t.task.wellCut)) = true := by
    decide +kernel
  obtain ⟨x, hx, hP⟩ := System.exists_reach hrun
  have hreach : (daemon poolOfOne).Reach (fun _ _ => True) (boot poolOfOne (Host.withBase poolOfOne)) x :=
    hx.mono fun _ _ _ => trivial
  obtain ⟨t, ht, htask, hcut⟩ := of_decide_eq_true hP
  exact ⟨x, hreach, t, ht, htask, hcut, handlers_calm poolOfOne _ x hreach t ht hcut⟩

/-- The twelfth byte of this container id is inside its last character. -/
theorem handler_panics : ¬ ∀ (E : Env) (h : Host) (x : DaemonConf), (daemon E).Reach (fun _ _ => True) (boot E h) x →
    ∀ t ∈ x.threads, ∀ e ∈ t.log, e.1 ≠ .panicked := by
  intro hall
  have hrun : ((daemon poolOfOne).exec (fun _ _ => true) (boot poolOfOne (Host.withBase poolOfOne))
      (acquired "application\u00e9")).any (fun x => decide (∃ t ∈ x.threads, ∃ e ∈ t.log, e.1 = .panicked)) = true := by
    decide +kernel
  obtain ⟨x, hx, hP⟩ := System.exists_reach hrun
  obtain ⟨t, ht, e, he, hpanic⟩ := of_decide_eq_true hP
  exact hall poolOfOne _ x (hx.mono fun _ _ _ => trivial) t ht e he hpanic

end CloudHv.Daemon
