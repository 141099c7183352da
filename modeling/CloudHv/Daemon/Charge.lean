import CloudHv.Daemon.Rules

/-!
# Charge — the process a task answers for

A process that `spawn_ch` started is answered for by the task that started it, until the task puts its
VM into `ready` or `active` or tells it to terminate; a task that takes a VM out of a table answers for
its process again.  Every task of the daemon keeps to this, as long as none of its steps fails while it
answers for a process: no failing path of the daemon tells the process to terminate.
-/

namespace CloudHv.Daemon

open Conc

/-! ### The process a task answers for -/

/-- A process, its state directory, and whether the `ch.pid` there names it. -/
structure Charge where
  pid : ℕ
  dir : Path
  filed : Bool
  deriving DecidableEq

def chargeOf (E : Env) (vm : PoolVm) : Charge := ⟨vm.chPid, E.cfg.vmDir vm.vmId, true⟩

/-- A failed step that is more than warned about. -/
def lapse : (a : Action) → Answer a → Bool
  | .host (.configureNetwork _ _ _ _), _ => false
  | a, r => failed a r

def Charge.upd (E : Env) (g : Option Charge) : (a : Action) → Answer a → Option Charge
  | .host (.spawnCh dir), r =>
    match r with
    | .ok pid => some ⟨pid, dir, false⟩
    | .error _ => g
  | .host (.writePid dir pid), r =>
    match r with
    | .ok _ => some ⟨pid, dir, true⟩
    | .error _ => g
  -- a file that names another process: the task's own is beyond its reach
  | .host (.readPid _), r => g.filter fun c => r = some c.pid
  | .host (.sigterm _), _ => none
  | .pool .readyPop, r => r.map (chargeOf E)
  | .pool (.activeRemove _), r => r.map (chargeOf E)
  | .pool (.readyPush _), _ => none
  | .pool (.activeInsert _), _ => none
  | _, _ => g

/-- A task answers for one process at a time, and for the one of the VM it puts into a table. -/
def Charge.req (E : Env) (g : Option Charge) : Action → Prop
  | .host (.spawnCh _) | .pool .readyPop | .pool (.activeRemove _) => g = none
  | .host (.writePid dir pid) => ∃ f, g = some ⟨pid, dir, f⟩
  | .host (.readPid dir) => g = none ∨ ∃ pid, g = some ⟨pid, dir, true⟩
  | .host (.sigterm pid) => g = none ∨ ∃ dir f, g = some ⟨pid, dir, f⟩
  | .pool (.readyPush vm) | .pool (.activeInsert vm) => g = some (chargeOf E vm)
  | _ => True

/-- A VM is in `active` under its own id. -/
def ownId : (a : Action) → Answer a → Prop
  | .pool (.activeRemove id), r => ∀ vm, r = some vm → vm.vmId = id
  | _, _ => True

def Charge.may (g : Option Charge) (a : Action) (r : Answer a) : Prop :=
  (g ≠ none → lapse a r = false) ∧ ownId a r

def minding (E : Env) : Discipline Action Answer (Option Charge) := ⟨Charge.upd E, Charge.req E, Charge.may⟩

/-- The process that thread `i` answers for. -/
def mindedBy (E : Env) (x : DaemonConf) (i : ℕ) : Option Charge :=
  (x.threads[i]?).bind (System.ghost (minding E) fun _ => none)

/-! ### The tasks -/

section Tasks

variable {E : Env}

/-- The kinds of action that change what a task answers for. -/
def mindingKinds : List Kind := [.pop, .push, .active, .spawn, .pidFile, .signal]

theorem minding_plain {g : Option Charge} {a : Action} (h : a.kind ∉ mindingKinds) :
    (minding E).req g a ∧ ∀ r, (minding E).may g a r → (minding E).upd g a r = g := by
  cases a with
  | pool b => cases b <;> first | exact ⟨trivial, fun _ _ => rfl⟩ | exact absurd (List.elem_iff.mp rfl) h
  | host b => cases b <;> first | exact ⟨trivial, fun _ _ => rfl⟩ | exact absurd (List.elem_iff.mp rfl) h
  | _ => exact ⟨trivial, fun _ _ => rfl⟩

theorem uses_minding {α : Type} {ks : List Kind} {m : M α} {g : Option Charge}
    {Q : α → Option Charge → Prop} {F : Fail → Option Charge → Prop} (h : Uses ks m)
    (hk : ks.all (fun k => !mindingKinds.elem k) = true) (hQ : ∀ x, Q x g) (hF : ∀ e, F e g) :
    wpx (minding E) m Q F g := by
  refine Only.wp h (fun a ha => minding_plain fun hm => ?_) fun r => ?_
  · have hn := List.all_eq_true.mp hk _ ha
    rw [List.elem_iff.mpr hm] at hn
    cases hn
  · cases r with
    | ok x => exact hQ x
    | error e => exact hF e

theorem lapse_eq {a : Action} (h : a.kind ≠ .configure) (r : Answer a) : lapse a r = failed a r := by
  cases a with
  | host b => cases b <;> first | rfl | exact absurd rfl h
  | _ => rfl

/-- Code that stops at its first failed step does not fail while its task answers for a process. -/
theorem strict_minding {α : Type} {ks : List Kind} {m : M α} {c : Charge}
    {Q : α → Option Charge → Prop} {F : Fail → Option Charge → Prop} (h : Strict ks m)
    (hk : ks.all (fun k => !mindingKinds.elem k && k ≠ .configure) = true) (hQ : ∀ x, Q x (some c)) :
    wpx (minding E) m Q F (some c) := by
  have hks : ∀ a : Action, a.kind ∈ ks → a.kind ∉ mindingKinds ∧ a.kind ≠ .configure := by
    intro a ha
    simpa using List.all_eq_true.mp hk _ ha
  refine FailFast.wpx h (fun a ha => ?_) hQ (fun a r e ha hm hb => ?_)
  · obtain ⟨hreq, hupd⟩ := minding_plain (E := E) (g := some c) (hks a ha).1
    exact ⟨hreq, fun r hm _ => hupd r hm⟩
  · have hl : lapse a r = false := hm.1 (by simp)
    rw [lapse_eq (hks a ha).2, hb] at hl
    cases hl

theorem spawnCh_minding {dir : Path} {Q : ℕ → Option Charge → Prop} {F : Fail → Option Charge → Prop}
    (hQ : ∀ pid, Q pid (some ⟨pid, dir, true⟩)) (hF : ∀ e, F e none) :
    wpx (minding E) (spawnCh dir) Q F none := by
  unfold spawnCh
  rw [wpx_bind, wpx_ask, wp_onHost]
  refine ⟨rfl, fun r _ => ?_⟩
  cases r with
  | error e => exact hF _
  | ok pid =>
    refine wpx_bind.mpr (wpx_ask.mpr (wp_onHost.mpr ⟨⟨false, rfl⟩, fun r hm => ?_⟩))
    cases r with
    | error e => cases hm.1 (by simp [minding, Charge.upd])
    | ok u => exact hQ pid

theorem restoreOne_minding {Q : PoolVm → Option Charge → Prop} {F : Fail → Option Charge → Prop}
    (hQ : ∀ vm, Q vm (some (chargeOf E vm))) (hF : ∀ e, F e none) :
    wpx (minding E) (restoreOne E) Q F none := by
  unfold restoreOne
  rw [wpx_bind, wpx_pool]
  refine ⟨trivial, fun n _ => ?_⟩
  rw [wpx_bind, wpx_pool]
  refine ⟨trivial, fun cid _ => ?_⟩
  refine wpx_bind.mpr (uses_minding (createDirAll_strict _).uses rfl (fun _ => ?_) hF)
  refine wpx_bind.mpr (uses_minding (prepareSnapshot_strict _ _ _ _).uses rfl (fun prepared => ?_) hF)
  refine wpx_bind.mpr (spawnCh_minding (fun pid => ?_) hF)
  refine wpx_bind.mpr (strict_minding (waitChReady_strict _) rfl fun _ => ?_)
  refine wpx_bind.mpr (strict_minding (apiRequest_strict _ _) rfl fun _ => ?_)
  refine wpx_bind.mpr (strict_minding (apiRequest_strict _ _) rfl fun _ => ?_)
  exact wpx_bind.mpr (strict_minding (Strict.context (waitForAgent_strict _)) rfl fun _ => hQ _)

theorem shutdownAndDestroy_minding {pid : ℕ} {dir : Path} {g : Option Charge}
    {Q : Unit → Option Charge → Prop} {F : Fail → Option Charge → Prop}
    (hg : g = none ∨ ∃ d f, g = some ⟨pid, d, f⟩) (hQ : Q () none) :
    wpx (minding E) (shutdownAndDestroy pid dir) Q F g := by
  unfold shutdownAndDestroy
  rw [wpx_bind, wpx_host]
  refine ⟨hg, fun _ _ => ?_⟩
  rw [wpx_bind, wpx_host]
  refine ⟨trivial, fun b _ => ?_⟩
  have hremove : wpx (minding E) (host (.removeDirAll dir)) Q F none :=
    wpx_host.mpr ⟨trivial, fun _ _ => hQ⟩
  cases b with
  | true => exact hremove
  | false =>
    show wpx (minding E) (host (.sigkill pid) >>= fun _ => _) Q F none
    rw [wpx_bind, wpx_host]
    refine ⟨trivial, fun _ _ => ?_⟩
    rw [wpx_bind, wpx_tell]
    exact ⟨trivial, fun _ _ => hremove⟩

theorem createBaseSnapshot_minding {base : Path} {Q : Unit → Option Charge → Prop}
    {F : Fail → Option Charge → Prop} (hQ : Q () none) (hF : ∀ e, F e none) :
    wpx (minding E) (createBaseSnapshot E base) Q F none := by
  unfold createBaseSnapshot
  refine wpx_bind.mpr (uses_minding (createDirAll_strict _).uses rfl (fun _ => ?_) hF)
  rw [wpx_bind, wpx_pool]
  refine ⟨trivial, fun cid _ => ?_⟩
  refine wpx_bind.mpr (uses_minding (createDirAll_strict _).uses rfl (fun _ => ?_) hF)
  rw [wpx_bind, wpx_context]
  unfold bootVm
  refine wpx_bind.mpr (spawnCh_minding (fun pid => ?_) fun e => hF _)
  refine wpx_bind.mpr (strict_minding (waitChReady_strict _) rfl fun _ => ?_)
  refine wpx_bind.mpr (strict_minding (Strict.askVia rfl fun _ => rfl : Strict [.file] _) rfl fun _ => ?_)
  refine wpx_bind.mpr (strict_minding (apiRequest_strict _ _) rfl fun _ => ?_)
  refine wpx_bind.mpr (strict_minding (apiRequest_strict _ _) rfl fun _ => ?_)
  rw [wpx_bind, wpx_ask, wp_onHost]
  refine ⟨⟨true, rfl⟩, fun r hm => ?_⟩
  cases r with
  | error e => cases hm.1 (by simp)
  | ok u =>
    refine wpx_bind.mpr (strict_minding (Strict.context (waitForAgent_strict _)) rfl fun _ => ?_)
    refine wpx_bind.mpr (strict_minding (apiRequest_strict _ _) rfl fun _ => ?_)
    refine wpx_bind.mpr (strict_minding (apiRequest_strict _ _) rfl fun _ => ?_)
    exact shutdownAndDestroy_minding (.inr ⟨_, _, rfl⟩) hQ

theorem fillPool_minding : ∀ k, wpx (minding E) (fillPool E k) (fun _ g => g = none)
    (fun _ g => g = none) none
  | 0 => rfl
  | k + 1 => by
    unfold fillPool
    rw [wpx_bind, wpx_attempt]
    refine restoreOne_minding (fun vm => ?_) (fun e => ?_)
    · rw [wpx_bind, wpx_pool]
      exact ⟨rfl, fun _ _ => fillPool_minding k⟩
    · cases e with
      | err e => exact fillPool_minding k
      | panic => rfl

theorem registerActive_minding {vm : PoolVm} {Q : Unit → Option Charge → Prop}
    {F : Fail → Option Charge → Prop} (hQ : Q () none) :
    wpx (minding E) (registerActive vm) Q F (some (chargeOf E vm)) := by
  unfold registerActive
  rw [wpx_bind, wpx_pool]
  exact ⟨trivial, fun _ _ => wpx_pool.mpr ⟨rfl, fun _ _ => hQ⟩⟩

theorem acquire_minding {Q : PoolVm → Option Charge → Prop} {F : Fail → Option Charge → Prop}
    (hQ : ∀ vm, Q vm none) (hF : ∀ e, F e none) : wpx (minding E) (acquire E) Q F none := by
  unfold acquire
  rw [wpx_bind, wpx_pool]
  refine ⟨rfl, fun r _ => ?_⟩
  cases r with
  | some vm => exact wpx_bind.mpr (registerActive_minding (hQ vm))
  | none =>
    refine wpx_bind.mpr (restoreOne_minding (fun vm => ?_) hF)
    exact wpx_bind.mpr (registerActive_minding (hQ vm))

theorem destroyVm_minding {id : String} {g : Option Charge} {Q : Unit → Option Charge → Prop}
    {F : Fail → Option Charge → Prop} (hg : g = none ∨ ∃ pid, g = some ⟨pid, E.cfg.vmDir id, true⟩)
    (hQ : Q () none) : wpx (minding E) (destroyVm E id) Q F g := by
  unfold destroyVm
  rw [wpx_bind, wpx_host]
  refine ⟨hg, fun r _ => ?_⟩
  cases r with
  | some pid =>
    refine shutdownAndDestroy_minding ?_ hQ
    rcases hg with rfl | ⟨pid', rfl⟩
    · exact .inl rfl
    · by_cases hp : pid = pid'
      · subst hp
        exact .inr ⟨E.cfg.vmDir id, true, by simp [minding, Charge.upd]⟩
      · exact .inl (by simp [minding, Charge.upd, hp])
  | none =>
    have hnone : (minding E).upd g (.host (.readPid (E.cfg.vmDir id))) none = none := by
      simp [minding, Charge.upd]
    refine wpx_host.mpr ⟨trivial, fun _ _ => ?_⟩
    show Q () ((minding E).upd g (.host (.readPid (E.cfg.vmDir id))) none)
    rw [hnone]
    exact hQ

theorem release_minding {id : String} {Q : Unit → Option Charge → Prop}
    {F : Fail → Option Charge → Prop} (hQ : Q () none) : wpx (minding E) (release E id) Q F none := by
  unfold release
  rw [wpx_bind, wpx_pool]
  refine ⟨rfl, fun r hm => ?_⟩
  cases r with
  | some vm =>
    have hid : vm.vmId = id := hm.2 vm rfl
    rw [wpx_bind, wpx_pool]
    refine ⟨trivial, fun _ _ => destroyVm_minding (.inr ⟨vm.chPid, ?_⟩) hQ⟩
    rw [← hid]
    rfl
  | none => exact destroyVm_minding (.inl rfl) hQ

theorem restoreFromSnapshot_minding {key : String} {cid : ℕ} {dir : Path}
    {Q : ℕ × Path × Path → Option Charge → Prop} {F : Fail → Option Charge → Prop}
    (hQ : ∀ pid api vsock, Q (pid, api, vsock) (some ⟨pid, dir, true⟩)) (hF : ∀ e, F e none) :
    wpx (minding E) (restoreFromSnapshot key cid dir) Q F none := by
  unfold restoreFromSnapshot
  rw [wpx_bind, wpx_snap]
  refine ⟨trivial, fun r _ => ?_⟩
  cases r with
  | none => exact hF _
  | some snapDir =>
    refine wpx_bind.mpr (uses_minding (prepareSnapshot_strict _ _ _ _).uses rfl (fun prepared => ?_) hF)
    refine wpx_bind.mpr (spawnCh_minding (fun pid => ?_) hF)
    refine wpx_bind.mpr (strict_minding (waitChReady_strict _) rfl fun _ => ?_)
    refine wpx_bind.mpr (strict_minding (apiRequest_strict _ _) rfl fun _ => ?_)
    exact wpx_bind.mpr (strict_minding (apiRequest_strict _ _) rfl fun _ => hQ _ _ _)

/-- In a run where no step fails, the warm path gets its network; a guest that cannot be configured
does not count as a failure here. -/
theorem warmNetwork_minding {req : AcquireRequest} {id : String} {api vsock : Path} {c : Charge}
    {Q : Except String String → Option Charge → Prop} {F : Fail → Option Charge → Prop}
    (hQ : ∀ tap, Q (.ok tap) (some c)) : wpx (minding E) (warmNetwork req id api vsock) Q F (some c) := by
  unfold warmNetwork
  split
  · rw [wpx_bind, wpx_attempt]
    refine strict_minding (setupVmNetworking_strict _ _ _) rfl fun r => ?_
    obtain ⟨tap, info⟩ := r
    show wpx (minding E) (attempt (connectAgent vsock) >>= _) Q F (some c)
    rw [wpx_bind, wpx_attempt]
    refine strict_minding (connectAgent_strict _) rfl fun agent => ?_
    show wpx (minding E) (tell (.agentsInsert id agent) >>= _) Q F (some c)
    rw [wpx_bind, wpx_tell]
    refine ⟨trivial, fun _ _ => ?_⟩
    rw [wpx_bind, wpx_attempt]
    unfold configureGuestNetwork
    refine wpx_ask.mpr (wp_onHost.mpr ⟨trivial, fun r _ => ?_⟩)
    cases r <;> exact hQ tap
  · exact hQ ""

theorem acquireWarm_minding {req : AcquireRequest} {Q : Option Response → Option Charge → Prop}
    {F : Fail → Option Charge → Prop} (hQ : ∀ r, Q r none) (hF : ∀ e, F e none) :
    wpx (minding E) (acquireWarm E req) Q F none := by
  unfold acquireWarm
  rw [wpx_bind, wpx_tell]
  refine ⟨trivial, fun seq _ => ?_⟩
  rw [wpx_bind, wpx_attempt]
  refine uses_minding (createDirAll_strict _).uses rfl (fun u => ?_) (fun e => ?_)
  · rw [wpx_bind, wpx_pool]
    refine ⟨trivial, fun cid _ => ?_⟩
    rw [wpx_bind, wpx_attempt]
    refine restoreFromSnapshot_minding (fun pid api vsock => ?_) (fun e => ?_)
    · exact wpx_bind.mpr (warmNetwork_minding fun tap => wpx_bind.mpr (registerActive_minding (hQ _)))
    · cases e with
      | err e => exact hQ none
      | panic => exact hF _
  · cases e with
    | err e => exact hQ _
    | panic => exact hF _

theorem acquirePool_minding {req : AcquireRequest} {Q : Response → Option Charge → Prop}
    {F : Fail → Option Charge → Prop} (hQ : ∀ r, Q r none) (hF : ∀ e, F e none) :
    wpx (minding E) (acquirePool E req) Q F none := by
  unfold acquirePool
  rw [wpx_bind, wpx_attempt]
  refine acquire_minding (fun vm => ?_) (fun e => ?_)
  · rw [wpx_bind, wpx_tell]
    refine ⟨trivial, fun _ _ => ?_⟩
    refine wpx_bind.mpr (uses_minding (shadowFor_uses req) rfl (fun _ => ?_) hF)
    rw [wpx_bind, wpx_attempt]
    refine uses_minding (acquireContainer_strict E req vm).uses rfl (fun r => ?_) (fun e => ?_)
    · exact hQ _
    · cases e with
      | err e => exact hQ _
      | panic => exact hF _
  · cases e with
    | err e => exact hQ _
    | panic => exact hF _

theorem serve_minding (r : Request) :
    wp (minding E) (serve E r).toTask (fun _ g => g = none) none := by
  refine wp_toTask ?_
  unfold serve
  rw [wpx_bind]
  have hreply : ∀ resp : Response, wpx (minding E) (tell (.reply resp)) (fun _ g => g = none)
      (fun _ g => g = none) none := fun resp => wpx_tell.mpr ⟨trivial, fun _ _ => rfl⟩
  rcases handle_call E r with ⟨req, rfl⟩ | ⟨id, rfl⟩ | ⟨m, hm, he⟩
  · refine (wpx_bind (m := hasWarmSnapshot req)).mpr ?_
    refine uses_minding (hasWarmSnapshot_uses req) rfl (fun b => ?_) (fun _ => rfl)
    split
    · refine wpx_bind.mpr (acquireWarm_minding (fun r => ?_) fun _ => rfl)
      cases r with
      | some r => exact hreply r
      | none => exact acquirePool_minding hreply fun _ => rfl
    · exact acquirePool_minding hreply fun _ => rfl
  · refine (wpx_bind (m := handleRelease E id)).mpr ?_
    unfold handleRelease
    split
    · exact hreply _
    · rw [wpx_bind, wpx_tell]
      refine ⟨trivial, fun _ _ => ?_⟩
      rw [wpx_bind, wpx_attempt]
      exact release_minding (hreply _)
  · rw [he, wpx_bind]
    exact uses_minding hm rfl (fun p => hreply _) (fun _ => rfl)

theorem shadow_minding (key erofs : String) :
    wp (minding E) (shadowTask E key erofs).toTask (fun _ g => g = none) none := by
  refine wp_toTask ?_
  unfold shadowTask
  refine wpx_bind.mpr (wpx_attempt_any ?_)
  have hend : wpx (minding E) (snap (.shadowsRemove key)) (fun _ g => g = none) (fun _ g => g = none)
      none := wpx_snap.mpr ⟨trivial, fun _ _ => rfl⟩
  have herr : ∀ (_ : Fail) (_ : Agent.Err), wpx (minding E) (snap (.shadowsRemove key)) (fun _ g => g = none)
      (fun _ g => g = none) none ∧ (none : Option Charge) = none := fun _ _ => ⟨hend, rfl⟩
  unfold runShadow
  refine wpx_bind.mpr (uses_minding (createDirAll_strict _).uses rfl (fun _ => ?_) herr)
  rw [wpx_bind, wpx_context]
  refine acquire_minding (fun vm => ?_) herr
  refine wpx_bind.mpr (uses_minding (Uses.context (.ask (Uses.onHost rfl)) : Uses [.disk] _) rfl
    (fun _ => ?_) herr)
  refine wpx_bind.mpr (uses_minding (connectAgent_strict _).uses rfl (fun agent => ?_) herr)
  refine wpx_bind.mpr (uses_minding (runContainerRpc_strict _ _ _).uses rfl (fun _ => ?_) herr)
  rw [wpx_bind, wpx_tell]
  refine ⟨trivial, fun _ _ => ?_⟩
  refine wpx_bind.mpr (uses_minding (createDirAll_strict _).uses rfl (fun _ => ?_) herr)
  refine wpx_bind.mpr (uses_minding (apiRequest_strict _ _).uses rfl (fun _ => ?_) herr)
  refine wpx_bind.mpr (uses_minding (apiRequest_strict _ _).uses rfl (fun _ => ?_) herr)
  refine wpx_bind.mpr (uses_minding (.ask (Uses.onHost rfl) : Uses [.file] _) rfl (fun _ => ?_) herr)
  rw [wpx_bind, wpx_host]
  refine ⟨trivial, fun mtime _ => ?_⟩
  rw [wpx_bind, wpx_snap]
  exact ⟨trivial, fun _ _ => release_minding hend⟩

theorem main_minding : wp (minding E) (mainTask E).toTask (fun _ g => g = none) none := by
  refine wp_toTask ?_
  have hbind : ∀ g : Option Charge, g = none → wpx (minding E) (ask (Prog.call (R := Answer) .bindSocket) id)
      (fun _ g => g = none) (fun _ g => g = none) g := fun g hg =>
    wpx_ask.mpr ⟨trivial, fun r _ => by cases r <;> exact hg⟩
  have hfill := fillPool_minding (E := E) E.cfg.poolSize
  unfold mainTask initializePool
  rw [wpx_bind, wpx_bind, wpx_host]
  refine ⟨trivial, fun b _ => ?_⟩
  cases b with
  | true => exact wpx_mono hfill (fun _ g hg => hbind g hg) (fun _ _ hg => hg)
  | false =>
    refine wpx_bind.mpr (createBaseSnapshot_minding ?_ fun _ => rfl)
    exact wpx_mono hfill (fun _ g hg => hbind g hg) (fun _ _ hg => hg)

theorem replenish_minding : wp (minding E) (replenishTask E).toTask (fun _ g => g = none) none := by
  refine wp_toTask ?_
  unfold replenishTask replenishOne
  rw [wpx_bind, wpx_tell]
  refine ⟨trivial, fun _ _ => ?_⟩
  rw [wpx_bind, wpx_pool]
  refine ⟨trivial, fun n _ => ?_⟩
  split
  · rfl
  · rw [wpx_bind, wpx_attempt]
    refine restoreOne_minding (fun vm => wpx_pool.mpr ⟨rfl, fun _ _ => rfl⟩) (fun e => ?_)
    cases e <;> rfl

theorem body_minding (t : Task) : wp (minding E) (t.body E) (fun _ g => g = none) none := by
  cases t with
  | main => exact main_minding
  | request r => exact serve_minding r
  | replenish => exact replenish_minding
  | shadow key erofs => exact shadow_minding key erofs
  | touch f t => exact ⟨trivial, fun _ _ => rfl⟩

end Tasks

end CloudHv.Daemon
