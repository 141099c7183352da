import CloudHv.Agent.Methods
import CloudHv.Daemon.Frame
import CloudHv.Daemon.Names
import Mathlib.Data.Fintype.EquivFin

/-!
# Warm — what the two paths of AcquireSandbox deliver

The pool path runs the requested container and registers the agent of its VM.  The warm path restores a
VM in which the shadow run's container is running, under the shadow's id, and does not run, rename or
adopt anything; it registers the agent only when it sets up a network.  So the two deliver the same for a
request that asks for the shadow's own id with a network, and for no other request with a snapshot.
-/

namespace CloudHv.Daemon

open Conc

/-- The guest has a running container under the id. -/
def Runs (g : Agent.Guest) (id : String) : Prop :=
  (g.mgr.containers.lookup id).map (·.state) = some .running

instance (g : Agent.Guest) (id : String) : Decidable (Runs g id) := by unfold Runs; infer_instance

/-- The agent of the returned VM is registered, and runs the container. -/
def Delivered (w : World) (a : Acquired) (ctr : String) : Prop :=
  ∃ conn g, w.agents.lookup a.vmId = some conn ∧ w.host.listeners a.vsockSocket = some conn ∧
    w.host.guestOf conn = some g ∧ Runs g ctr

/-- Whatever the environment decides, an error-free answer to the request comes with its container. -/
def Delivers (E : Env) (w : World) (req : AcquireRequest) : Prop :=
  ∀ cs a w' rest, eval (perform E) (handleAcquire E req).run cs w = some (.ok (.acquired a), w', rest) →
    Delivered w' a req.containerId

/-- The id of a warm VM. -/
def warmId (req : AcquireRequest) (seq : ℕ) : String := "warm-" ++ req.imageKey ++ "-" ++ toString seq

section Always

variable {E : Env} {w w' : World} {α : Type}

/-! ### The registry -/

theorem uses_always {ks : List Kind} {m : M α} {Q : α → World → Prop} {F : Fail → World → Prop}
    (h : Uses ks m) (hk : Kind.registry ∉ ks) (hQ : ∀ x w', w'.agents = w.agents → Q x w')
    (hF : ∀ e w', w'.agents = w.agents → F e w') : semx (always (perform E)) m Q F w := by
  refine Only.always (f := World.agents) h (fun a w c r w' ha hp => agents_frame hp ?_) fun r w' hw => ?_
  · exact fun he => hk (he ▸ ha)
  · cases r with
    | ok x => exact hQ x w' hw
    | error e => exact hF e w' hw

/-! ### The pool path -/

theorem restoreOne_always {Q : PoolVm → World → Prop} {F : Fail → World → Prop}
    (hQ : ∀ vm w', vm.vmId = poolId E w.pool.nextCid → w'.agents = w.agents → Q vm w')
    (hF : ∀ e w', F e w') : semx (always (perform E)) (restoreOne E) Q F w := by
  unfold restoreOne
  refine semx_bind.mpr (semx_tell.mpr fun c n w₁ hp => ?_)
  obtain ⟨rfl, rfl⟩ := perform_pool hp
  refine semx_bind.mpr (semx_tell.mpr fun c cid w₂ hp => ?_)
  obtain ⟨-, rfl⟩ := perform_pool hp
  refine semx_bind.mpr (uses_always (createDirAll_strict _).uses (by simp) (fun _ w₃ h₃ => ?_)
    fun e w _ => hF e w)
  refine semx_bind.mpr (uses_always (prepareSnapshot_strict _ _ _ _).uses (by simp) (fun prepared w₄ h₄ => ?_)
    fun e w _ => hF e w)
  refine semx_bind.mpr (uses_always (spawnCh_strict _).uses (by simp) (fun pid w₅ h₅ => ?_)
    fun e w _ => hF e w)
  refine semx_bind.mpr (uses_always (waitChReady_strict _).uses (by simp) (fun _ w₆ h₆ => ?_)
    fun e w _ => hF e w)
  refine semx_bind.mpr (uses_always (apiRequest_strict _ _).uses (by simp) (fun _ w₇ h₇ => ?_)
    fun e w _ => hF e w)
  refine semx_bind.mpr (uses_always (apiRequest_strict _ _).uses (by simp) (fun _ w₈ h₈ => ?_)
    fun e w _ => hF e w)
  refine semx_bind.mpr (uses_always (Strict.context (waitForAgent_strict _)).uses (by simp)
    (fun _ w₉ h₉ => hQ _ w₉ rfl ?_) fun e w _ => hF e w)
  rw [h₉, h₈, h₇, h₆, h₅, h₄, h₃]
  rfl

/-- The ids that `acquire` can hand out have no registered agent. -/
def Unregistered (E : Env) (w : World) : Prop :=
  (∀ vm ∈ w.pool.ready, vm.vmId ∉ w.agents) ∧ poolId E w.pool.nextCid ∉ w.agents

theorem acquire_always {Q : PoolVm → World → Prop} {F : Fail → World → Prop} (hU : Unregistered E w)
    (hQ : ∀ vm w', vm.vmId ∉ w'.agents → Q vm w') (hF : ∀ e w', F e w') :
    semx (always (perform E)) (acquire E) Q F w := by
  unfold acquire
  refine semx_bind.mpr (semx_tell.mpr fun c r w₁ hp => ?_)
  obtain ⟨rfl, rfl⟩ := perform_pool hp
  have hreg : ∀ (vm : PoolVm) (w₁ : World), vm.vmId ∉ w₁.agents →
      semx (always (perform E)) (registerActive vm >>= fun _ => pure vm) Q F w₁ := fun vm w₁ hvm =>
    semx_bind.mpr (uses_always (registerActive_uses vm) (by simp) (fun _ w₂ h₂ => hQ vm w₂ (h₂ ▸ hvm))
      fun e w _ => hF e w)
  show semx (always (perform E)) (match w.pool.ready.getLast? with
    | some vm => _
    | none => _) Q F _
  cases hl : w.pool.ready.getLast? with
  | some vm => exact hreg vm _ (hU.1 vm (List.mem_of_getLast? hl))
  | none =>
    refine semx_bind.mpr (restoreOne_always (fun vm w' hid hw => hreg vm w' ?_) hF)
    rw [hid, hw]
    exact hU.2

theorem agentFor_always {p : RunContainerParams} {Q : ℕ → World → Prop} {F : Fail → World → Prop}
    (hid : p.vmId ∉ w.agents)
    (hQ : ∀ conn w', w'.agents.lookup p.vmId = some conn → w'.host.listeners p.vsockSocket = some conn →
      Q conn w') (hF : ∀ e w', F e w') : semx (always (perform E)) (agentFor p) Q F w := by
  unfold agentFor
  refine semx_bind.mpr (semx_tell.mpr fun c r w₁ hp => ?_)
  obtain ⟨rfl, rfl⟩ := Prod.mk.inj (Option.some.inj hp)
  rw [Finmap.lookup_eq_none.mpr hid]
  refine semx_bind.mpr (semx_context.mpr (semx_ask.mpr fun c r w₁ hp => ?_))
  obtain ⟨h', hp', rfl⟩ := perform_host hp
  cases r with
  | error e => exact hF _ _
  | ok conn =>
    simp only [Host.perform] at hp'
    split at hp'
    · cases hp'
    · next hs =>
      obtain ⟨hr, rfl⟩ := Prod.mk.inj (Option.some.inj hp')
      obtain rfl := Except.ok.inj hr
      refine semx_bind.mpr (semx_tell.mpr fun c u w₂ hp => ?_)
      obtain ⟨-, rfl⟩ := Prod.mk.inj (Option.some.inj hp)
      exact hQ _ _ (Finmap.lookup_insert _) hs
    · cases hp'

theorem guestOf_setGuest {h : Host} {pid : ℕ} {g u : Agent.Guest} (hg : h.guestOf pid = some u) :
    (h.setGuest pid g).guestOf pid = some g := by
  obtain ⟨v, hv, -⟩ := Option.bind_eq_some_iff.mp hg
  unfold Host.setGuest Host.guestOf
  rw [hv, Finmap.lookup_insert]
  rfl

/-- A container that was started is running. -/
theorem runs_of_run {io : Agent.Io} {req : Agent.CreateRequest} {g g' : Agent.Guest} {pid : ℕ}
    (h : Method.exec (Agent.run io req) g = (.ok pid, g')) : Runs g' req.containerId := by
  rcases Agent.run_cases h with ⟨e, -, he⟩ | ⟨p, g₁, -, hs⟩
  · cases he
  · rcases Agent.start_spec hs with ⟨e, he, -⟩ | ⟨-, hmem, rfl⟩
    · cases he
    · obtain ⟨k, hk⟩ := Finmap.mem_iff.mp hmem
      have hk' : (g₁.spawnChild req.containerId io.pid).mgr.containers.lookup req.containerId = some k := hk
      unfold Runs Agent.Guest.recordStart
      rw [hk']
      simp

theorem runContainerRpc_always {conn : ℕ} {req : Agent.CreateRequest} {ctx : String} {Q : ℕ → World → Prop}
    {F : Fail → World → Prop}
    (hQ : ∀ pid w' g, w'.agents = w.agents → w'.host.listeners = w.host.listeners →
      w'.host.guestOf conn = some g → Runs g req.containerId → Q pid w') (hF : ∀ e w', F e w') :
    semx (always (perform E)) (runContainerRpc conn req ctx) Q F w := by
  unfold runContainerRpc
  refine semx_ask.mpr (sem_bind.mpr fun c r w₁ hp => ?_)
  obtain ⟨h', hp', rfl⟩ := perform_host hp
  have hl : h'.listeners = w.host.listeners := perform_frame Host.listeners hp' (by simp [HostAct.kind])
    (fun _ h pid u => by unfold Host.setGuest; split <;> rfl) (fun _ _ _ => rfl)
    (fun he => by cases he) (fun he => by cases he)
  obtain ⟨res, mounted⟩ := r
  cases res with
  | error e => exact hF _ _
  | ok pid =>
    have hrun : w.host.performRun c conn req = some (⟨.ok pid, mounted⟩, h') := hp'
    unfold Host.performRun at hrun
    split at hrun
    · cases hrun
    · split at hrun
      · cases hrun
      · next u hu =>
        split at hrun
        · cases hrun
        · next q u' he =>
          obtain ⟨hres, rfl⟩ := Prod.mk.inj (Option.some.inj hrun)
          have hq : q = .ok pid := by
            have hres' := congrArg RunAnswer.result hres
            revert hres'
            cases c.lost <;> cases q <;> simp
          unfold Agent.Guest.execSpawn at he
          split at he
          · cases he
          · rw [hq] at he
            exact hQ pid _ u' rfl hl (guestOf_setGuest hu) (runs_of_run (Option.some.inj he))

theorem configureGuestNetwork_always {conn : ℕ} {ip gw : String} {Q : Unit → World → Prop}
    {F : Fail → World → Prop}
    (h : ∀ w', w'.agents = w.agents → w'.host.listeners = w.host.listeners →
      w'.host.guestOf conn = w.host.guestOf conn → Q () w' ∧ ∀ e, F e w') :
    semx (always (perform E)) (configureGuestNetwork conn ip gw) Q F w := by
  refine semx_ask.mpr fun c r w₁ hp => ?_
  obtain ⟨h', hp', rfl⟩ := perform_host hp
  have hl : h'.listeners = w.host.listeners := rpc_frame (f := Host.listeners)
    (fun h pid u => by unfold Host.setGuest; split <;> rfl) hp'
  have hg : h'.guestOf conn = w.host.guestOf conn := by
    have hrpc : w.host.rpc c conn (fun g => some (.ok (), g)) = some (r, h') := hp'
    unfold Host.rpc at hrpc
    split at hrpc
    · rw [(Prod.mk.inj (Option.some.inj hrpc)).2]
    · cases hrpc
    · next g' hbind =>
      obtain ⟨g, hguest, hgg⟩ := Option.bind_eq_some_iff.mp hbind
      obtain rfl := (Prod.mk.inj (Option.some.inj hgg)).2
      rw [hguest]
      split at hrpc <;> (rw [← (Prod.mk.inj (Option.some.inj hrpc)).2]; exact guestOf_setGuest hguest)
  obtain ⟨hQ, hF⟩ := h { w with host := h' } rfl hl hg
  cases r with
  | ok u => exact hQ
  | error e => exact hF _

/-- A container run in a VM whose agent is not registered yet. -/
theorem runContainerInVm_always {p : RunContainerParams} {Q : ℕ × String → World → Prop}
    {F : Fail → World → Prop} (hid : p.vmId ∉ w.agents)
    (hQ : ∀ r w' conn g, w'.agents.lookup p.vmId = some conn → w'.host.listeners p.vsockSocket = some conn →
      w'.host.guestOf conn = some g → Runs g p.containerId → Q r w') (hF : ∀ e w', F e w') :
    semx (always (perform E)) (runContainerInVm E p) Q F w := by
  unfold runContainerInVm
  refine semx_bind.mpr (uses_always (setupNetwork_strict p).uses (by simp) (fun net w₁ h₁ => ?_)
    fun e w _ => hF e w)
  obtain ⟨tap, net⟩ := net
  refine semx_bind.mpr (uses_always (slice_strict _ _).uses (by simp) (fun short w₂ h₂ => ?_)
    fun e w _ => hF e w)
  refine semx_bind.mpr (uses_always (Strict.context (.askVia rfl fun _ => rfl) : Strict [.disk] _).uses
    (by simp) (fun _ w₃ h₃ => ?_) fun e w _ => hF e w)
  have hid₃ : p.vmId ∉ w₃.agents := by rwa [h₃, h₂, h₁]
  refine semx_bind.mpr (agentFor_always hid₃ (fun conn w₄ hreg hlisten => ?_) hF)
  have hrun : ∀ w₅ : World, w₅.agents = w₄.agents → w₅.host.listeners = w₄.host.listeners →
      semx (always (perform E)) (runContainerRpc conn
        { containerId := p.containerId, volumes := [], configJson := ociConfig E p.configJsonB64,
          rootfsPreattached := false, erofsLayers := 1 } "RunContainer" >>= fun pid => pure (pid, tap)) Q F w₅ := by
    intro w₅ ha hl
    refine semx_bind.mpr (runContainerRpc_always (fun pid w' g ha' hl' hg hruns => ?_) hF)
    exact hQ _ w' conn g (by rw [ha', ha, hreg]) (by rw [hl', hl, hlisten]) hg hruns
  cases net with
  | none => exact hrun w₄ rfl rfl
  | some info =>
    refine semx_bind.mpr (semx_context.mpr (configureGuestNetwork_always fun w₅ ha hl _ => ⟨hrun w₅ ha hl, ?_⟩))
    exact fun e => hF _ _

/-- The pool path delivers. -/
theorem acquirePool_always {req : AcquireRequest} {F : Fail → World → Prop}
    (hreq : req.erofsPath ≠ "" ∧ req.containerId ≠ "") (hU : Unregistered E w) (hF : ∀ e w', F e w') :
    semx (always (perform E)) (acquirePool E req)
      (fun r w' => ∀ a, r = .acquired a → Delivered w' a req.containerId) F w := by
  unfold acquirePool
  refine semx_bind.mpr (semx_attempt.mpr (acquire_always hU (fun vm w₁ hvm => ?_) fun e w' => ?_))
  · refine semx_bind.mpr (semx_tell.mpr fun c u w₂ hp => ?_)
    obtain ⟨-, rfl⟩ := Prod.mk.inj (Option.some.inj hp)
    refine semx_bind.mpr (uses_always (shadowFor_uses req) (by simp) (fun _ w₃ h₃ => ?_)
      fun e w _ => hF e w)
    have hvm₃ : vm.vmId ∉ w₃.agents := by rwa [h₃]
    refine semx_bind.mpr (semx_attempt.mpr ?_)
    unfold acquireContainer
    rw [if_pos hreq]
    refine runContainerInVm_always hvm₃ (fun r w' conn g hreg hl hg hruns => ?_) fun e w' => ?_
    · intro a ha
      obtain rfl := Response.acquired.inj ha
      exact ⟨conn, g, hreg, hl, hg, hruns⟩
    · cases e with
      | err e => exact fun a ha => (by cases ha)
      | panic => exact hF _ _
  · cases e with
    | err e => exact fun a ha => (by cases ha)
    | panic => exact hF _ _

/-! ### The warm path -/

/-- A restored VM: its process listens on the vsock socket and has the guest of the snapshot. -/
def Restored (h : Host) (vsock : Path) (pid : ℕ) (g : Agent.Guest) : Prop :=
  h.listeners vsock = some pid ∧ h.guestOf pid = some g

theorem restore_answer {h h' : Host} {c : Choice} {sock : Path} {src : Prepared} {pid : ℕ} {v : Vmm}
    {g : Agent.Guest} (hs : h.listeners sock = some pid) (hv : h.procs.lookup pid = some v)
    (hg : h.snaps src.dir = some g) (hp : h.perform (.api sock (.restore src)) c = some (.ok (), h')) :
    Restored h' src.vsockSocket pid g := by
  obtain ⟨q, hq, hd⟩ := Option.bind_eq_some_iff.mp (request_ok hp)
  rw [hs] at hq
  obtain rfl := Option.some.inj hq
  obtain ⟨h₂, he, hx⟩ := Option.map_eq_some_iff.mp hd
  obtain ⟨-, rfl⟩ := Prod.mk.inj hx
  simp only [Host.apiEffect, hg, Option.map_some, Option.some.injEq] at he
  subst he
  refine ⟨Function.update_self _ _ _, ?_⟩
  simp [Host.guestOf, Host.setGuest, hv]

theorem resume_answer {h h' : Host} {c : Choice} {sock : Path}
    (hp : h.perform (.api sock .resume) c = some (.ok (), h')) : h' = h := by
  obtain ⟨q, -, hd⟩ := Option.bind_eq_some_iff.mp (request_ok hp)
  obtain ⟨h₂, he, hx⟩ := Option.map_eq_some_iff.mp hd
  obtain ⟨-, rfl⟩ := Prod.mk.inj hx
  exact (Option.some.inj he).symm

theorem prepareSnapshot_always {base dir vsock : Path} {cid : ℕ} {g : Agent.Guest}
    {Q : Prepared → World → Prop} {F : Fail → World → Prop} (hg : w.host.snaps base = some g)
    (hQ : ∀ h' : Host, h'.snaps (dir ++ ["snapshot"]) = some g →
      Q ⟨dir ++ ["snapshot"], cid, vsock⟩ { w with host := h' }) (hF : ∀ e h', F e { w with host := h' }) :
    semx (always (perform E)) (prepareSnapshot base dir cid vsock) Q F w := by
  refine semx_ask.mpr fun c r w₁ hp => ?_
  obtain ⟨h₁, hp₁, rfl⟩ := perform_host hp
  cases r with
  | error e => exact hF _ _
  | ok src =>
    simp only [Host.perform] at hp₁
    split at hp₁
    · cases hp₁
    · next hbase hwork =>
      rw [hg] at hbase
      obtain rfl := Option.some.inj hbase
      obtain ⟨hr, rfl⟩ := Prod.mk.inj (Option.some.inj hp₁)
      obtain rfl := Except.ok.inj hr
      exact hQ _ (Function.update_self _ _ _)
    · cases hp₁

theorem spawnCh_always {dir : Path} {Q : ℕ → World → Prop} {F : Fail → World → Prop}
    (hQ : ∀ (h' : Host) pid v, h'.listeners (dir ++ ["api.sock"]) = some pid → h'.procs.lookup pid = some v →
      h'.snaps = w.host.snaps → Q pid { w with host := h' }) (hF : ∀ e h', F e { w with host := h' }) :
    semx (always (perform E)) (spawnCh dir) Q F w := by
  unfold spawnCh
  refine semx_bind.mpr (semx_ask.mpr fun c r w₁ hp => ?_)
  obtain ⟨h₁, hp₁, rfl⟩ := perform_host hp
  cases r with
  | error e => exact hF _ _
  | ok pid =>
    simp only [Host.perform] at hp₁
    split at hp₁
    · cases hp₁
    · split at hp₁
      · cases hp₁
      · obtain ⟨hr, rfl⟩ := Prod.mk.inj (Option.some.inj hp₁)
        obtain rfl := Except.ok.inj hr
        refine semx_bind.mpr (semx_ask.mpr fun d r w₂ hp => ?_)
        obtain ⟨h₂, hp₂, rfl⟩ := perform_host hp
        cases r with
        | error e => exact hF _ _
        | ok u =>
          simp only [Host.perform] at hp₂
          split at hp₂
          · cases hp₂
          · obtain ⟨-, rfl⟩ := Prod.mk.inj (Option.some.inj hp₂)
            exact hQ _ _ _ (Function.update_self _ _ _) (Finmap.lookup_insert _) rfl

theorem waitChReady_always {sock : Path} {Q : Unit → World → Prop} {F : Fail → World → Prop} (hQ : Q () w)
    (hF : ∀ e, F e w) : semx (always (perform E)) (waitChReady sock) Q F w := by
  refine semx_bind.mpr (semx_tell.mpr fun c b w₁ hp => ?_)
  obtain ⟨h₁, hp₁, rfl⟩ := perform_host hp
  obtain ⟨-, rfl⟩ := Prod.mk.inj (Option.some.inj hp₁)
  cases b with
  | true => exact hQ
  | false => exact hF _

theorem restoreFromSnapshot_always {key : String} {cid : ℕ} {dir : Path} {entry : SnapshotEntry}
    {g : Agent.Guest} {Q : ℕ × Path × Path → World → Prop} {F : Fail → World → Prop}
    (hentry : w.snapshots.entries.lookup key = some entry) (hg : w.host.snaps entry.dir = some g)
    (hQ : ∀ pid w', w'.agents = w.agents → Restored w'.host (dir ++ ["vsock.sock"]) pid g →
      Q (pid, dir ++ ["api.sock"], dir ++ ["vsock.sock"]) w')
    (hF : ∀ e w', w'.agents = w.agents → w'.pool = w.pool → F e w') :
    semx (always (perform E)) (restoreFromSnapshot key cid dir) Q F w := by
  unfold restoreFromSnapshot
  refine semx_bind.mpr (semx_tell.mpr fun c r w₁ hp => ?_)
  obtain ⟨sn, dirs, hp', rfl⟩ := perform_snap hp
  simp only [Snapshots.perform, hentry, Option.some.injEq, Prod.mk.injEq] at hp'
  obtain ⟨rfl, rfl, rfl⟩ := hp'
  refine semx_bind.mpr (prepareSnapshot_always hg (fun h₁ hsnap => ?_) fun e h' => hF e _ rfl rfl)
  refine semx_bind.mpr (spawnCh_always (fun h₂ pid v hl hv hsn => ?_) fun e h' => hF e _ rfl rfl)
  refine semx_bind.mpr (waitChReady_always ?_ fun e => hF e _ rfl rfl)
  refine semx_bind.mpr (semx_ask.mpr fun c r w₃ hp => ?_)
  obtain ⟨h₃, hp₃, rfl⟩ := perform_host hp
  cases r with
  | error e => exact hF _ _ rfl rfl
  | ok u =>
    have hres := restore_answer hl hv (hsn ▸ hsnap) hp₃
    refine semx_bind.mpr (semx_ask.mpr fun c r w₄ hp => ?_)
    obtain ⟨h₄, hp₄, rfl⟩ := perform_host hp
    cases r with
    | error e => exact hF _ _ rfl rfl
    | ok u =>
      obtain rfl := resume_answer hp₄
      exact hQ _ _ rfl hres

/-- Code that works on links and pool tables only leaves the registry, the sockets and the guests. -/
theorem outside_always {ks : List Kind} {m : M α} {Q : α → World → Prop} {F : Fail → World → Prop}
    (h : Uses ks m) (hk : ks ⊆ [.panic, .link, .counter, .active])
    (hQ : ∀ x w', w'.agents = w.agents → w'.host.listeners = w.host.listeners →
      w'.host.procs = w.host.procs → Q x w') (hF : ∀ e w', F e w') :
    semx (always (perform E)) m Q F w := by
  have hframe : ∀ (a : Action) w c (r : Answer a) w', a.kind ∈ ks → perform E w a c = some (r, w') →
      (w'.agents, w'.host.listeners, w'.host.procs) = (w.agents, w.host.listeners, w.host.procs) := by
    intro a w c r w' ha hp
    have hka := hk ha
    cases a with
    | pool b =>
      obtain ⟨-, rfl⟩ := perform_pool hp
      cases b <;> rfl
    | host b =>
      obtain ⟨h', hp', rfl⟩ := perform_host hp
      have hb : b.kind = .link := by
        cases b <;> simp [Action.kind, HostAct.kind] at hka ⊢
      have hf := perform_frame (fun h => (h.listeners, h.procs)) hp' (by rw [hb]; simp)
        (fun he => absurd hb he) (fun _ _ _ => rfl) (fun he => by rw [hb] at he; cases he)
        (fun _ _ _ _ _ => rfl)
      obtain ⟨h₁, h₂⟩ := Prod.mk.inj hf
      show (w.agents, h'.listeners, h'.procs) = _
      rw [h₁, h₂]
    | panicked => obtain ⟨-, rfl⟩ := Prod.mk.inj (Option.some.inj hp); rfl
    | warmFetchAdd => obtain ⟨-, rfl⟩ := Prod.mk.inj (Option.some.inj hp); rfl
    | _ => simp [Action.kind] at hka
  refine Only.always (f := fun w => (w.agents, w.host.listeners, w.host.procs)) h
    (fun a w c r w' ha hp => hframe a w c r w' ha hp) fun r w' hw => ?_
  obtain ⟨ha, hlp⟩ := Prod.mk.inj hw
  obtain ⟨hl, hp⟩ := Prod.mk.inj hlp
  cases r with
  | ok x => exact hQ x w' ha hl hp
  | error e => exact hF e w'

/-- The network of a warm VM: the agent behind its socket is registered. -/
theorem warmNetwork_always {req : AcquireRequest} {vmId : String} {api vsock : Path} {pid : ℕ}
    {g : Agent.Guest} {Q : Except String String → World → Prop} {F : Fail → World → Prop}
    (hnet : req.netns ≠ "") (hres : Restored w.host vsock pid g)
    (hok : ∀ tap w', slicePrefix vmId 8 ≠ none → w'.agents.lookup vmId = some pid →
      Restored w'.host vsock pid g → Q (.ok tap) w')
    (herr : ∀ msg w', Q (.error msg) w') (hF : ∀ e w', F e w') :
    semx (always (perform E)) (warmNetwork req vmId api vsock) Q F w := by
  unfold warmNetwork
  rw [if_pos hnet]
  refine semx_bind.mpr (semx_attempt.mpr ?_)
  cases hslice : slicePrefix vmId 8 with
  | none =>
    unfold setupVmNetworking slice
    rw [hslice]
    refine semx_bind.mpr (semx_bind.mpr (semx_tell.mpr fun c u w₁ hp => ?_))
    exact hF _ _
  | some short =>
    refine outside_always (setupVmNetworking_strict _ _ _).uses (by simp) (fun r w₁ ha hl hpr => ?_) fun e w' => ?_
    · obtain ⟨tap, info⟩ := r
      refine semx_bind.mpr (semx_attempt.mpr (semx_ask.mpr fun c r w₂ hp => ?_))
      obtain ⟨h₂, hp₂, rfl⟩ := perform_host hp
      cases r with
      | error e => exact herr _ _
      | ok conn =>
        simp only [Host.perform, hl, hres.1] at hp₂
        split at hp₂
        · cases hp₂
        · next hs =>
          obtain rfl := Option.some.inj hs
          obtain ⟨hr, rfl⟩ := Prod.mk.inj (Option.some.inj hp₂)
          obtain rfl := Except.ok.inj hr
          refine semx_bind.mpr (semx_tell.mpr fun c u w₃ hp => ?_)
          obtain ⟨-, rfl⟩ := Prod.mk.inj (Option.some.inj hp)
          have hguest : w₁.host.guestOf pid = some g := by
            rw [Host.guestOf, hpr]
            exact hres.2
          have hdone : ∀ w₄ : World, w₄.agents = w₁.agents.insert vmId pid →
              w₄.host.listeners = w₁.host.listeners → w₄.host.guestOf pid = w₁.host.guestOf pid →
              Q (.ok tap) w₄ := fun w₄ h₁ h₂ h₃ =>
            hok tap w₄ (by simp [hslice]) (by rw [h₁, Finmap.lookup_insert])
              ⟨by rw [h₂, hl, hres.1], by rw [h₃, hguest]⟩
          refine semx_bind.mpr (semx_attempt.mpr (configureGuestNetwork_always fun w₄ h₁ h₂ h₃ => ?_))
          refine ⟨hdone w₄ h₁ h₂ h₃, fun e => ?_⟩
          cases e with
          | err e => exact hdone w₄ h₁ h₂ h₃
          | panic => exact hF _ _
        · cases hp₂
    · cases e with
      | err e => exact herr _ _
      | panic => exact hF _ _

theorem acquireWarm_always {req : AcquireRequest} {entry : SnapshotEntry} {g : Agent.Guest}
    {F : Fail → World → Prop} (hnet : req.netns ≠ "")
    (hentry : w.snapshots.entries.lookup req.imageKey = some entry) (hg : w.host.snaps entry.dir = some g)
    (hruns : slicePrefix (warmId req w.warmCounter) 8 ≠ none → Runs g req.containerId) (hF : ∀ e w', F e w') :
    semx (always (perform E)) (acquireWarm E req) (fun r w' =>
      (∀ a, r = some (.acquired a) → Delivered w' a req.containerId) ∧
      (r = none → w'.agents = w.agents ∧ w'.pool = (w.pool.perform .cidFetchAdd).2)) F w := by
  unfold acquireWarm
  refine semx_bind.mpr (semx_tell.mpr fun c seq w₁ hp => ?_)
  obtain ⟨rfl, rfl⟩ := Prod.mk.inj (Option.some.inj hp)
  refine semx_bind.mpr (semx_attempt.mpr (semx_ask.mpr fun c r w₂ hp => ?_))
  obtain ⟨h₂, hp₂, rfl⟩ := perform_host hp
  obtain rfl := orFail_frame hp₂
  cases r with
  | error e => exact ⟨fun a ha => (by cases ha), fun ha => (by cases ha)⟩
  | ok u =>
    refine semx_bind.mpr (semx_tell.mpr fun c cid w₃ hp => ?_)
    obtain ⟨-, rfl⟩ := perform_pool hp
    refine semx_bind.mpr (semx_attempt.mpr (restoreFromSnapshot_always hentry hg (fun pid w₄ ha hres => ?_)
      fun e w' ha hp => ?_))
    · refine semx_bind.mpr (warmNetwork_always hnet hres (fun tap w₅ hslice hreg hres₅ => ?_)
        (fun msg w' => ?_) hF)
      · refine semx_bind.mpr (outside_always (registerActive_uses _) (by simp) (fun _ w₆ ha₆ hl₆ hp₆ => ?_) hF)
        refine ⟨fun a haa => ?_, fun hn => (by cases hn)⟩
        obtain rfl := Response.acquired.inj (Option.some.inj haa)
        refine ⟨pid, g, by rw [ha₆, hreg], by rw [hl₆, hres₅.1], ?_, hruns hslice⟩
        rw [Host.guestOf, hp₆]
        exact hres₅.2
      · exact ⟨fun a ha => (by cases ha), fun ha => (by cases ha)⟩
    · cases e with
      | err e => exact ⟨fun a ha => (by cases ha), fun _ => ⟨ha, hp⟩⟩
      | panic => exact hF _ _

end Always

/-! ### Both paths -/

/-- Every cached snapshot is as the shadow run left it: its guest runs the shadow's container, and no
other. -/
def ShadowCache (w : World) : Prop :=
  ∀ key entry, w.snapshots.entries.lookup key = some entry →
    ∃ g, w.host.snaps entry.dir = some g ∧ ∀ id, Runs g id ↔ id = shadowContainerId key

/-- The VM ids that the request can be given have no registered agent, and the state directory of the next
warm VM is not in use. -/
structure NewIds (E : Env) (w : World) (req : AcquireRequest) : Prop where
  ready : ∀ vm ∈ w.pool.ready, vm.vmId ∉ w.agents
  pool : poolId E w.pool.nextCid ∉ w.agents
  poolNext : poolId E (increment w.pool.nextCid) ∉ w.agents
  warm : warmId req w.warmCounter ∉ w.agents
  warmDir : w.host.snaps (E.cfg.vmDir (warmId req w.warmCounter) ++ ["snapshot"]) = none

/-- The request does not reach the warm path, or gets there what it asked for (or a panic, where the id of
the warm VM cannot be cut for the name of its TAP). -/
def WarmFits (w : World) (req : AcquireRequest) : Prop :=
  req.imageKey = "" ∨ w.snapshots.entries.lookup req.imageKey = none ∨
    (req.netns ≠ "" ∧ (req.containerId = shadowContainerId req.imageKey ∨
      slicePrefix (warmId req w.warmCounter) 8 = none))

section Both

variable {E : Env} {w : World} {req : AcquireRequest}

theorem handleAcquire_always (hreq : req.erofsPath ≠ "" ∧ req.containerId ≠ "") (hcache : ShadowCache w)
    (hids : NewIds E w req) (hfit : WarmFits w req) :
    semx (always (perform E)) (handleAcquire E req)
      (fun r w' => ∀ a, r = .acquired a → Delivered w' a req.containerId) (fun _ _ => True) w := by
  have hU : Unregistered E w := ⟨hids.ready, hids.pool⟩
  unfold handleAcquire hasWarmSnapshot
  by_cases hkey : req.imageKey = ""
  · rw [if_neg (by simpa using hkey)]
    exact acquirePool_always hreq hU fun _ _ => trivial
  · rw [if_pos hkey]
    refine semx_bind.mpr (semx_bind.mpr ?_)
    refine semx_tell.mpr fun c b w₁ hp => ?_
    obtain ⟨s, dirs, hp', rfl⟩ := perform_snap hp
    simp only [Snapshots.perform] at hp'
    cases hentry : w.snapshots.entries.lookup req.imageKey with
    | none =>
      simp only [hentry, Option.some.injEq, Prod.mk.injEq] at hp'
      obtain ⟨rfl, rfl, rfl⟩ := hp'
      exact acquirePool_always hreq hU fun _ _ => trivial
    | some entry =>
      simp only [hentry] at hp'
      split at hp'
      · simp only [Option.some.injEq, Prod.mk.injEq] at hp'
        obtain ⟨rfl, rfl, rfl⟩ := hp'
        exact acquirePool_always hreq hU fun _ _ => trivial
      · simp only [Option.some.injEq, Prod.mk.injEq] at hp'
        obtain ⟨rfl, rfl, rfl⟩ := hp'
        obtain ⟨hnet, hfit⟩ : req.netns ≠ "" ∧ (req.containerId = shadowContainerId req.imageKey ∨
            slicePrefix (warmId req w.warmCounter) 8 = none) := by
          rcases hfit with h | h | h
          · exact absurd h hkey
          · rw [hentry] at h
            cases h
          · exact h
        obtain ⟨g, hg, hruns⟩ := hcache _ entry hentry
        refine semx_bind.mpr (always_mono (acquireWarm_always (F := fun _ _ => True) hnet hentry hg
          (fun hs => (hruns _).mpr (hfit.resolve_right hs)) fun _ _ => trivial) fun r w' hr => ?_)
        cases r with
        | error e => trivial
        | ok r =>
          cases r with
          | some resp => exact fun a ha => hr.1 a (by rw [ha])
          | none =>
            obtain ⟨hag, hpool⟩ := hr.2 rfl
            refine acquirePool_always hreq ⟨?_, ?_⟩ fun _ _ => trivial
            · rw [hag, hpool]
              exact hids.ready
            · rw [hag, hpool]
              exact hids.poolNext

/-! ### A run of the warm path -/

theorem prepareSnapshot_possible {base dir vsock : Path} {cid : ℕ} {g : Agent.Guest}
    {Q : Prepared → World → Prop} {F : Fail → World → Prop} (hg : w.host.snaps base = some g)
    (hfree : w.host.snaps (dir ++ ["snapshot"]) = none)
    (hQ : ∀ h' : Host, h'.snaps (dir ++ ["snapshot"]) = some g → h'.procs = w.host.procs →
      Q ⟨dir ++ ["snapshot"], cid, vsock⟩ { w with host := h' }) :
    semx (possible (perform E)) (prepareSnapshot base dir cid vsock) Q F w := by
  refine semx_ask.mpr (host_possible (.prepareSnapshot base dir cid vsock) (Choice.fine 0)
    (.ok ⟨dir ++ ["snapshot"], cid, vsock⟩)
    { w.host with snaps := Function.update w.host.snaps (dir ++ ["snapshot"]) (some g) } ?_ ?_)
  · simp only [Host.perform, Choice.fine, hg, hfree]
  · exact hQ _ (Function.update_self _ _ _) rfl

theorem spawnCh_possible {dir : Path} {pid : ℕ} {Q : ℕ → World → Prop} {F : Fail → World → Prop}
    (hnew : pid ∉ w.host.procs)
    (hQ : ∀ (h' : Host) v, h'.listeners (dir ++ ["api.sock"]) = some pid → h'.procs.lookup pid = some v →
      h'.snaps = w.host.snaps → Q pid { w with host := h' }) :
    semx (possible (perform E)) (spawnCh dir) Q F w := by
  unfold spawnCh
  refine semx_bind.mpr (semx_ask.mpr (host_possible (.spawnCh dir) (Choice.fine pid) (.ok pid)
    { w.host with
      procs := w.host.procs.insert pid ⟨dir, false, none⟩
      listeners := Function.update w.host.listeners (dir ++ ["api.sock"]) (some pid) } ?_ ?_))
  · exact if_neg hnew
  · refine semx_bind.mpr (semx_ask.mpr (host_possible (.writePid dir pid) (Choice.fine pid) (.ok ()) _ rfl ?_))
    exact hQ _ _ (Function.update_self _ _ _) (Finmap.lookup_insert _) rfl

theorem waitChReady_possible {sock : Path} {pid : ℕ} {Q : Unit → World → Prop} {F : Fail → World → Prop}
    (hl : w.host.listeners sock = some pid) (hQ : Q () w) :
    semx (possible (perform E)) (waitChReady sock) Q F w := by
  refine semx_bind.mpr (semx_tell.mpr (host_possible (.chReady sock) (Choice.fine 0) true w.host ?_ hQ))
  simp only [Host.perform, Choice.fine, hl, Option.isSome_some, Bool.and_self]

theorem apiRequest_possible {sock : Path} {call : ApiCall} {pid : ℕ} {h' : Host} {Q : Unit → World → Prop}
    {F : Fail → World → Prop} (hl : w.host.listeners sock = some pid)
    (he : w.host.apiEffect pid call = some h') (hQ : Q () { w with host := h' }) :
    semx (possible (perform E)) (apiRequest sock call) Q F w := by
  refine semx_ask.mpr (host_possible (.api sock call) (Choice.fine 0) (.ok ()) h' ?_ hQ)
  simp only [Host.perform, Host.request, Choice.fine, hl, Option.bind_some, he, Option.map_some]

theorem restoreFromSnapshot_possible {key : String} {cid : ℕ} {dir : Path} {entry : SnapshotEntry}
    {g : Agent.Guest} {Q : ℕ × Path × Path → World → Prop} {F : Fail → World → Prop}
    (hentry : w.snapshots.entries.lookup key = some entry) (hg : w.host.snaps entry.dir = some g)
    (hfree : w.host.snaps (dir ++ ["snapshot"]) = none)
    (hQ : ∀ pid w', w'.agents = w.agents → w'.host.listeners (dir ++ ["api.sock"]) = some pid →
      Restored w'.host (dir ++ ["vsock.sock"]) pid g →
      Q (pid, dir ++ ["api.sock"], dir ++ ["vsock.sock"]) w') :
    semx (possible (perform E)) (restoreFromSnapshot key cid dir) Q F w := by
  obtain ⟨pid, hpid⟩ := Infinite.exists_notMem_finset w.host.procs.keys
  have hnew : pid ∉ w.host.procs := fun h => hpid (Finmap.mem_keys.mpr h)
  have hsock : dir ++ ["api.sock"] ≠ dir ++ ["vsock.sock"] := by simp
  obtain ⟨s, hs⟩ : ∃ s, w.snapshots.perform E.cfg w.host.mtimes (.getSnapshotDir key) (Choice.fine 0) =
      some (some entry.dir, s, []) := by
    simp only [Snapshots.perform, hentry]
    exact ⟨_, rfl⟩
  have hp : perform E w (.snap (.getSnapshotDir key)) (Choice.fine 0) =
      some (some entry.dir, { w with snapshots := s }) := by
    simp only [perform, hs, Option.map_some, List.foldl_nil]
  unfold restoreFromSnapshot
  refine semx_bind.mpr (semx_tell.mpr ⟨Choice.fine 0, some entry.dir, _, hp, ?_⟩)
  refine semx_bind.mpr (prepareSnapshot_possible hg hfree fun h₁ hsnap hprocs => ?_)
  rw [← hprocs] at hnew
  refine semx_bind.mpr (spawnCh_possible (w := { w with snapshots := s, host := h₁ }) hnew fun h₂ v hl hv hsn => ?_)
  refine semx_bind.mpr (waitChReady_possible hl ?_)
  have hg₂ : h₂.snaps (dir ++ ["snapshot"]) = some g := hsn ▸ hsnap
  have heff : h₂.apiEffect pid (.restore ⟨dir ++ ["snapshot"], cid, dir ++ ["vsock.sock"]⟩) =
      some { h₂.setGuest pid g with
        listeners := Function.update h₂.listeners (dir ++ ["vsock.sock"]) (some pid) } := by
    simp only [Host.apiEffect, hg₂, Option.map_some]
  refine semx_bind.mpr (apiRequest_possible hl heff ?_)
  have hl' : Function.update h₂.listeners (dir ++ ["vsock.sock"]) (some pid) (dir ++ ["api.sock"]) = some pid := by
    rw [Function.update_of_ne hsock, hl]
  refine semx_bind.mpr (apiRequest_possible hl' rfl ?_)
  refine hQ pid _ rfl hl' ⟨Function.update_self _ _ _, ?_⟩
  simp [Host.guestOf, Host.setGuest, hv]

/-- A TAP that can be set up. -/
theorem setupVmNetworking_possible {netns vmId short : String} {api : Path} {pid : ℕ}
    {Q : String × PodNetInfo → World → Prop} {F : Fail → World → Prop} (hslice : slicePrefix vmId 8 = some short)
    (hl : w.host.listeners api = some pid)
    (hQ : ∀ r w', w'.agents = w.agents → w'.host.listeners = w.host.listeners →
      w'.host.procs = w.host.procs → Q r w') :
    semx (possible (perform E)) (setupVmNetworking netns vmId api) Q F w := by
  unfold setupVmNetworking slice
  rw [hslice]
  show semx (possible (perform E)) (context (prepareTap netns ("tap_" ++ short)) "prepare_tap" >>= _) Q F w
  generalize "tap_" ++ short = tap
  refine semx_bind.mpr (semx_context.mpr ?_)
  unfold prepareTap
  refine semx_bind.mpr (semx_ask.mpr (host_possible (.probePod netns) (Choice.fine 0) (.ok _) _ rfl ?_))
  refine semx_bind.mpr (semx_ask.mpr (host_possible (.delLink tap) { Choice.fine 0 with flag := false }
    (.ok none) _ rfl ?_))
  obtain ⟨d, h₁, hopen, hlink, hlis, hpr⟩ : ∃ d h₁, w.host.openTap tap = (d, h₁) ∧
      h₁.links.lookup tap = some d ∧ h₁.listeners = w.host.listeners ∧ h₁.procs = w.host.procs := by
    unfold Host.openTap
    cases hd : w.host.links.lookup tap with
    | some d => exact ⟨d, w.host, rfl, hd, rfl, rfl⟩
    | none => exact ⟨_, _, rfl, Finmap.lookup_insert _, rfl, rfl⟩
  refine semx_bind.mpr (semx_ask.mpr (host_possible (.createTap tap) (Choice.fine 0) (.ok d) h₁ ?_ ?_))
  · simp only [Host.perform, Choice.fine, hopen]
  refine semx_bind.mpr (semx_context.mpr (semx_ask.mpr (host_possible (.addNet api tap _) (Choice.fine 0)
    (.ok (pid, d)) h₁ ?_ ?_)))
  · simp only [Host.perform, Host.request, Choice.fine, hlis, hl, Option.bind_some, hlink, Option.map_some]
  refine semx_bind.mpr (semx_context.mpr ?_)
  unfold activateTap
  refine semx_bind.mpr (semx_ask.mpr (host_possible (.linkIndex tap) (Choice.fine 0) (.ok d) h₁ ?_ ?_))
  · simp only [Host.perform, Choice.fine, hlink]
  refine semx_bind.mpr (semx_ask.mpr (host_possible (.moveToNetns tap d netns) (Choice.fine 0) (.ok ())
    (h₁.moveLink tap d netns) rfl ?_))
  -- the link is in the pod's namespace now, or one of that name was
  obtain ⟨d', hpod, hlis', hpr'⟩ : ∃ d', (h₁.moveLink tap d netns).podLinks.lookup (netns, tap) = some d' ∧
      (h₁.moveLink tap d netns).listeners = h₁.listeners ∧ (h₁.moveLink tap d netns).procs = h₁.procs := by
    unfold Host.moveLink
    split
    · exact ⟨d, Finmap.lookup_insert _, rfl, rfl⟩
    · next hno =>
      have hmem : (netns, tap) ∈ h₁.podLinks := by
        by_contra hn
        exact hno ⟨hlink, hn⟩
      obtain ⟨d', hd'⟩ := Finmap.mem_iff.mp hmem
      exact ⟨d', hd', rfl, rfl⟩
  refine semx_bind.mpr (semx_ask.mpr (host_possible (.wireTap netns tap) (Choice.fine 0) (.ok d')
    (h₁.moveLink tap d netns) ?_ ?_))
  · simp only [Host.perform, Choice.fine, hpod]
  exact hQ _ _ rfl (hlis'.trans hlis) (hpr'.trans hpr)

theorem registerActive_possible {vm : PoolVm} {Q : Unit → World → Prop} {F : Fail → World → Prop}
    (hQ : ∀ w', w'.agents = w.agents → w'.host = w.host → Q () w') :
    semx (possible (perform E)) (registerActive vm) Q F w :=
  semx_bind.mpr (semx_tell.mpr ⟨Choice.fine 0, (), _, rfl,
    semx_tell.mpr ⟨Choice.fine 0, (), _, rfl, hQ _ rfl rfl⟩⟩)

/-- The network of a warm VM can be set up, also when its guest cannot be configured. -/
theorem warmNetwork_possible {vmId short : String} {api vsock : Path} {pid : ℕ} {g : Agent.Guest}
    {Q : Except String String → World → Prop} {F : Fail → World → Prop} (hnet : req.netns ≠ "")
    (hslice : slicePrefix vmId 8 = some short) (hl : w.host.listeners api = some pid)
    (hres : Restored w.host vsock pid g)
    (hQ : ∀ tap w', w'.agents.lookup vmId = some pid → Restored w'.host vsock pid g → Q (.ok tap) w') :
    semx (possible (perform E)) (warmNetwork req vmId api vsock) Q F w := by
  unfold warmNetwork
  rw [if_pos hnet]
  refine semx_bind.mpr (semx_attempt.mpr (setupVmNetworking_possible hslice hl fun r w₁ ha hlis hpr => ?_))
  obtain ⟨tap, info⟩ := r
  have hres₁ : Restored w₁.host vsock pid g := ⟨by rw [hlis, hres.1], by rw [Host.guestOf, hpr]; exact hres.2⟩
  refine semx_bind.mpr (semx_attempt.mpr (semx_ask.mpr (host_possible (.connectAgent vsock) (Choice.fine 0)
    (.ok pid) w₁.host ?_ ?_)))
  · simp only [Host.perform, Choice.fine, hres₁.1]
  refine semx_bind.mpr (semx_tell.mpr ⟨Choice.fine 0, (), _, rfl, ?_⟩)
  refine semx_bind.mpr (semx_attempt.mpr (semx_ask.mpr ⟨{ Choice.fine 0 with err := some [] },
    .error (Agent.Err.display []), _, rfl, ?_⟩))
  exact hQ tap _ (Finmap.lookup_insert _) hres₁

theorem not_delivered {w' : World} {a : Acquired} {pid : ℕ} {g : Agent.Guest} {ctr : String}
    (hl : Restored w'.host a.vsockSocket pid g) (hr : ¬ Runs g ctr) : ¬ Delivered w' a ctr := by
  rintro ⟨conn, u, -, hc, hu, hruns⟩
  rw [hl.1] at hc
  obtain rfl := Option.some.inj hc
  rw [hl.2] at hu
  obtain rfl := Option.some.inj hu
  exact hr hruns

/-- A request that the warm path does not fit can be answered without its container. -/
theorem handleAcquire_possible (hcache : ShadowCache w) (hids : NewIds E w req) (hfit : ¬ WarmFits w req) :
    semx (possible (perform E)) (handleAcquire E req)
      (fun r w' => ∃ a, r = .acquired a ∧ ¬ Delivered w' a req.containerId) (fun _ _ => False) w := by
  unfold WarmFits at hfit
  push Not at hfit
  obtain ⟨hkey, hentry, hnet⟩ := hfit
  obtain ⟨entry, hentry⟩ := Option.ne_none_iff_exists'.mp hentry
  obtain ⟨g, hg, hruns⟩ := hcache _ entry hentry
  have hhas : perform E w (.snap (.hasSnapshot req.imageKey (nonEmpty req.erofsPath)))
      { Choice.fine 0 with err := some [] } = some ((true, none), w) := by
    have hfresh : entry.stale none = false := by
      unfold SnapshotEntry.stale
      cases entry.erofsMtime <;> rfl
    simp only [perform, Snapshots.perform, hentry, SnapshotEntry.currentMtime, Option.isNone_some, Bool.false_and,
      Bool.false_eq_true, if_false, hfresh]
    rfl
  unfold handleAcquire hasWarmSnapshot
  rw [if_pos hkey]
  refine semx_bind.mpr (semx_bind.mpr (semx_tell.mpr ⟨_, (true, none), w, hhas, ?_⟩))
  refine semx_bind.mpr ?_
  unfold acquireWarm
  refine semx_bind.mpr (semx_tell.mpr ⟨Choice.fine 0, w.warmCounter, _, rfl, ?_⟩)
  refine semx_bind.mpr (semx_attempt.mpr (semx_ask.mpr (host_possible (.createDirAll _) (Choice.fine 0) (.ok ())
    w.host rfl ?_)))
  refine semx_bind.mpr (semx_tell.mpr ⟨Choice.fine 0, w.pool.nextCid, _, rfl, ?_⟩)
  refine semx_bind.mpr (semx_attempt.mpr (restoreFromSnapshot_possible hentry hg hids.warmDir
    fun pid w₁ ha hl hres => ?_))
  refine semx_bind.mpr ?_
  by_cases hn : req.netns = ""
  · -- no network: nobody registers the agent
    unfold warmNetwork
    rw [if_neg (by simpa using hn)]
    refine semx_bind.mpr (registerActive_possible fun w₂ ha₂ _ => ⟨_, rfl, ?_⟩)
    rintro ⟨conn, u, hreg, -⟩
    rw [ha₂, ha] at hreg
    exact hids.warm (Finmap.mem_of_lookup_eq_some hreg)
  · -- a network: the registered agent has the shadow's container only
    obtain ⟨hctr, hslice⟩ := hnet hn
    obtain ⟨short, hshort⟩ := Option.ne_none_iff_exists'.mp hslice
    refine warmNetwork_possible hn hshort hl hres fun tap w₂ hreg hres₂ => ?_
    refine semx_bind.mpr (registerActive_possible fun w₃ ha₃ hh₃ => ⟨_, rfl, ?_⟩)
    rw [← hh₃] at hres₂
    exact not_delivered hres₂ fun hr => hctr ((hruns _).mp hr)

/-- **When AcquireSandbox delivers.**  For a request with an image and a container id, in a state whose
cached snapshots are those of shadow runs: every error-free answer comes with the registered, running
container exactly when the warm path is not taken or fits. -/
theorem delivers_iff_warmFits (hreq : req.erofsPath ≠ "" ∧ req.containerId ≠ "") (hcache : ShadowCache w)
    (hids : NewIds E w req) : Delivers E w req ↔ WarmFits w req := by
  constructor
  · intro hD
    by_contra hfit
    obtain ⟨cs, r, w', he, hr⟩ := sem_possible (handleAcquire_possible hcache hids hfit)
    cases r with
    | error e => exact hr
    | ok resp =>
      obtain ⟨a, rfl, hn⟩ := hr
      exact hn (hD cs a w' [] he)
  · intro hfit cs a w' rest he
    exact sem_always (handleAcquire_always hreq hcache hids hfit) he a rfl

end Both

/-! ### Two states -/

/-- An acquire of an image, and the shadow run that it starts, to its end. -/
def shadowed : List (Label Choice Task) :=
  steps 0 13 100 ++ [.arrive (.request (.acquireSandbox ⟨"", "img", "/img.erofs", "web", ""⟩))] ++
    steps 1 15 101 ++ steps 3 31 102

/-- The next acquire of the same image. -/
def acquireAgain : AcquireRequest := ⟨"", "img", "/img.erofs", "web2", ""⟩

/-- An acquire has returned a VM that has no agent. -/
def lacksAgent : Option (Except Fail Response × World × List Choice) → Bool
  | some (.ok (.acquired a), w', _) => (w'.agents.lookup a.vmId).isNone
  | _ => false

/-- After the shadow run of an image, an acquire of this image does not get its container. -/
theorem warm_acquire_lacks_container : ∃ x, (daemon poolOfOne).Reach (fun _ _ => True)
    (boot poolOfOne (Host.withBase poolOfOne)) x ∧ ¬ Delivers poolOfOne x.shared acquireAgain := by
  have hrun : ((daemon poolOfOne).exec (fun _ _ => true) (boot poolOfOne (Host.withBase poolOfOne))
      shadowed).any (fun x => lacksAgent (eval (perform poolOfOne) (handleAcquire poolOfOne acquireAgain).run
        (List.replicate 13 (Choice.fine 300)) x.shared)) = true := by
    decide +kernel
  obtain ⟨x, hx, hP⟩ := System.exists_reach hrun
  refine ⟨x, hx.mono fun _ _ _ => trivial, fun hD => ?_⟩
  unfold lacksAgent at hP
  split at hP
  · next a w' rest he =>
    obtain ⟨conn, g, hreg, -⟩ := hD _ a w' rest he
    rw [hreg] at hP
    cases hP
  · cases hP

/-- A guest in which the shadow's container runs. -/
def shadowGuest : Agent.Guest :=
  let g := Agent.Guest.boot [⟨"/rootfs", true, "_disk0"⟩, ⟨"/img.erofs", true, "ctr-rootfs"⟩]
  { g with mgr := { g.mgr with
    containers := Finmap.singleton (shadowContainerId "img") ⟨some 10, none, .running⟩ } }

/-- A daemon with a snapshot of that guest. -/
def cachedWorld : World :=
  let w := World.start { Host.clean ∅ with
    snaps := Function.update (fun _ => none) ["s", "snapshot-cache", "img"] (some shadowGuest) }
  { w with snapshots := { w.snapshots with
    entries := Finmap.singleton "img" ⟨["s", "snapshot-cache", "img"], 0, none⟩ } }

theorem delivers_iff_warmFits_shadowId :
    Delivers poolOfOne cachedWorld ⟨"/ns", "img", "/img.erofs", shadowContainerId "img", ""⟩ ∧
      ¬ Delivers poolOfOne cachedWorld ⟨"/ns", "img", "/img.erofs", "web", ""⟩ := by
  have hcache : ShadowCache cachedWorld := by
    intro key entry he
    have hkey : key = "img" := by
      by_contra hne
      have hn : cachedWorld.snapshots.entries.lookup key = none :=
        Finmap.lookup_eq_none.mpr (by simpa [cachedWorld] using hne)
      exact absurd (hn.symm.trans he) (by simp)
    subst hkey
    obtain rfl : entry = ⟨["s", "snapshot-cache", "img"], 0, none⟩ :=
      (Option.some.inj ((Finmap.lookup_singleton_eq).symm.trans he)).symm
    refine ⟨shadowGuest, rfl, fun id => ?_⟩
    by_cases hid : id = shadowContainerId "img"
    · subst hid
      exact ⟨fun _ => rfl, fun _ => by decide⟩
    · have hn : shadowGuest.mgr.containers.lookup id = none :=
        Finmap.lookup_eq_none.mpr (by simpa [shadowGuest] using hid)
      simp [Runs, hn, hid]
  have hids : ∀ req, req.imageKey = "img" → NewIds poolOfOne cachedWorld req := by
    intro req hreq
    refine ⟨fun vm hvm => (by cases hvm), Finmap.notMem_empty, Finmap.notMem_empty, Finmap.notMem_empty, ?_⟩
    rw [warmId, hreq]
    decide
  constructor
  · exact (delivers_iff_warmFits (by decide) hcache (hids _ rfl)).mpr (.inr (.inr ⟨by decide, .inl rfl⟩))
  · rw [delivers_iff_warmFits (by decide) hcache (hids _ rfl)]
    rintro (h | h | ⟨-, h | h⟩)
    · exact absurd h (by decide)
    · exact absurd h (by decide)
    · exact absurd h (by decide)
    · exact absurd h (by decide)

end CloudHv.Daemon
