import CloudHv.Daemon.Rules

/-!
# Wiring — the disk and the agent connection of a container

What a task that runs a container knows: the disk it hot-plugged and the process that took it, and the
agent connection it uses with the VM it believes it to be of.  Every task of the daemon plugs the disk of
its own container, and runs the container over a connection to the VM that has the disk.
-/

namespace CloudHv.Daemon

open Conc

/-- The container that a task runs, by id, and its erofs image. -/
def Task.container : Task → Option (String × String)
  | .request (.acquireSandbox req) => some (req.containerId, req.erofsPath)
  | .request (.addContainer req) => some (req.containerId, req.erofsPath)
  | .shadow key erofs => some (shadowContainerId key, erofs)
  | _ => none

/-- `plug` is the state directory, the process and the name of the hot-plugged device; `conn` is the
process the connection reaches and the state directory of the VM it was made for. -/
structure Wiring where
  own : Option (String × String)
  plug : Option (Path × ℕ × String)
  conn : Option (ℕ × Path)

def Wiring.init (t : Task) : Wiring := ⟨t.container, none, none⟩

def Wiring.upd (E : Env) (g : Wiring) : (a : Action) → Answer a → Wiring
  | .host (.addDisk sock _), r =>
    match r with
    | .ok (pid, name) => { g with plug := some (sock.dropLast, pid, name) }
    | .error _ => g
  | .host (.connectAgent vsock), r =>
    match r with
    | .ok pid => { g with conn := some (pid, vsock.dropLast) }
    | .error _ => g
  | .agentsGet id, r =>
    match r with
    | some pid => { g with conn := some (pid, E.cfg.vmDir id) }
    | none => g
  | _, _ => g

/-- The sockets of a VM are in its state directory. -/
def Placed (E : Env) (vm : PoolVm) : Prop :=
  vm.apiSocket.dropLast = E.cfg.vmDir vm.vmId ∧ vm.vsockSocket.dropLast = E.cfg.vmDir vm.vmId

def Wiring.req (E : Env) (g : Wiring) : Action → Prop
  | .host (.addDisk _ disk) => ∃ id, g.own = some (id, disk.path)
  | .host (.runContainer pid req) =>
    (∃ dir q name, g.plug = some (dir, q, name) ∧ g.conn = some (pid, dir)) ∧
      (∃ path, g.own = some (req.containerId, path)) ∧ req.erofsLayers = 1
  | .host (.api sock (.create _ _ vsock)) => vsock.dropLast = sock.dropLast
  | .host (.api sock (.restore p)) => p.vsockSocket.dropLast = sock.dropLast
  | .agentsInsert id pid => g.conn = some (pid, E.cfg.vmDir id)
  | .pool (.readyPush vm) | .pool (.activeInsert vm) => Placed E vm
  | _ => True

def Wiring.may (E : Env) (_ : Wiring) : (a : Action) → Answer a → Prop
  | .host (.prepareSnapshot _ _ _ vsock), r => ∀ p, r = .ok p → p.vsockSocket = vsock
  | .pool .readyPop, r => ∀ vm, r = some vm → Placed E vm
  | .pool (.activeGet id), r => ∀ vm, r = some vm → vm.vmId = id ∧ Placed E vm
  | _, _ => True

def wiring (E : Env) : Discipline Action Answer Wiring := ⟨Wiring.upd E, Wiring.req E, Wiring.may E⟩

section Tasks

variable {E : Env}

/-- The kinds of action that wiring is about. -/
def wiringKinds : List Kind := [.ch, .disk, .agent, .container, .registry, .push, .active]

theorem wiring_plain {g : Wiring} {a : Action} (h : a.kind ∉ wiringKinds) :
    (wiring E).req g a ∧ ∀ r, (wiring E).may g a r → (wiring E).upd g a r = g := by
  cases a with
  | pool b => cases b <;> first | exact ⟨trivial, fun _ _ => rfl⟩ | exact absurd (List.elem_iff.mp rfl) h
  | host b => cases b <;> first | exact ⟨trivial, fun _ _ => rfl⟩ | exact absurd (List.elem_iff.mp rfl) h
  | agentsGet id => exact absurd (List.elem_iff.mp rfl) h
  | agentsInsert id pid => exact absurd (List.elem_iff.mp rfl) h
  | _ => exact ⟨trivial, fun _ _ => rfl⟩

theorem uses_wiring {α : Type} {ks : List Kind} {m : M α} {g : Wiring} {Q : α → Wiring → Prop}
    {F : Fail → Wiring → Prop} (h : Uses ks m) (hk : ks.all (fun k => !wiringKinds.elem k) = true)
    (hQ : ∀ x, Q x g) (hF : ∀ e, F e g) : wpx (wiring E) m Q F g := by
  refine Only.wp h (fun a ha => wiring_plain fun hm => ?_) fun r => ?_
  · have hn := List.all_eq_true.mp hk _ ha
    rw [List.elem_iff.mpr hm] at hn
    cases hn
  · cases r with
    | ok x => exact hQ x
    | error e => exact hF e

variable {g : Wiring}

theorem apiRequest_wiring {sock : Path} {call : ApiCall} {Q : Unit → Wiring → Prop}
    {F : Fail → Wiring → Prop} (hreq : (wiring E).req g (.host (.api sock call))) (hQ : Q () g)
    (hF : ∀ e, F e g) : wpx (wiring E) (apiRequest sock call) Q F g := by
  refine wpx_ask.mpr (wp_onHost.mpr ⟨hreq, fun r _ => ?_⟩)
  cases r with
  | ok u => exact hQ
  | error e => exact hF _

theorem waitChReady_wiring {sock : Path} {Q : Unit → Wiring → Prop} {F : Fail → Wiring → Prop}
    (hQ : Q () g) (hF : ∀ e, F e g) : wpx (wiring E) (waitChReady sock) Q F g := by
  unfold waitChReady
  rw [wpx_bind, wpx_host]
  refine ⟨trivial, fun b _ => ?_⟩
  cases b with
  | true => exact hQ
  | false => exact hF _

theorem waitForAgent_wiring {vsock : Path} {Q : Unit → Wiring → Prop} {F : Fail → Wiring → Prop}
    (hQ : Q () g) (hF : ∀ e, F e g) : wpx (wiring E) (waitForAgent vsock) Q F g := by
  unfold waitForAgent
  rw [wpx_bind, wpx_host]
  refine ⟨trivial, fun b _ => ?_⟩
  cases b with
  | true => exact hQ
  | false => exact hF _

theorem connectAgent_wiring {vsock : Path} {Q : ℕ → Wiring → Prop} {F : Fail → Wiring → Prop}
    (hQ : ∀ pid, Q pid { g with conn := some (pid, vsock.dropLast) }) (hF : ∀ e, F e g) :
    wpx (wiring E) (connectAgent vsock) Q F g := by
  refine wpx_ask.mpr (wp_onHost.mpr ⟨trivial, fun r _ => ?_⟩)
  cases r with
  | ok pid => exact hQ pid
  | error e => exact hF _

/-- The work directory comes with the socket path it was given. -/
theorem prepareSnapshot_wiring {base dir vsock : Path} {cid : ℕ} {Q : Prepared → Wiring → Prop}
    {F : Fail → Wiring → Prop} (hQ : ∀ p : Prepared, p.vsockSocket = vsock → Q p g) (hF : ∀ e, F e g) :
    wpx (wiring E) (prepareSnapshot base dir cid vsock) Q F g := by
  refine wpx_ask.mpr (wp_onHost.mpr ⟨trivial, fun r hm => ?_⟩)
  cases r with
  | ok p => exact hQ p (hm p rfl)
  | error e => exact hF _

theorem restoreOne_wiring {Q : PoolVm → Wiring → Prop} {F : Fail → Wiring → Prop}
    (hQ : ∀ vm, Placed E vm → Q vm g) (hF : ∀ e, F e g) : wpx (wiring E) (restoreOne E) Q F g := by
  unfold restoreOne
  rw [wpx_bind, wpx_pool]
  refine ⟨trivial, fun n _ => ?_⟩
  rw [wpx_bind, wpx_pool]
  refine ⟨trivial, fun cid _ => ?_⟩
  refine wpx_bind.mpr (uses_wiring (createDirAll_strict _).uses rfl (fun _ => ?_) hF)
  refine wpx_bind.mpr (prepareSnapshot_wiring (fun prepared hp => ?_) hF)
  refine wpx_bind.mpr (uses_wiring (spawnCh_strict _).uses rfl (fun pid => ?_) hF)
  refine wpx_bind.mpr (waitChReady_wiring ?_ hF)
  refine wpx_bind.mpr (apiRequest_wiring ?_ ?_ hF)
  · show prepared.vsockSocket.dropLast = _
    rw [hp, List.dropLast_concat, List.dropLast_concat]
  refine wpx_bind.mpr (apiRequest_wiring trivial ?_ hF)
  rw [wpx_bind, wpx_context]
  refine waitForAgent_wiring (hQ _ ⟨?_, ?_⟩) fun e => hF _
  · exact List.dropLast_concat
  · exact List.dropLast_concat

theorem createBaseSnapshot_wiring {base : Path} {Q : Unit → Wiring → Prop} {F : Fail → Wiring → Prop}
    (hQ : Q () g) (hF : ∀ e, F e g) : wpx (wiring E) (createBaseSnapshot E base) Q F g := by
  unfold createBaseSnapshot
  refine wpx_bind.mpr (uses_wiring (createDirAll_strict _).uses rfl (fun _ => ?_) hF)
  rw [wpx_bind, wpx_pool]
  refine ⟨trivial, fun cid _ => ?_⟩
  refine wpx_bind.mpr (uses_wiring (createDirAll_strict _).uses rfl (fun _ => ?_) hF)
  have hF' : ∀ e : Fail, F (e.within "boot base VM") g := fun e => hF _
  rw [wpx_bind, wpx_context]
  unfold bootVm
  refine wpx_bind.mpr (uses_wiring (spawnCh_strict _).uses rfl (fun pid => ?_) hF')
  refine wpx_bind.mpr (waitChReady_wiring ?_ hF')
  refine wpx_bind.mpr (uses_wiring (.ask (Uses.onHost rfl) : Uses [.file] _) rfl (fun _ => ?_) hF')
  refine wpx_bind.mpr (apiRequest_wiring ?_ ?_ hF')
  · show (_ ++ ["vsock.sock"] : Path).dropLast = _
    rw [List.dropLast_concat, List.dropLast_concat]
  refine wpx_bind.mpr (apiRequest_wiring trivial ?_ hF')
  refine wpx_bind.mpr (uses_wiring (.ask (Uses.onHost rfl) : Uses [.pidFile] _) rfl (fun _ => ?_) hF')
  show wpx (wiring E) (context (waitForAgent _) _ >>= _) Q F g
  rw [wpx_bind, wpx_context]
  refine waitForAgent_wiring ?_ fun e => hF _
  refine wpx_bind.mpr (apiRequest_wiring trivial ?_ hF)
  refine wpx_bind.mpr (apiRequest_wiring trivial ?_ hF)
  exact uses_wiring (shutdownAndDestroy_uses _ _) rfl (fun _ => hQ) hF

theorem fillPool_wiring : ∀ k, wpx (wiring E) (fillPool E k) (fun _ _ => True) (fun _ _ => True) g
  | 0 => trivial
  | k + 1 => by
    unfold fillPool
    rw [wpx_bind, wpx_attempt]
    refine restoreOne_wiring (fun vm hvm => ?_) (fun e => ?_)
    · rw [wpx_bind, wpx_pool]
      exact ⟨hvm, fun _ _ => fillPool_wiring k⟩
    · cases e with
      | err e => exact fillPool_wiring k
      | panic => trivial

theorem registerActive_wiring {vm : PoolVm} {Q : Unit → Wiring → Prop} {F : Fail → Wiring → Prop}
    (hvm : Placed E vm) (hQ : Q () g) : wpx (wiring E) (registerActive vm) Q F g := by
  unfold registerActive
  rw [wpx_bind, wpx_pool]
  exact ⟨trivial, fun _ _ => wpx_pool.mpr ⟨hvm, fun _ _ => hQ⟩⟩

theorem acquire_wiring {Q : PoolVm → Wiring → Prop} {F : Fail → Wiring → Prop}
    (hQ : ∀ vm, Placed E vm → Q vm g) (hF : ∀ e, F e g) : wpx (wiring E) (acquire E) Q F g := by
  unfold acquire
  rw [wpx_bind, wpx_pool]
  refine ⟨trivial, fun r hm => ?_⟩
  cases r with
  | some vm => exact wpx_bind.mpr (registerActive_wiring (hm vm rfl) (hQ vm (hm vm rfl)))
  | none =>
    refine wpx_bind.mpr (restoreOne_wiring (fun vm hvm => ?_) hF)
    exact wpx_bind.mpr (registerActive_wiring hvm (hQ vm hvm))

theorem release_wiring {id : String} {Q : Unit → Wiring → Prop} {F : Fail → Wiring → Prop}
    (hQ : Q () g) (hF : ∀ e, F e g) : wpx (wiring E) (release E id) Q F g := by
  unfold release
  rw [wpx_bind, wpx_pool]
  refine ⟨trivial, fun r _ => ?_⟩
  have hd : wpx (wiring E) (destroyVm E id) Q F g := uses_wiring (destroyVm_uses E id) rfl (fun _ => hQ) hF
  cases r with
  | some vm => exact wpx_bind.mpr (wpx_pool.mpr ⟨trivial, fun _ _ => hd⟩)
  | none => exact hd

/-- The connection is to the VM of the id, whether it is taken from the registry or made. -/
theorem agentFor_wiring {p : RunContainerParams} {Q : ℕ → Wiring → Prop} {F : Fail → Wiring → Prop}
    (hvsock : p.vsockSocket.dropLast = E.cfg.vmDir p.vmId)
    (hQ : ∀ pid, Q pid { g with conn := some (pid, E.cfg.vmDir p.vmId) }) (hF : ∀ e, F e g) :
    wpx (wiring E) (agentFor p) Q F g := by
  unfold agentFor
  rw [wpx_bind, wpx_tell]
  refine ⟨trivial, fun r _ => ?_⟩
  cases r with
  | some pid => exact hQ pid
  | none =>
    show wpx (wiring E) (context (connectAgent p.vsockSocket) _ >>= _) Q F g
    rw [wpx_bind, wpx_context]
    refine connectAgent_wiring (fun pid => ?_) fun e => hF _
    rw [wpx_bind, wpx_tell, hvsock]
    exact ⟨rfl, fun _ _ => hQ pid⟩

theorem runContainerInVm_wiring {p : RunContainerParams} {Q : ℕ × String → Wiring → Prop}
    {F : Fail → Wiring → Prop} (hown : g.own = some (p.containerId, p.erofsPath))
    (hapi : p.apiSocket.dropLast = E.cfg.vmDir p.vmId)
    (hvsock : p.vsockSocket.dropLast = E.cfg.vmDir p.vmId) (hQ : ∀ r g, Q r g) (hF : ∀ e g, F e g) :
    wpx (wiring E) (runContainerInVm E p) Q F g := by
  unfold runContainerInVm
  refine wpx_bind.mpr (uses_wiring (setupNetwork_strict p).uses rfl (fun net => ?_) fun e => hF e g)
  obtain ⟨tap, net⟩ := net
  refine wpx_bind.mpr (uses_wiring (slice_strict _ _).uses rfl (fun short => ?_) fun e => hF e g)
  rw [wpx_bind, wpx_context]
  refine wpx_ask.mpr (wp_onHost.mpr ⟨⟨p.containerId, hown⟩, fun r _ => ?_⟩)
  cases r with
  | error e => exact hF _ _
  | ok d =>
    obtain ⟨q, name⟩ := d
    show wpx (wiring E) (agentFor p >>= _) Q F { g with plug := some (p.apiSocket.dropLast, q, name) }
    rw [hapi]
    refine wpx_bind.mpr (agentFor_wiring hvsock (fun pid => ?_) fun e => hF e _)
    have hrun : wpx (wiring E) (runContainerRpc pid
        { containerId := p.containerId, volumes := [], configJson := ociConfig E p.configJsonB64,
          rootfsPreattached := false, erofsLayers := 1 } "RunContainer" >>= fun pid => pure (pid, tap)) Q F
        { g with plug := some (E.cfg.vmDir p.vmId, q, name), conn := some (pid, E.cfg.vmDir p.vmId) } := by
      rw [wpx_bind]
      refine wpx_ask.mpr (wp_bind.mpr (wp_onHost.mpr
        ⟨⟨⟨_, q, name, rfl, rfl⟩, ⟨p.erofsPath, hown⟩, rfl⟩, fun r _ => ?_⟩))
      obtain ⟨res, mounted⟩ := r
      cases res with
      | ok pid => exact hQ _ _
      | error e => exact hF _ _
    cases net with
    | none => exact hrun
    | some info =>
      show wpx (wiring E) (context (configureGuestNetwork pid info.ipCidr info.gateway) _ >>= _) Q F _
      rw [wpx_bind, wpx_context]
      exact uses_wiring (configureGuestNetwork_strict _ _ _).uses rfl (fun _ => hrun) fun e => hF _ _

/-! ### Handlers and tasks -/

/-- A result that the caller looks at, when nothing is asked of the end. -/
theorem warmRegister_wiring {vmId tap : String} {cid pid : ℕ} {Q : Option Response → Wiring → Prop}
    {F : Fail → Wiring → Prop} (hsome : ∀ r g, Q (some r) g) :
    wpx (wiring E) (do
      registerActive ⟨vmId, E.cfg.vmDir vmId ++ ["api.sock"], E.cfg.vmDir vmId ++ ["vsock.sock"], cid, pid⟩
      pure (some (.acquired ⟨vmId, E.cfg.vmDir vmId ++ ["api.sock"], E.cfg.vmDir vmId ++ ["vsock.sock"], cid,
        pid, true, 0, tap⟩))) Q F g :=
  wpx_bind.mpr (registerActive_wiring ⟨List.dropLast_concat, List.dropLast_concat⟩ (hsome _ _))

theorem acquireWarm_wiring {req : AcquireRequest} {Q : Option Response → Wiring → Prop}
    {F : Fail → Wiring → Prop} (hsome : ∀ r g, Q (some r) g) (hnone : Q none g) (hF : ∀ e g, F e g) :
    wpx (wiring E) (acquireWarm E req) Q F g := by
  unfold acquireWarm
  rw [wpx_bind, wpx_tell]
  refine ⟨trivial, fun seq _ => ?_⟩
  refine wpx_bind.mpr (wpx_attempt_any (uses_wiring (createDirAll_strict _).uses rfl (fun u => ?_)
    fun e q => ⟨hsome _ _, hF _ _⟩))
  show wpx (wiring E) (pool .cidFetchAdd >>= _) Q F g
  rw [wpx_bind, wpx_pool]
  refine ⟨trivial, fun cid _ => ?_⟩
  refine wpx_bind.mpr (wpx_attempt_any ?_)
  have hF' : ∀ e : Fail, ∀ q : Agent.Err, Q none g ∧ F e g := fun e q => ⟨hnone, hF _ _⟩
  unfold restoreFromSnapshot
  rw [wpx_bind, wpx_snap]
  refine ⟨trivial, fun r _ => ?_⟩
  cases r with
  | none => exact hF' _
  | some snapDir =>
    refine wpx_bind.mpr (prepareSnapshot_wiring (fun prepared hp => ?_) hF')
    refine wpx_bind.mpr (uses_wiring (spawnCh_strict _).uses rfl (fun pid => ?_) hF')
    refine wpx_bind.mpr (waitChReady_wiring ?_ hF')
    refine wpx_bind.mpr (apiRequest_wiring ?_ ?_ hF')
    · show prepared.vsockSocket.dropLast = _
      rw [hp, List.dropLast_concat, List.dropLast_concat]
    refine wpx_bind.mpr (apiRequest_wiring trivial ?_ hF')
    -- the restored VM is registered once its network is there
    show wpx (wiring E) (warmNetwork req _ _ _ >>= _) Q F g
    rw [wpx_bind]
    unfold warmNetwork
    split
    · refine wpx_bind.mpr (wpx_attempt_any (uses_wiring (setupVmNetworking_strict _ _ _).uses rfl (fun r => ?_)
        fun e q => ⟨hsome _ _, hF _ _⟩))
      obtain ⟨tap, info⟩ := r
      refine wpx_bind.mpr (wpx_attempt_any (connectAgent_wiring (fun agent => ?_)
        fun e q => ⟨hsome _ _, hF _ _⟩))
      show wpx (wiring E) (tell (.agentsInsert _ agent) >>= _) _ F _
      rw [wpx_bind, wpx_tell, List.dropLast_concat]
      refine ⟨rfl, fun _ _ => ?_⟩
      refine wpx_bind.mpr (wpx_attempt_any (uses_wiring (configureGuestNetwork_strict _ _ _).uses rfl
        (fun _ => warmRegister_wiring hsome) fun e q => ⟨warmRegister_wiring hsome, hF _ _⟩))
    · exact warmRegister_wiring hsome

theorem acquirePool_wiring {req : AcquireRequest} {Q : Response → Wiring → Prop} {F : Fail → Wiring → Prop}
    (hown : g.own = some (req.containerId, req.erofsPath)) (hQ : ∀ r g, Q r g) (hF : ∀ e g, F e g) :
    wpx (wiring E) (acquirePool E req) Q F g := by
  unfold acquirePool
  refine wpx_bind.mpr (wpx_attempt_any (acquire_wiring (fun vm hvm => ?_) fun e q => ⟨hQ _ _, hF _ _⟩))
  show wpx (wiring E) (tell .spawnReplenish >>= _) Q F g
  rw [wpx_bind, wpx_tell]
  refine ⟨trivial, fun _ _ => ?_⟩
  refine wpx_bind.mpr (uses_wiring (shadowFor_uses req) rfl (fun _ => ?_) fun e => hF e _)
  rw [wpx_bind]
  unfold acquireContainer
  split
  · exact wpx_attempt_any (runContainerInVm_wiring hown hvm.1 hvm.2 (fun r g => hQ _ _)
      fun e g q => ⟨hQ _ _, hF _ _⟩)
  · exact hQ _ _

theorem handleAcquire_wiring {req : AcquireRequest} {Q : Response → Wiring → Prop}
    {F : Fail → Wiring → Prop} (hown : g.own = some (req.containerId, req.erofsPath))
    (hQ : ∀ r g, Q r g) (hF : ∀ e g, F e g) : wpx (wiring E) (handleAcquire E req) Q F g := by
  unfold handleAcquire
  refine wpx_bind.mpr (uses_wiring (hasWarmSnapshot_uses req) rfl (fun b => ?_) fun e => hF e g)
  split
  · exact wpx_bind.mpr (acquireWarm_wiring (fun r g => hQ r g) (acquirePool_wiring hown hQ hF) hF)
  · exact acquirePool_wiring hown hQ hF

theorem handleAddContainer_wiring {req : AddRequest} {Q : Plain → Wiring → Prop} {F : Fail → Wiring → Prop}
    (hown : g.own = some (req.containerId, req.erofsPath)) (hQ : ∀ r g, Q r g) (hF : ∀ e g, F e g) :
    wpx (wiring E) (handleAddContainer E req) Q F g := by
  unfold handleAddContainer
  split
  · exact hQ _ _
  · rw [wpx_bind, wpx_pool]
    refine ⟨trivial, fun r hm => ?_⟩
    cases r with
    | none => exact hQ _ _
    | some vm =>
      obtain ⟨hid, hapi, hvsock⟩ := hm vm rfl
      rw [hid] at hapi hvsock
      exact wpx_bind.mpr (wpx_attempt_any (runContainerInVm_wiring hown hapi hvsock (fun r g => hQ _ _)
        fun e g q => ⟨hQ _ _, hF _ _⟩))

/-- The three requests that use a registered connection for one call. -/
theorem registered_wiring {vmId : String} {f : ℕ → M Plain} {p : Plain} {Q : Plain → Wiring → Prop}
    {F : Fail → Wiring → Prop} (hf : ∀ conn g, wpx (wiring E) (f conn) Q F g) (hQ : ∀ g, Q p g) :
    wpx (wiring E) (do
      match ← tell (.agentsGet vmId) with
      | none => pure p
      | some agent => f agent) Q F g := by
  rw [wpx_bind, wpx_tell]
  refine ⟨trivial, fun r _ => ?_⟩
  cases r with
  | none => exact hQ _
  | some agent => exact hf agent _

theorem handle_wiring {r : Request} {Q : Response → Wiring → Prop} {F : Fail → Wiring → Prop}
    (hown : g.own = (Task.request r).container) (hQ : ∀ r g, Q r g) (hF : ∀ e g, F e g) :
    wpx (wiring E) (r.handle E) Q F g := by
  cases r with
  | acquireSandbox req => exact handleAcquire_wiring hown hQ hF
  | addContainer req =>
    exact wpx_bind.mpr (handleAddContainer_wiring hown (fun _ _ => hQ _ _) hF)
  | releaseSandbox id =>
    refine (wpx_bind (m := handleRelease E id)).mpr ?_
    unfold handleRelease
    split
    · exact hQ _ _
    · rw [wpx_bind, wpx_tell]
      refine ⟨trivial, fun _ _ => ?_⟩
      exact wpx_bind.mpr (wpx_attempt_any (release_wiring (hQ _ _) fun e q => ⟨hQ _ _, hF _ _⟩))
  | killContainer vm ctr sig =>
    refine (wpx_bind (m := handleKillContainer vm ctr sig)).mpr (registered_wiring (fun conn g => ?_)
      fun g => hQ _ _)
    rw [wpx_bind, wpx_host]
    refine ⟨trivial, fun r _ => ?_⟩
    cases r <;> exact hQ _ _
  | waitContainer vm ctr =>
    refine (wpx_bind (m := handleWaitContainer vm ctr)).mpr (registered_wiring (fun conn g => ?_)
      fun g => hQ _ _)
    rw [wpx_bind, wpx_host]
    refine ⟨trivial, fun r _ => ?_⟩
    cases r <;> exact hQ _ _
  | deleteContainer vm ctr =>
    refine (wpx_bind (m := handleDeleteContainer vm ctr)).mpr (registered_wiring (fun conn g => ?_)
      fun g => hQ _ _)
    rw [wpx_bind, wpx_host]
    exact ⟨trivial, fun r _ => hQ _ _⟩
  | status =>
    have huses : Uses [.ready, .counter, .cache] handleStatus :=
      .bind (.pool rfl) fun _ => .bind (.pool rfl) fun _ => .bind (.snap rfl) fun _ =>
        .bind (.snap rfl) fun _ => .pure _
    exact (wpx_bind (m := handleStatus)).mpr (uses_wiring huses rfl (fun _ => hQ _ _) fun e => hF _ _)
  | unknown m => exact hQ _ _

theorem shadow_wiring (key erofs : String) : wp (wiring E) (shadowTask E key erofs).toTask
    (fun _ _ => True) (Wiring.init (.shadow key erofs)) := by
  refine wp_toTask ?_
  unfold shadowTask
  have hend : ∀ g, wpx (wiring E) (snap (.shadowsRemove key)) (fun _ _ => True) (fun _ _ => True) g :=
    fun g => wpx_snap.mpr ⟨trivial, fun _ _ => trivial⟩
  refine wpx_bind.mpr (wpx_attempt_any ?_)
  have herr : ∀ (e : Fail) (g : Wiring) (q : Agent.Err), wpx (wiring E) (snap (.shadowsRemove key))
      (fun _ _ => True) (fun _ _ => True) g ∧ True := fun e g q => ⟨hend g, trivial⟩
  unfold runShadow
  refine wpx_bind.mpr (uses_wiring (createDirAll_strict _).uses rfl (fun _ => ?_) fun e => herr e _)
  rw [wpx_bind, wpx_context]
  refine acquire_wiring (fun vm hvm => ?_) (fun e => herr e _)
  rw [wpx_bind, wpx_context]
  refine wpx_ask.mpr (wp_onHost.mpr ⟨⟨_, rfl⟩, fun r _ => ?_⟩)
  cases r with
  | error e => exact herr (.err []) _
  | ok d =>
    obtain ⟨q, name⟩ := d
    refine wpx_bind.mpr (connectAgent_wiring (fun pid => ?_) fun e => herr e _)
    rw [wpx_bind]
    refine wpx_ask.mpr (wp_bind.mpr (wp_onHost.mpr ⟨⟨⟨_, q, name, rfl, ?_⟩, ⟨erofs, rfl⟩, rfl⟩,
      fun r _ => ?_⟩))
    · rw [hvm.1, hvm.2]
    obtain ⟨res, mounted⟩ := r
    cases res with
    | error e => exact herr (.err []) _
    | ok p =>
      show wpx (wiring E) (tell (.sleep _) >>= _) _ _ _
      rw [wpx_bind, wpx_tell]
      refine ⟨trivial, fun _ _ => ?_⟩
      refine wpx_bind.mpr (uses_wiring (createDirAll_strict _).uses rfl (fun _ => ?_) fun e => herr e _)
      refine wpx_bind.mpr (apiRequest_wiring trivial ?_ fun e => herr e _)
      refine wpx_bind.mpr (apiRequest_wiring trivial ?_ fun e => herr e _)
      refine wpx_bind.mpr (uses_wiring (.ask (Uses.onHost rfl) : Uses [.file] _) rfl (fun _ => ?_)
        fun e => herr e _)
      rw [wpx_bind, wpx_host]
      refine ⟨trivial, fun mtime _ => ?_⟩
      rw [wpx_bind, wpx_snap]
      exact ⟨trivial, fun _ _ => release_wiring (hend _) fun e => herr e _⟩

theorem main_wiring : wp (wiring E) (mainTask E).toTask (fun _ _ => True) (Wiring.init .main) := by
  have hbind : ∀ g, wpx (wiring E) (ask (Prog.call (R := Answer) .bindSocket) id)
      (fun _ _ => True) (fun _ _ => True) g := fun g =>
    wpx_ask.mpr ⟨trivial, fun r _ => by cases r <;> trivial⟩
  have hfill : ∀ g, wpx (wiring E) (fillPool E E.cfg.poolSize) (fun _ g => wpx (wiring E)
      (ask (Prog.call (R := Answer) .bindSocket) id) (fun _ _ => True) (fun _ _ => True) g)
      (fun _ _ => True) g := fun g => wpx_mono (fillPool_wiring _) (fun _ g _ => hbind g) fun _ _ h => h
  refine wp_toTask ?_
  unfold mainTask initializePool
  rw [wpx_bind, wpx_bind, wpx_host]
  refine ⟨trivial, fun b _ => ?_⟩
  cases b with
  | true => exact hfill _
  | false => exact wpx_bind.mpr (createBaseSnapshot_wiring (hfill _) fun _ => trivial)

theorem replenish_wiring : wp (wiring E) (replenishTask E).toTask (fun _ _ => True)
    (Wiring.init .replenish) := by
  refine wp_toTask ?_
  unfold replenishTask replenishOne
  rw [wpx_bind, wpx_tell]
  refine ⟨trivial, fun _ _ => ?_⟩
  rw [wpx_bind, wpx_pool]
  refine ⟨trivial, fun n _ => ?_⟩
  split
  · trivial
  · refine wpx_bind.mpr (wpx_attempt_any (restoreOne_wiring (fun vm hvm => ?_) fun e q => ⟨trivial, trivial⟩))
    exact wpx_pool.mpr ⟨hvm, fun _ _ => trivial⟩

theorem body_wiring (t : Task) : wp (wiring E) (t.body E) (fun _ _ => True) (Wiring.init t) := by
  cases t with
  | main => exact main_wiring
  | request r =>
    refine wp_toTask (wpx_bind.mpr (handle_wiring rfl (fun resp g => ?_) fun _ _ => trivial))
    exact wpx_tell.mpr ⟨trivial, fun _ _ => trivial⟩
  | replenish => exact replenish_wiring
  | shadow key erofs => exact shadow_wiring key erofs
  | touch f t => exact ⟨trivial, fun _ _ => trivial⟩

end Tasks

end CloudHv.Daemon
