import CloudHv.Daemon.Wiring

/-!
# Dealing — the VM a task deals with

A task of the daemon takes up one VM after the other until it is connected to a guest, and stays with the VM of
that guest then.  `Dealing` is what a task has done so far: the state directory of its VM, the process that its
agent connection reaches, and the container it ran there.  The requirements say that a request that names a VM
works on that VM, that all calls go where the task's VM is, and that the answer tells what came of it.
-/

namespace CloudHv.Daemon

open Conc
open Agent (CreateRequest)

/-! ### What a task is asked for -/

/-- The VM that a request names. -/
def Task.vm : Task → Option String
  | .request (.addContainer req) => some req.vmId
  | .request (.killContainer vm _ _) | .request (.waitContainer vm _) | .request (.deleteContainer vm _) => some vm
  | _ => none

/-- A container on an image that the host plugs. -/
def plainRun (id : String) (config : List UInt8) : CreateRequest where
  containerId := id
  volumes := []
  configJson := config
  rootfsPreattached := false
  erofsLayers := 1

/-- The container that a task is to run. -/
def Task.asked (E : Env) : Task → Option CreateRequest
  | .request (.acquireSandbox req) =>
    if req.erofsPath ≠ "" ∧ req.containerId ≠ "" then some (plainRun req.containerId (ociConfig E req.configJson)) else none
  | .request (.addContainer req) => some (plainRun req.containerId (ociConfig E req.configJson))
  | .shadow key _ => some (plainRun (shadowContainerId key) [0x7b, 0x7d])
  | _ => none

/-- The answers that a request can get. -/
def Request.admits : Request → Response → Bool
  | _, .plain (.error _) => true
  | .acquireSandbox _, .acquired _ => true
  | .addContainer _, .plain (.added _) => true
  | .releaseSandbox _, .plain .ok | .killContainer _ _ _, .plain .ok | .deleteContainer _ _, .plain .ok => true
  | .waitContainer _ _, .plain (.waited _ _ _) => true
  | .status, .plain (.status _ _ _ _) => true
  | _, _ => false

def Task.admits : Task → Response → Bool
  | .request r, resp => r.admits resp
  | _, _ => false

/-- `home` is the state directory of the VM that the task took up last. -/
structure Dealing where
  task : Task
  home : Option Path
  conn : Option ℕ
  ran : Option (CreateRequest × Except String ℕ)

namespace Dealing

def init (t : Task) : Dealing := ⟨t, none, none, none⟩

def upd (E : Env) (g : Dealing) : (a : Action) → Answer a → Dealing
  | .pool .readyPop, r =>
    match r with
    | some vm => { g with home := some (E.cfg.vmDir vm.vmId) }
    | none => g
  | .pool (.activeGet id), _ => { g with home := some (E.cfg.vmDir id) }
  | .agentsGet id, r => { g with home := some (E.cfg.vmDir id), conn := r }
  | .host (.spawnCh dir), _ => { g with home := some dir }
  | .host (.connectAgent _), r =>
    match r with
    | .ok pid => { g with conn := some pid }
    | .error _ => g
  | .host (.runContainer _ req), r => { g with ran := some (req, r.result) }
  | _, _ => g

/-- No container was started. -/
def Unstarted (g : Dealing) : Prop := ∀ req pid, g.ran ≠ some (req, .ok pid)

/-- The container that was asked for runs with the pid. -/
def Started (E : Env) (g : Dealing) (pid : ℕ) : Prop := g.ran = (g.task.asked E).map fun req => (req, .ok pid)

/-- The answer tells what came of the task: a warm VM runs no container of the request's, and an error tells that
nothing was started. -/
def Tells (E : Env) (g : Dealing) : Response → Prop
  | .acquired a => g.home = some (E.cfg.vmDir a.vmId) ∧ (if a.fromSnapshot then g.ran = none else g.Started E a.containerPid) ∧
    (g.ran = none → a.containerPid = 0)
  | .plain (.added pid) => g.Started E pid
  | .plain _ => g.Unstarted

def Answers (E : Env) (g : Dealing) (resp : Response) : Prop := g.task.admits resp = true ∧ g.Tells E resp

theorem unstarted_of_none {g : Dealing} (h : g.ran = none) : g.Unstarted := fun req pid hr => by
  rw [h] at hr
  cases hr

theorem refused {E : Env} {g : Dealing} {r : Request} {msg : String} (ht : g.task = .request r) (hg : g.Unstarted) :
    g.Answers E (.plain (.error msg)) := by
  refine ⟨?_, hg⟩
  rw [ht]
  cases r <;> rfl

/-- Answers that tell of no container. -/
theorem quiet {E : Env} {g : Dealing} {r : Request} {p : Plain} (ht : g.task = .request r) (hg : g.ran = none)
    (hr : r.admits (.plain p) = true) (hp : ∀ pid, p ≠ .added pid) : g.Answers E (.plain p) := by
  refine ⟨?_, ?_⟩
  · rw [ht]
    exact hr
  · cases p with
    | added pid => exact absurd rfl (hp pid)
    | _ => exact unstarted_of_none hg

/-- The VM that a step takes up is the one that is named. -/
def Free (g : Dealing) (id : String) : Prop := (∀ v, g.task.vm = some v → v = id) ∧ g.conn = none

/-- A vsock socket is made beside the API socket. -/
def Beside (sock : Path) : ApiCall → Prop
  | .create _ _ vsock => vsock.dropLast = sock.dropLast
  | .restore p => p.vsockSocket.dropLast = sock.dropLast
  | _ => True

def req (E : Env) (g : Dealing) : Action → Prop
  | .pool .readyPop | .host (.spawnCh _) => g.task.vm = none ∧ g.conn = none
  | .pool (.activeGet id) | .agentsGet id => g.Free id
  | .pool (.readyPush vm) | .pool (.activeInsert vm) => Placed E vm
  | .host (.api sock call) => g.home = some sock.dropLast ∧ Beside sock call
  | .host (.addDisk sock _) => g.home = some sock.dropLast
  | .host (.connectAgent vsock) => g.home = some vsock.dropLast ∧ g.conn = none
  | .host (.configureNetwork pid _ _ _) | .host (.killContainer pid _ _) | .host (.waitContainer pid _)
  | .host (.deleteContainer pid _) => g.conn = some pid
  | .host (.runContainer pid req) => g.conn = some pid ∧ g.ran = none ∧ g.task.asked E = some req
  | .agentsInsert id pid => g.home = some (E.cfg.vmDir id) ∧ g.conn = some pid
  | .reply resp => g.Answers E resp
  | _ => True

def may (E : Env) (_ : Dealing) : (a : Action) → Answer a → Prop
  | .host (.prepareSnapshot _ _ _ vsock), r => ∀ p, r = .ok p → p.vsockSocket = vsock
  | .pool .readyPop, r => ∀ vm, r = some vm → Placed E vm
  | .pool (.activeGet id), r => ∀ vm, r = some vm → vm.vmId = id ∧ Placed E vm
  | _, _ => True

/-- The task `T` is not connected yet. -/
def Idle (T : Task) (g : Dealing) : Prop := g.task = T ∧ g.conn = none ∧ g.ran = none

/-- The task `T` works in the directory `d`, and has run nothing. -/
def Within (T : Task) (d : Path) (g : Dealing) : Prop := g.task = T ∧ g.home = some d ∧ g.ran = none

end Dealing

def dealing (E : Env) : Discipline Action Answer Dealing := ⟨Dealing.upd E, Dealing.req E, Dealing.may E⟩

section Tasks

variable {E : Env} {T : Task} {g : Dealing} {d : Path}

/-- The kinds of action that dealing is about. -/
def dealingKinds : List Kind :=
  [.pop, .lookup, .push, .active, .registry, .spawn, .ch, .disk, .agent, .configure, .container, .reply]

theorem dealing_plain {a : Action} (h : a.kind ∉ dealingKinds) :
    (dealing E).req g a ∧ ∀ r, (dealing E).may g a r → (dealing E).upd g a r = g := by
  cases a with
  | pool b => cases b <;> first | exact ⟨trivial, fun _ _ => rfl⟩ | exact absurd (List.elem_iff.mp rfl) h
  | host b => cases b <;> first | exact ⟨trivial, fun _ _ => rfl⟩ | exact absurd (List.elem_iff.mp rfl) h
  | agentsGet id => exact absurd (List.elem_iff.mp rfl) h
  | agentsInsert id pid => exact absurd (List.elem_iff.mp rfl) h
  | reply r => exact absurd (List.elem_iff.mp rfl) h
  | _ => exact ⟨trivial, fun _ _ => rfl⟩

theorem uses_dealing {α : Type} {ks : List Kind} {m : M α} {Q : α → Dealing → Prop} {F : Fail → Dealing → Prop}
    (h : Uses ks m) (hk : ks.all (fun k => !dealingKinds.elem k) = true) (hQ : ∀ x, Q x g) (hF : ∀ e, F e g) :
    wpx (dealing E) m Q F g := by
  refine Only.wp h (fun a ha => dealing_plain fun hm => ?_) fun r => ?_
  · have hn := List.all_eq_true.mp hk _ ha
    rw [List.elem_iff.mpr hm] at hn
    cases hn
  · cases r with
    | ok x => exact hQ x
    | error e => exact hF e

/-! ### The parts -/

section Parts

variable {F : Fail → Dealing → Prop}

theorem apiRequest_dealing {sock : Path} {call : ApiCall} {Q : Unit → Dealing → Prop}
    (hreq : g.home = some sock.dropLast ∧ Dealing.Beside sock call) (hQ : Q () g) (hF : ∀ e, F e g) :
    wpx (dealing E) (apiRequest sock call) Q F g := by
  refine wpx_ask.mpr (wp_onHost.mpr ⟨hreq, fun r _ => ?_⟩)
  cases r with
  | ok u => exact hQ
  | error e => exact hF _

theorem waitChReady_dealing {sock : Path} {Q : Unit → Dealing → Prop} (hQ : Q () g) (hF : ∀ e, F e g) :
    wpx (dealing E) (waitChReady sock) Q F g := by
  unfold waitChReady
  rw [wpx_bind, wpx_host]
  refine ⟨trivial, fun b _ => ?_⟩
  cases b with
  | true => exact hQ
  | false => exact hF _

theorem waitForAgent_dealing {vsock : Path} {Q : Unit → Dealing → Prop} (hQ : Q () g) (hF : ∀ e, F e g) :
    wpx (dealing E) (waitForAgent vsock) Q F g := by
  unfold waitForAgent
  rw [wpx_bind, wpx_host]
  refine ⟨trivial, fun b _ => ?_⟩
  cases b with
  | true => exact hQ
  | false => exact hF _

theorem connectAgent_dealing {vsock : Path} {Q : ℕ → Dealing → Prop}
    (hreq : g.home = some vsock.dropLast ∧ g.conn = none) (hQ : ∀ pid, Q pid { g with conn := some pid })
    (hF : ∀ e, F e g) : wpx (dealing E) (connectAgent vsock) Q F g := by
  refine wpx_ask.mpr (wp_onHost.mpr ⟨hreq, fun r _ => ?_⟩)
  cases r with
  | ok pid => exact hQ pid
  | error e => exact hF _

theorem prepareSnapshot_dealing {base dir vsock : Path} {cid : ℕ} {Q : Prepared → Dealing → Prop}
    (hQ : ∀ p : Prepared, p.vsockSocket = vsock → Q p g) (hF : ∀ e, F e g) :
    wpx (dealing E) (prepareSnapshot base dir cid vsock) Q F g := by
  refine wpx_ask.mpr (wp_onHost.mpr ⟨trivial, fun r hm => ?_⟩)
  cases r with
  | ok p => exact hQ p (hm p rfl)
  | error e => exact hF _

theorem spawnCh_dealing {Q : ℕ → Dealing → Prop} (hreq : g.task.vm = none ∧ g.conn = none)
    (hQ : ∀ pid, Q pid { g with home := some d }) (hF : ∀ e, F e { g with home := some d }) :
    wpx (dealing E) (spawnCh d) Q F g := by
  unfold spawnCh
  rw [wpx_bind]
  refine wpx_ask.mpr (wp_onHost.mpr ⟨hreq, fun r _ => ?_⟩)
  cases r with
  | error e => exact hF _
  | ok pid =>
    show wpx (dealing E) (ask (onHost (.writePid d pid)) id >>= _) Q F { g with home := some d }
    exact wpx_bind.mpr (uses_dealing (.ask (Uses.onHost rfl) : Uses [.pidFile] _) rfl (fun _ => hQ pid) hF)

theorem configureGuestNetwork_dealing {conn : ℕ} {ip gw : String} {Q : Unit → Dealing → Prop}
    (hreq : g.conn = some conn) (hQ : Q () g) (hF : ∀ e, F e g) :
    wpx (dealing E) (configureGuestNetwork conn ip gw) Q F g := by
  refine wpx_ask.mpr (wp_onHost.mpr ⟨hreq, fun r _ => ?_⟩)
  cases r with
  | ok u => exact hQ
  | error e => exact hF _

theorem runContainerRpc_dealing {conn : ℕ} {req : CreateRequest} {ctx : String} {Q : ℕ → Dealing → Prop}
    (hreq : g.conn = some conn ∧ g.ran = none ∧ g.task.asked E = some req)
    (hQ : ∀ pid, Q pid { g with ran := some (req, .ok pid) })
    (hF : ∀ e s, F e { g with ran := some (req, .error s) }) :
    wpx (dealing E) (runContainerRpc conn req ctx) Q F g := by
  refine wpx_ask.mpr (wp_bind.mpr (wp_onHost.mpr ⟨hreq, fun r _ => ?_⟩))
  obtain ⟨res, mounted⟩ := r
  cases res with
  | ok pid => exact hQ pid
  | error s => exact hF _ s

theorem registerActive_dealing {vm : PoolVm} {Q : Unit → Dealing → Prop} (hvm : Placed E vm) (hQ : Q () g) :
    wpx (dealing E) (registerActive vm) Q F g := by
  unfold registerActive
  rw [wpx_bind, wpx_pool]
  exact ⟨trivial, fun _ _ => wpx_pool.mpr ⟨hvm, fun _ _ => hQ⟩⟩

theorem release_dealing {id : String} {Q : Unit → Dealing → Prop} (hQ : Q () g) (hF : ∀ e, F e g) :
    wpx (dealing E) (release E id) Q F g := by
  unfold release
  rw [wpx_bind, wpx_pool]
  refine ⟨trivial, fun r _ => ?_⟩
  have hd : wpx (dealing E) (destroyVm E id) Q F g := uses_dealing (destroyVm_uses E id) rfl (fun _ => hQ) hF
  cases r with
  | some vm => exact wpx_bind.mpr (wpx_pool.mpr ⟨trivial, fun _ _ => hd⟩)
  | none => exact hd

end Parts

/-! ### New VMs -/

theorem Dealing.Idle.within (hg : g.Idle T) (d : Path) : Dealing.Within T d { g with home := some d } :=
  ⟨hg.1, rfl, hg.2.2⟩

theorem Dealing.Idle.settle (hg : g.Idle T) (d : Path) : Dealing.Idle T { g with home := some d } := hg

/-- A VM that was just made, or taken from the pool, is the one that is dealt with. -/
def TakenUp (E : Env) (T : Task) (vm : PoolVm) (g : Dealing) : Prop :=
  Placed E vm ∧ g.Idle T ∧ g.home = some (E.cfg.vmDir vm.vmId)

theorem restoreOne_dealing (hg : g.Idle T) (hT : T.vm = none) :
    wpx (dealing E) (restoreOne E) (TakenUp E T) (fun _ g' => g'.Idle T) g := by
  have hfree : g.task.vm = none ∧ g.conn = none := ⟨by rw [hg.1, hT], hg.2.1⟩
  unfold restoreOne
  rw [wpx_bind, wpx_pool]
  refine ⟨trivial, fun n _ => ?_⟩
  rw [wpx_bind, wpx_pool]
  refine ⟨trivial, fun cid _ => ?_⟩
  refine wpx_bind.mpr (uses_dealing (createDirAll_strict _).uses rfl (fun _ => ?_) fun _ => hg)
  refine wpx_bind.mpr (prepareSnapshot_dealing (fun prepared hp => ?_) fun _ => hg)
  refine wpx_bind.mpr (spawnCh_dealing hfree (fun pid => ?_) fun _ => hg.settle _)
  refine wpx_bind.mpr (waitChReady_dealing ?_ fun _ => hg.settle _)
  refine wpx_bind.mpr (apiRequest_dealing ⟨?_, ?_⟩ ?_ fun _ => hg.settle _)
  · rw [List.dropLast_concat]
  · show prepared.vsockSocket.dropLast = _
    rw [hp, List.dropLast_concat, List.dropLast_concat]
  refine wpx_bind.mpr (apiRequest_dealing ⟨?_, trivial⟩ ?_ fun _ => hg.settle _)
  · rw [List.dropLast_concat]
  rw [wpx_bind, wpx_context]
  exact waitForAgent_dealing ⟨⟨List.dropLast_concat, List.dropLast_concat⟩, hg.settle _, rfl⟩ fun _ => hg.settle _

theorem createBaseSnapshot_dealing {base : Path} (hg : g.Idle T) (hT : T.vm = none) :
    wpx (dealing E) (createBaseSnapshot E base) (fun _ g' => g'.Idle T) (fun _ _ => True) g := by
  have hfree : g.task.vm = none ∧ g.conn = none := ⟨by rw [hg.1, hT], hg.2.1⟩
  unfold createBaseSnapshot
  refine wpx_bind.mpr (uses_dealing (createDirAll_strict _).uses rfl (fun _ => ?_) fun _ => trivial)
  rw [wpx_bind, wpx_pool]
  refine ⟨trivial, fun cid _ => ?_⟩
  refine wpx_bind.mpr (uses_dealing (createDirAll_strict _).uses rfl (fun _ => ?_) fun _ => trivial)
  rw [wpx_bind, wpx_context]
  unfold bootVm
  refine wpx_bind.mpr (spawnCh_dealing hfree (fun pid => ?_) fun _ => trivial)
  refine wpx_bind.mpr (waitChReady_dealing ?_ fun _ => trivial)
  refine wpx_bind.mpr (uses_dealing (.ask (Uses.onHost rfl) : Uses [.file] _) rfl (fun _ => ?_) fun _ => trivial)
  refine wpx_bind.mpr (apiRequest_dealing ⟨?_, ?_⟩ ?_ fun _ => trivial)
  · rw [List.dropLast_concat]
  · show (_ ++ ["vsock.sock"] : Path).dropLast = _
    rw [List.dropLast_concat, List.dropLast_concat]
  refine wpx_bind.mpr (apiRequest_dealing ⟨?_, trivial⟩ ?_ fun _ => trivial)
  · rw [List.dropLast_concat]
  refine wpx_bind.mpr (uses_dealing (.ask (Uses.onHost rfl) : Uses [.pidFile] _) rfl (fun _ => ?_) fun _ => trivial)
  show wpx (dealing E) (context (waitForAgent _) _ >>= _) _ _ _
  rw [wpx_bind, wpx_context]
  refine waitForAgent_dealing ?_ fun _ => trivial
  refine wpx_bind.mpr (apiRequest_dealing ⟨?_, trivial⟩ ?_ fun _ => trivial)
  · rw [List.dropLast_concat]
  refine wpx_bind.mpr (apiRequest_dealing ⟨?_, trivial⟩ ?_ fun _ => trivial)
  · rw [List.dropLast_concat]
  exact uses_dealing (shutdownAndDestroy_uses _ _) rfl (fun _ => hg.settle _) fun _ => trivial

theorem fillPool_dealing (hT : T.vm = none) : ∀ (k : ℕ) (g : Dealing), g.Idle T →
    wpx (dealing E) (fillPool E k) (fun _ _ => True) (fun _ _ => True) g
  | 0, _, _ => trivial
  | k + 1, g, hg => by
    unfold fillPool
    rw [wpx_bind, wpx_attempt]
    refine wpx_mono (restoreOne_dealing hg hT) (fun vm g' h => ?_) fun e g' h => ?_
    · rw [wpx_bind, wpx_pool]
      exact ⟨h.1, fun _ _ => fillPool_dealing hT k g' h.2.1⟩
    · cases e with
      | err e => exact fillPool_dealing hT k g' h
      | panic => trivial

theorem acquire_dealing (hg : g.Idle T) (hT : T.vm = none) :
    wpx (dealing E) (acquire E) (TakenUp E T) (fun _ g' => g'.Idle T) g := by
  unfold acquire
  rw [wpx_bind, wpx_pool]
  refine ⟨⟨by rw [hg.1, hT], hg.2.1⟩, fun r hm => ?_⟩
  cases r with
  | some vm => exact wpx_bind.mpr (registerActive_dealing (hm vm rfl) ⟨hm vm rfl, hg.settle _, rfl⟩)
  | none =>
    refine wpx_bind.mpr (wpx_mono (restoreOne_dealing hg hT) (fun vm g' h => ?_) fun _ _ h => h)
    exact wpx_bind.mpr (registerActive_dealing h.1 h)

/-! ### Containers -/

/-- A task that has the connection of its VM, and has run nothing. -/
def Connected (T : Task) (d : Path) (conn : ℕ) (g : Dealing) : Prop := g.Within T d ∧ g.conn = some conn

/-- What a task that came to nothing leaves. -/
def Stopped (T : Task) (d : Path) (g : Dealing) : Prop := g.task = T ∧ g.home = some d ∧ g.Unstarted

theorem Dealing.Within.stopped (hg : g.Within T d) : Stopped T d g :=
  ⟨hg.1, hg.2.1, Dealing.unstarted_of_none hg.2.2⟩

/-- The VM of the id, whether its connection is taken from the registry or made. -/
theorem agentFor_dealing {p : RunContainerParams} (hg : g.Idle T) (hhome : g.home = some (E.cfg.vmDir p.vmId))
    (hvm : ∀ v, T.vm = some v → v = p.vmId) (hvsock : p.vsockSocket.dropLast = E.cfg.vmDir p.vmId) :
    wpx (dealing E) (agentFor p) (fun conn g' => Connected T (E.cfg.vmDir p.vmId) conn g')
      (fun _ g' => Stopped T (E.cfg.vmDir p.vmId) g') g := by
  have hin : g.Within T (E.cfg.vmDir p.vmId) := ⟨hg.1, hhome, hg.2.2⟩
  unfold agentFor
  rw [wpx_bind, wpx_tell]
  refine ⟨⟨fun v hv => hvm v (by rwa [← hg.1]), hg.2.1⟩, fun r _ => ?_⟩
  cases r with
  | some conn => exact ⟨⟨hg.1, rfl, hg.2.2⟩, rfl⟩
  | none =>
    show wpx (dealing E) (context (connectAgent p.vsockSocket) _ >>= _) _ _ _
    rw [wpx_bind, wpx_context]
    refine connectAgent_dealing ⟨?_, rfl⟩ (fun conn => ?_) fun e => ?_
    · show some _ = some _
      rw [hvsock]
    · rw [wpx_bind, wpx_tell]
      exact ⟨⟨rfl, rfl⟩, fun _ _ => ⟨⟨hg.1, rfl, hg.2.2⟩, rfl⟩⟩
    · exact Dealing.Within.stopped ⟨hg.1, rfl, hg.2.2⟩

theorem runContainerInVm_dealing {p : RunContainerParams} (hg : g.Idle T)
    (hhome : g.home = some (E.cfg.vmDir p.vmId)) (hvm : ∀ v, T.vm = some v → v = p.vmId)
    (hapi : p.apiSocket.dropLast = E.cfg.vmDir p.vmId) (hvsock : p.vsockSocket.dropLast = E.cfg.vmDir p.vmId)
    (hask : T.asked E = some (plainRun p.containerId (ociConfig E p.configJsonB64))) :
    wpx (dealing E) (runContainerInVm E p)
      (fun r g' => g'.task = T ∧ g'.home = some (E.cfg.vmDir p.vmId) ∧ g'.Started E r.1 ∧ g'.ran ≠ none)
      (fun _ g' => Stopped T (E.cfg.vmDir p.vmId) g') g := by
  have hstop : Stopped T (E.cfg.vmDir p.vmId) g := Dealing.Within.stopped ⟨hg.1, hhome, hg.2.2⟩
  unfold runContainerInVm
  refine wpx_bind.mpr (uses_dealing (setupNetwork_strict p).uses rfl (fun net => ?_) fun _ => hstop)
  obtain ⟨tap, net⟩ := net
  refine wpx_bind.mpr (uses_dealing (slice_strict _ _).uses rfl (fun short => ?_) fun _ => hstop)
  rw [wpx_bind, wpx_context]
  refine wpx_ask.mpr (wp_onHost.mpr ⟨?_, fun r _ => ?_⟩)
  · show g.home = some _
    rw [hhome, hapi]
  cases r with
  | error e => exact hstop
  | ok disk =>
    refine wpx_bind.mpr (wpx_mono (agentFor_dealing hg hhome hvm hvsock) (fun conn g' h => ?_) fun _ _ h => h)
    obtain ⟨hin, hconn⟩ := h
    have hrun : wpx (dealing E) (runContainerRpc conn
        { containerId := p.containerId, volumes := [], configJson := ociConfig E p.configJsonB64,
          rootfsPreattached := false, erofsLayers := 1 } "RunContainer" >>= fun pid => pure (pid, tap))
        (fun r g' => g'.task = T ∧ g'.home = some (E.cfg.vmDir p.vmId) ∧ g'.Started E r.1 ∧ g'.ran ≠ none)
        (fun _ g' => Stopped T (E.cfg.vmDir p.vmId) g') g' := by
      have hask' : g'.task.asked E = some (plainRun p.containerId (ociConfig E p.configJsonB64)) := by rw [hin.1, hask]
      refine wpx_bind.mpr (runContainerRpc_dealing ⟨hconn, hin.2.2, hask'⟩ (fun pid => ?_) fun e s => ?_)
      · refine ⟨hin.1, hin.2.1, ?_, fun h => (by cases h)⟩
        show some _ = (g'.task.asked E).map _
        rw [hask']
        rfl
      · exact ⟨hin.1, hin.2.1, fun req pid h => (by cases h)⟩
    cases net with
    | none => exact hrun
    | some info =>
      show wpx (dealing E) (context (configureGuestNetwork conn info.ipCidr info.gateway) _ >>= _) _ _ _
      rw [wpx_bind, wpx_context]
      exact configureGuestNetwork_dealing hconn hrun fun _ => hin.stopped

/-! ### Handlers and tasks -/

/-- The network of a warm VM.  The VM that is dealt with stays the same. -/
theorem warmNetwork_dealing {req : AcquireRequest} {id : String} {api : Path} (hg : g.Idle T)
    (hhome : g.home = some (E.cfg.vmDir id)) :
    wpx (dealing E) (warmNetwork req id api (E.cfg.vmDir id ++ ["vsock.sock"]))
      (fun _ g' => g'.Within T (E.cfg.vmDir id)) (fun _ _ => True) g := by
  have hin : g.Within T (E.cfg.vmDir id) := ⟨hg.1, hhome, hg.2.2⟩
  unfold warmNetwork
  split
  · refine wpx_bind.mpr (wpx_attempt_any (uses_dealing (setupVmNetworking_strict _ _ _).uses rfl (fun r => ?_)
      fun e q => ⟨hin, trivial⟩))
    obtain ⟨tap, info⟩ := r
    refine wpx_bind.mpr (wpx_attempt_any (connectAgent_dealing ⟨?_, hg.2.1⟩ (fun conn => ?_)
      fun e q => ⟨hin, trivial⟩))
    · rw [hhome, List.dropLast_concat]
    show wpx (dealing E) (tell (.agentsInsert id conn) >>= _) _ _ _
    rw [wpx_bind, wpx_tell]
    refine ⟨⟨hhome, rfl⟩, fun _ _ => ?_⟩
    exact wpx_bind.mpr (wpx_attempt_any (configureGuestNetwork_dealing rfl hin fun e q => ⟨hin, trivial⟩))
  · exact hin

theorem restoreFromSnapshot_dealing {key : String} {cid : ℕ} (hg : g.Idle T) (hT : T.vm = none) :
    wpx (dealing E) (restoreFromSnapshot key cid d)
      (fun r g' => r.2 = (d ++ ["api.sock"], d ++ ["vsock.sock"]) ∧ g'.Idle T ∧ g'.home = some d)
      (fun _ g' => g'.Idle T) g := by
  have hfree : g.task.vm = none ∧ g.conn = none := ⟨by rw [hg.1, hT], hg.2.1⟩
  unfold restoreFromSnapshot
  rw [wpx_bind, wpx_snap]
  refine ⟨trivial, fun r _ => ?_⟩
  cases r with
  | none => exact hg
  | some snapDir =>
    refine wpx_bind.mpr (prepareSnapshot_dealing (fun prepared hp => ?_) fun _ => hg)
    refine wpx_bind.mpr (spawnCh_dealing hfree (fun pid => ?_) fun _ => hg.settle _)
    refine wpx_bind.mpr (waitChReady_dealing ?_ fun _ => hg.settle _)
    refine wpx_bind.mpr (apiRequest_dealing ⟨?_, ?_⟩ ?_ fun _ => hg.settle _)
    · rw [List.dropLast_concat]
    · show prepared.vsockSocket.dropLast = _
      rw [hp, List.dropLast_concat, List.dropLast_concat]
    refine wpx_bind.mpr (apiRequest_dealing ⟨?_, trivial⟩ ?_ fun _ => hg.settle _)
    · rw [List.dropLast_concat]
    exact ⟨rfl, hg.settle _, rfl⟩

/-- The warm path answers, or leaves the request to the pool. -/
theorem acquireWarm_dealing {req : AcquireRequest} (hg : g.Idle (.request (.acquireSandbox req))) :
    wpx (dealing E) (acquireWarm E req) (fun r g' => match r with
      | some resp => g'.Answers E resp
      | none => g'.Idle (.request (.acquireSandbox req))) (fun _ _ => True) g := by
  unfold acquireWarm
  rw [wpx_bind, wpx_tell]
  refine ⟨trivial, fun seq _ => ?_⟩
  refine wpx_bind.mpr (wpx_attempt_any (uses_dealing (createDirAll_strict _).uses rfl (fun u => ?_)
    fun e q => ⟨Dealing.refused hg.1 (Dealing.unstarted_of_none hg.2.2), trivial⟩))
  show wpx (dealing E) (pool .cidFetchAdd >>= _) _ _ g
  rw [wpx_bind, wpx_pool]
  refine ⟨trivial, fun cid _ => ?_⟩
  refine wpx_bind.mpr (wpx_attempt_any (wpx_mono (restoreFromSnapshot_dealing hg rfl) (fun r g' h => ?_)
    fun e g' h q => ⟨h, trivial⟩))
  obtain ⟨pid, api, vsock⟩ := r
  obtain ⟨hsock, hidle, hhome⟩ := h
  obtain ⟨rfl, rfl⟩ := Prod.mk.inj hsock
  -- the restored VM is registered once its network is there
  show wpx (dealing E) (warmNetwork req _ _ _ >>= _) _ _ g'
  refine wpx_bind.mpr (wpx_mono (warmNetwork_dealing hidle hhome) (fun r g' h => ?_) fun _ _ h => h)
  cases r with
  | error msg => exact Dealing.refused h.1 h.stopped.2.2
  | ok tap =>
    refine wpx_bind.mpr (registerActive_dealing ⟨List.dropLast_concat, List.dropLast_concat⟩
      ⟨?_, h.2.1, ?_, fun _ => rfl⟩)
    · rw [h.1]
      rfl
    · exact h.2.2

theorem acquirePool_dealing {req : AcquireRequest} (hg : g.Idle (.request (.acquireSandbox req))) :
    wpx (dealing E) (acquirePool E req) (fun resp g' => g'.Answers E resp) (fun _ _ => True) g := by
  unfold acquirePool
  refine wpx_bind.mpr (wpx_attempt_any (wpx_mono (acquire_dealing hg rfl) (fun vm g' h => ?_)
    fun e g' h q => ⟨?_, trivial⟩))
  · obtain ⟨hvm, hidle, hhome⟩ := h
    show wpx (dealing E) (tell .spawnReplenish >>= _) _ _ g'
    rw [wpx_bind, wpx_tell]
    refine ⟨trivial, fun _ _ => ?_⟩
    refine wpx_bind.mpr (uses_dealing (shadowFor_uses req) rfl (fun _ => ?_) fun _ => trivial)
    rw [wpx_bind]
    unfold acquireContainer
    split
    · next hc =>
      refine wpx_attempt_any (wpx_mono (runContainerInVm_dealing hidle hhome (fun v hv => (by cases hv)) hvm.1 hvm.2
        (if_pos hc)) (fun r g' h => ?_) fun e g' h q => ⟨Dealing.refused h.1 h.2.2, trivial⟩)
      obtain ⟨pid, tap⟩ := r
      refine ⟨?_, h.2.1, h.2.2.1, fun hn => absurd hn h.2.2.2⟩
      rw [h.1]
      rfl
    · next hc =>
      refine ⟨?_, hhome, ?_, fun _ => rfl⟩
      · show g'.task.admits _ = true
        rw [hidle.1]
        rfl
      · show g'.ran = (g'.task.asked E).map _
        rw [hidle.1, hidle.2.2, Task.asked, if_neg hc]
        rfl
  · exact Dealing.refused h.1 (Dealing.unstarted_of_none h.2.2)

theorem handleAcquire_dealing {req : AcquireRequest} (hg : g.Idle (.request (.acquireSandbox req))) :
    wpx (dealing E) (handleAcquire E req) (fun resp g' => g'.Answers E resp) (fun _ _ => True) g := by
  unfold handleAcquire
  refine wpx_bind.mpr (uses_dealing (hasWarmSnapshot_uses req) rfl (fun b => ?_) fun _ => trivial)
  split
  · refine wpx_bind.mpr (wpx_mono (acquireWarm_dealing hg) (fun r g' h => ?_) fun _ _ h => h)
    cases r with
    | some resp => exact h
    | none => exact acquirePool_dealing h
  · exact acquirePool_dealing hg

theorem handleAddContainer_dealing {req : AddRequest} (hg : g.Idle (.request (.addContainer req))) :
    wpx (dealing E) (handleAddContainer E req) (fun p g' => g'.Answers E (.plain p)) (fun _ _ => True) g := by
  have hnone : g.Unstarted := Dealing.unstarted_of_none hg.2.2
  unfold handleAddContainer
  split
  · exact Dealing.refused hg.1 hnone
  · rw [wpx_bind, wpx_pool]
    refine ⟨⟨fun v hv => ?_, hg.2.1⟩, fun r hm => ?_⟩
    · rw [hg.1] at hv
      exact (Option.some.inj hv).symm
    cases r with
    | none => exact Dealing.refused hg.1 hnone
    | some vm =>
      obtain ⟨hid, hapi, hvsock⟩ := hm vm rfl
      rw [hid] at hapi hvsock
      refine wpx_bind.mpr (wpx_attempt_any (wpx_mono (runContainerInVm_dealing
        (hg.settle _) rfl (fun v hv => (Option.some.inj hv).symm) hapi hvsock rfl) (fun r g' h => ?_)
        fun e g' h q => ⟨Dealing.refused h.1 h.2.2, trivial⟩))
      obtain ⟨pid, tap⟩ := r
      refine ⟨?_, h.2.2.1⟩
      rw [h.1]
      rfl

/-- The three requests that use a registered connection for one call. -/
theorem registered_dealing {vmId : String} {f : ℕ → M Plain} {p : Plain} (hg : g.Idle T) (hT : T.vm = some vmId)
    (hf : ∀ conn g', g'.task = T → g'.conn = some conn → g'.ran = none →
      wpx (dealing E) (f conn) (fun p g' => g'.Answers E (.plain p)) (fun _ _ => True) g')
    (hp : ∀ g' : Dealing, g'.task = T → g'.ran = none → g'.Answers E (.plain p)) :
    wpx (dealing E) (do
      match ← tell (.agentsGet vmId) with
      | none => pure p
      | some agent => f agent) (fun p g' => g'.Answers E (.plain p)) (fun _ _ => True) g := by
  rw [wpx_bind, wpx_tell]
  refine ⟨⟨fun v hv => ?_, hg.2.1⟩, fun r _ => ?_⟩
  · rw [hg.1, hT] at hv
    exact (Option.some.inj hv).symm
  cases r with
  | none => exact hp _ hg.1 hg.2.2
  | some conn => exact hf conn _ hg.1 rfl hg.2.2

theorem handle_dealing {r : Request} (hg : g.Idle (.request r)) :
    wpx (dealing E) (r.handle E) (fun resp g' => g'.Answers E resp) (fun _ _ => True) g := by
  cases r with
  | acquireSandbox req => exact handleAcquire_dealing hg
  | addContainer req => exact wpx_bind.mpr (handleAddContainer_dealing hg)
  | releaseSandbox id =>
    have hquiet : ∀ p, (Request.releaseSandbox id).admits (.plain p) = true → (∀ pid, p ≠ .added pid) →
        g.Answers E (.plain p) := fun p => Dealing.quiet hg.1 hg.2.2
    refine (wpx_bind (m := handleRelease E id)).mpr ?_
    unfold handleRelease
    split
    · exact hquiet _ rfl fun pid h => (by cases h)
    · rw [wpx_bind, wpx_tell]
      refine ⟨trivial, fun _ _ => ?_⟩
      exact wpx_bind.mpr (wpx_attempt_any (release_dealing (hquiet _ rfl fun pid h => (by cases h))
        fun e q => ⟨hquiet _ rfl fun pid h => (by cases h), trivial⟩))
  | killContainer vm ctr sig =>
    refine (wpx_bind (m := handleKillContainer vm ctr sig)).mpr (registered_dealing hg rfl (fun conn g' ht hc hr => ?_)
      fun g' ht hr => Dealing.refused ht (Dealing.unstarted_of_none hr))
    rw [wpx_bind, wpx_host]
    refine ⟨hc, fun r _ => ?_⟩
    cases r with
    | ok u => exact Dealing.quiet ht hr rfl fun pid h => (by cases h)
    | error e => exact Dealing.refused ht (Dealing.unstarted_of_none hr)
  | waitContainer vm ctr =>
    refine (wpx_bind (m := handleWaitContainer vm ctr)).mpr (registered_dealing hg rfl (fun conn g' ht hc hr => ?_)
      fun g' ht hr => Dealing.refused ht (Dealing.unstarted_of_none hr))
    rw [wpx_bind, wpx_host]
    refine ⟨hc, fun r _ => ?_⟩
    cases r with
    | ok s => exact Dealing.quiet ht hr rfl fun pid h => (by cases h)
    | error e => exact Dealing.quiet ht hr rfl fun pid h => (by cases h)
  | deleteContainer vm ctr =>
    refine (wpx_bind (m := handleDeleteContainer vm ctr)).mpr (registered_dealing hg rfl (fun conn g' ht hc hr => ?_)
      fun g' ht hr => Dealing.quiet ht hr rfl fun pid h => (by cases h))
    rw [wpx_bind, wpx_host]
    exact ⟨hc, fun r _ => Dealing.quiet ht hr rfl fun pid h => (by cases h)⟩
  | status =>
    refine (wpx_bind (m := handleStatus)).mpr ?_
    unfold handleStatus
    rw [wpx_bind, wpx_pool]
    refine ⟨trivial, fun _ _ => ?_⟩
    rw [wpx_bind, wpx_pool]
    refine ⟨trivial, fun _ _ => ?_⟩
    rw [wpx_bind, wpx_snap]
    refine ⟨trivial, fun _ _ => ?_⟩
    rw [wpx_bind, wpx_snap]
    exact ⟨trivial, fun _ _ => Dealing.quiet hg.1 hg.2.2 rfl fun pid h => (by cases h)⟩
  | unknown m => exact Dealing.refused hg.1 (Dealing.unstarted_of_none hg.2.2)

theorem shadow_dealing (key erofs : String) : wp (dealing E) (shadowTask E key erofs).toTask
    (fun _ _ => True) (Dealing.init (.shadow key erofs)) := by
  have hidle : Dealing.Idle (.shadow key erofs) (Dealing.init (.shadow key erofs)) := ⟨rfl, rfl, rfl⟩
  refine wp_toTask ?_
  unfold shadowTask
  have hend : ∀ g, wpx (dealing E) (snap (.shadowsRemove key)) (fun _ _ => True) (fun _ _ => True) g :=
    fun g => wpx_snap.mpr ⟨trivial, fun _ _ => trivial⟩
  refine wpx_bind.mpr (wpx_attempt_any ?_)
  have herr : ∀ (e : Fail) (g : Dealing) (q : Agent.Err), wpx (dealing E) (snap (.shadowsRemove key))
      (fun _ _ => True) (fun _ _ => True) g ∧ True := fun e g q => ⟨hend g, trivial⟩
  unfold runShadow
  refine wpx_bind.mpr (uses_dealing (createDirAll_strict _).uses rfl (fun _ => ?_) fun e => herr e _)
  rw [wpx_bind, wpx_context]
  refine wpx_mono (acquire_dealing hidle rfl) (fun vm g h => ?_) (fun e g _ => herr e g)
  obtain ⟨hvm, hg, hhome⟩ := h
  have hapi : g.home = some vm.apiSocket.dropLast := by rw [hhome, hvm.1]
  rw [wpx_bind, wpx_context]
  refine wpx_ask.mpr (wp_onHost.mpr ⟨hapi, fun r _ => ?_⟩)
  cases r with
  | error e => exact herr (.err []) _
  | ok disk =>
    refine wpx_bind.mpr (connectAgent_dealing ⟨?_, hg.2.1⟩ (fun conn => ?_) fun e => herr e _)
    · show g.home = _
      rw [hhome, hvm.2]
    refine wpx_bind.mpr (runContainerRpc_dealing ⟨rfl, hg.2.2, ?_⟩ (fun p => ?_) fun e s => herr e _)
    · show g.task.asked E = _
      rw [hg.1]
      rfl
    show wpx (dealing E) (tell (.sleep _) >>= _) _ _ _
    rw [wpx_bind, wpx_tell]
    refine ⟨trivial, fun _ _ => ?_⟩
    refine wpx_bind.mpr (uses_dealing (createDirAll_strict _).uses rfl (fun _ => ?_) fun e => herr e _)
    refine wpx_bind.mpr (apiRequest_dealing ⟨hapi, trivial⟩ ?_ fun e => herr e _)
    refine wpx_bind.mpr (apiRequest_dealing ⟨hapi, trivial⟩ ?_ fun e => herr e _)
    refine wpx_bind.mpr (uses_dealing (.ask (Uses.onHost rfl) : Uses [.file] _) rfl (fun _ => ?_) fun e => herr e _)
    rw [wpx_bind, wpx_host]
    refine ⟨trivial, fun mtime _ => ?_⟩
    rw [wpx_bind, wpx_snap]
    exact ⟨trivial, fun _ _ => release_dealing (hend _) fun e => herr e _⟩

theorem main_dealing : wp (dealing E) (mainTask E).toTask (fun _ _ => True) (Dealing.init .main) := by
  have hidle : Dealing.Idle .main (Dealing.init .main) := ⟨rfl, rfl, rfl⟩
  have hbind : ∀ g, wpx (dealing E) (ask (Prog.call (R := Answer) .bindSocket) id)
      (fun _ _ => True) (fun _ _ => True) g := fun g =>
    wpx_ask.mpr ⟨trivial, fun r _ => by cases r <;> trivial⟩
  have hfill : ∀ g : Dealing, g.Idle .main → wpx (dealing E) (fillPool E E.cfg.poolSize)
      (fun _ g => wpx (dealing E) (ask (Prog.call (R := Answer) .bindSocket) id) (fun _ _ => True) (fun _ _ => True) g)
      (fun _ _ => True) g := fun g hg => wpx_mono (fillPool_dealing rfl _ g hg) (fun _ g _ => hbind g) fun _ _ h => h
  refine wp_toTask ?_
  unfold mainTask initializePool
  rw [wpx_bind, wpx_bind, wpx_host]
  refine ⟨trivial, fun b _ => ?_⟩
  cases b with
  | true => exact hfill _ hidle
  | false =>
    exact wpx_bind.mpr (wpx_mono (createBaseSnapshot_dealing hidle rfl) (fun _ g hg => hfill g hg) fun _ _ h => h)

theorem replenish_dealing : wp (dealing E) (replenishTask E).toTask (fun _ _ => True)
    (Dealing.init .replenish) := by
  refine wp_toTask ?_
  unfold replenishTask replenishOne
  rw [wpx_bind, wpx_tell]
  refine ⟨trivial, fun _ _ => ?_⟩
  rw [wpx_bind, wpx_pool]
  refine ⟨trivial, fun n _ => ?_⟩
  split
  · trivial
  · refine wpx_bind.mpr (wpx_attempt_any (wpx_mono (restoreOne_dealing (T := .replenish) ⟨rfl, rfl, rfl⟩ rfl)
      (fun vm g h => ?_) fun e g h q => ⟨trivial, trivial⟩))
    exact wpx_pool.mpr ⟨h.1, fun _ _ => trivial⟩

theorem body_dealing (t : Task) : wp (dealing E) (t.body E) (fun _ _ => True) (Dealing.init t) := by
  cases t with
  | main => exact main_dealing
  | request r =>
    refine wp_toTask (wpx_bind.mpr (wpx_mono (handle_dealing ⟨rfl, rfl, rfl⟩) (fun resp g h => ?_) fun _ _ _ => trivial))
    exact wpx_tell.mpr ⟨h, fun _ _ => trivial⟩
  | replenish => exact replenish_dealing
  | shadow key erofs => exact shadow_dealing key erofs
  | touch f t => exact ⟨trivial, fun _ _ => trivial⟩

end Tasks

end CloudHv.Daemon
