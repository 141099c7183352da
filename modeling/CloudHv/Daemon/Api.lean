import CloudHv.Daemon.Pool

/-!
# Api — the request handlers and the daemon as a system of tasks

The handlers of `crates/daemon/src/api.rs` and `main.rs`.  A request is its fields with the handler's
defaults already in place.  The daemon starts with its main task, which fills the pool and then
listens; requests come in once it does, and acquires spawn replenish and shadow tasks.
-/

namespace CloudHv.Daemon

open Conc
open Agent (Err)

/-! ### AcquireSandbox -/

structure AcquireRequest where
  netns : String
  imageKey : String
  erofsPath : String
  containerId : String
  configJson : String
  deriving DecidableEq

def nonEmpty (s : String) : Option String := if s = "" then none else some s

/-- The network of a warm VM.  A guest that cannot be configured is only warned about. -/
def warmNetwork (req : AcquireRequest) (vmId : String) (api vsock : Path) : M (Except String String) :=
  if req.netns ≠ "" then do
    match ← attempt (setupVmNetworking req.netns vmId api) with
    | .error e => pure (.error ("networking: " ++ Err.full e))
    | .ok (tap, info) =>
      match ← attempt (connectAgent vsock) with
      | .error e => pure (.error ("agent connect: " ++ Err.full e))
      | .ok agent =>
        tell (.agentsInsert vmId agent)
        let _ ← attempt (configureGuestNetwork agent info.ipCidr info.gateway)
        pure (.ok tap)
  else pure (.ok "")

/-- The answer of the warm path; `none` when it falls back to the pool. -/
def acquireWarm (E : Env) (req : AcquireRequest) : M (Option Response) := do
  let seq ← tell .warmFetchAdd
  let vmId := "warm-" ++ req.imageKey ++ "-" ++ toString seq
  let stateDir := E.cfg.vmDir vmId
  match ← attempt (createDirAll stateDir) with
  | .error e => pure (some (.plain (.error ("create state dir: " ++ Err.display e))))
  | .ok () =>
    let cid ← pool .cidFetchAdd
    match ← attempt (restoreFromSnapshot req.imageKey cid stateDir) with
    | .error _ => pure none
    | .ok (chPid, api, vsock) =>
      match ← warmNetwork req vmId api vsock with
      | .error msg => pure (some (.plain (.error msg)))
      | .ok tap =>
        registerActive ⟨vmId, api, vsock, cid, chPid⟩
        pure (some (.acquired ⟨vmId, api, vsock, cid, chPid, true, 0, tap⟩))

/-- The container of an acquired pool VM; none is run without an image or an id. -/
def acquireContainer (E : Env) (req : AcquireRequest) (vm : PoolVm) : M (ℕ × String) :=
  if req.erofsPath ≠ "" ∧ req.containerId ≠ "" then
    runContainerInVm E ⟨vm.apiSocket, vm.vsockSocket, vm.vmId, req.netns, req.erofsPath, req.containerId,
      req.configJson⟩
  else pure (0, "")

/-- A shadow VM for the image of a request that has one. -/
def shadowFor (req : AcquireRequest) : M Unit :=
  if req.imageKey ≠ "" ∧ req.erofsPath ≠ "" then triggerShadow req.imageKey req.erofsPath else pure ()

def acquirePool (E : Env) (req : AcquireRequest) : M Response := do
  match ← attempt (acquire E) with
  | .error e => pure (.plain (.error ("acquire failed: " ++ Err.full e)))
  | .ok vm =>
    tell .spawnReplenish
    shadowFor req
    match ← attempt (acquireContainer E req vm) with
    | .error e => pure (.plain (.error ("run container: " ++ Err.full e)))
    | .ok (pid, tap) =>
      pure (.acquired ⟨vm.vmId, vm.apiSocket, vm.vsockSocket, vm.cid, vm.chPid, false, pid, tap⟩)

/-- There is a workload snapshot for the request. -/
def hasWarmSnapshot (req : AcquireRequest) : M Bool :=
  if req.imageKey ≠ "" then do
    let found ← snap (.hasSnapshot req.imageKey (nonEmpty req.erofsPath))
    pure found.1
  else pure false

def handleAcquire (E : Env) (req : AcquireRequest) : M Response := do
  if ← hasWarmSnapshot req then
    match ← acquireWarm E req with
    | some r => pure r
    | none => acquirePool E req
  else acquirePool E req

/-! ### The other requests -/

structure AddRequest where
  vmId : String
  erofsPath : String
  containerId : String
  configJson : String
  deriving DecidableEq

def handleAddContainer (E : Env) (req : AddRequest) : M Plain :=
  if req.vmId = "" ∨ req.containerId = "" then pure (.error "vm_id and container_id required")
  else do
    match ← pool (.activeGet req.vmId) with
    | none => pure (.error ("VM " ++ req.vmId ++ " not found in active set"))
    | some vm =>
      match ← attempt (runContainerInVm E ⟨vm.apiSocket, vm.vsockSocket, req.vmId, "", req.erofsPath,
        req.containerId, req.configJson⟩) with
      | .ok (pid, _) => pure (.added pid)
      | .error e => pure (.error ("add container: " ++ Err.full e))

def handleRelease (E : Env) (vmId : String) : M Plain :=
  if vmId = "" then pure (.error "vm_id required")
  else do
    tell (.agentsRemove vmId)
    match ← attempt (release E vmId) with
    | .ok () => pure .ok
    | .error e => pure (.error ("release failed: " ++ Err.full e))

def handleKillContainer (vmId containerId : String) (signal : ℕ) : M Plain := do
  match ← tell (.agentsGet vmId) with
  | none => pure (.error ("no agent for VM " ++ vmId))
  | some agent =>
    match ← host (.killContainer agent containerId signal) with
    | .ok () => pure .ok
    | .error e => pure (.error ("kill_container: " ++ e))

def handleWaitContainer (vmId containerId : String) : M Plain := do
  match ← tell (.agentsGet vmId) with
  | none => pure (.error ("no agent for VM " ++ vmId))
  | some agent =>
    match ← host (.waitContainer agent containerId) with
    | .ok (status, exitedAt) => pure (.waited status exitedAt none)
    | .error e => pure (.waited 137 "" (some ("wait_container: " ++ e)))

def handleDeleteContainer (vmId containerId : String) : M Plain := do
  match ← tell (.agentsGet vmId) with
  | none => pure .ok
  | some agent =>
    let _ ← host (.deleteContainer agent containerId)
    pure .ok

def handleStatus : M Plain := do
  let ready ← pool .readyLen
  let active ← pool .countLoad
  let shadows ← snap .shadowCount
  let keys ← snap .snapshotKeys
  pure (.status ready active shadows keys)

inductive Request where
  | acquireSandbox (req : AcquireRequest)
  | releaseSandbox (vmId : String)
  | addContainer (req : AddRequest)
  | killContainer (vmId containerId : String) (signal : ℕ)
  | waitContainer (vmId containerId : String)
  | deleteContainer (vmId containerId : String)
  | status
  | unknown (method : String)
  deriving DecidableEq

def Request.handle (E : Env) : Request → M Response
  | .acquireSandbox req => handleAcquire E req
  | .releaseSandbox id => do return .plain (← handleRelease E id)
  | .addContainer req => do return .plain (← handleAddContainer E req)
  | .killContainer vm ctr sig => do return .plain (← handleKillContainer vm ctr sig)
  | .waitContainer vm ctr => do return .plain (← handleWaitContainer vm ctr)
  | .deleteContainer vm ctr => do return .plain (← handleDeleteContainer vm ctr)
  | .status => do return .plain (← handleStatus)
  | .unknown method => pure (.plain (.error ("unknown method: " ++ method)))

/-! ### The daemon -/

inductive Task where
  | main
  | request (r : Request)
  | replenish
  | shadow (imageKey erofsPath : String)
  /-- Someone replaces an erofs image. -/
  | touch (file : String) (mtime : ℕ)
  deriving DecidableEq

/-- A task ends with its program, failed or not. -/
def M.toTask (m : M Unit) : P Unit := do
  let _ ← m.run
  pure ()

/-- A request is answered unless its handler panics. -/
def serve (E : Env) (r : Request) : M Unit := do
  let resp ← r.handle E
  tell (.reply resp)

def shadowTask (E : Env) (imageKey erofsPath : String) : M Unit := do
  let _ ← attempt (runShadow E imageKey erofsPath)
  snap (.shadowsRemove imageKey)

def replenishTask (E : Env) : M Unit := do
  tell (.sleep 100)
  replenishOne E

/-- `main`: fill the pool, then listen. -/
def mainTask (E : Env) : M Unit := do
  initializePool E
  ask (Prog.call (R := Answer) .bindSocket) id

def Task.body (E : Env) : Task → P Unit
  | .main => (mainTask E).toTask
  | .request r => (serve E r).toTask
  | .replenish => (replenishTask E).toTask
  | .shadow key erofs => (shadowTask E key erofs).toTask
  | .touch f t => Prog.call (R := Answer) (.touch f t)

def spawned : (a : Action) → Answer a → List Task
  | .spawnReplenish, _ => [.replenish]
  | .spawnShadow key erofs, _ => [.shadow key erofs]
  | _, _ => []

def external (w : World) : Task → Bool
  | .request _ => w.listening
  | .touch _ _ => true
  | _ => false

/-- The daemon. -/
def daemon (E : Env) : System World Choice Action Answer Task where
  body := Task.body E
  perform := perform E
  spawned := spawned
  external := external

abbrev DaemonConf := Conf World Action Answer Task

/-- A machine on which no daemon ran before: no processes, no files of a daemon. -/
def Host.clean (mtimes : Finmap (fun _ : String => ℕ)) : Host :=
  ⟨∅, fun _ => none, fun _ => none, fun _ => none, mtimes, ∅, ∅, 0⟩

def World.start (h : Host) : World := ⟨Pool.new, Snapshots.new, h, ∅, 0, false, ∅⟩

/-- A machine with the base snapshot of an earlier run. -/
def Host.withBase (E : Env) : Host :=
  let base := Agent.Guest.boot [⟨E.cfg.rootfsPath, true, "_disk0"⟩]
  { Host.clean ∅ with snaps := Function.update (fun _ => none) E.cfg.baseSnapshotDir (some base) }

/-- The daemon as it starts on the host `h`. -/
def boot (E : Env) (h : Host) : DaemonConf := (daemon E).init (World.start h) .main

/-! ### Runs to evaluate -/

/-- A daemon with a pool of one. -/
def poolOfOne : Env := ⟨{ poolSize := 1, rootfsPath := "/rootfs", stateDir := "/s" }, 7, fun _ => none⟩

/-- A request for a VM without a container. -/
def bareAcquire : Task := .request (.acquireSandbox ⟨"", "", "", "", ""⟩)

/-- Thread `i` takes `n` steps in which nothing fails. -/
def steps (i n pid : ℕ) : List (Label Choice Task) := List.replicate n (.sched i (Choice.fine pid))

end CloudHv.Daemon
