import CloudHv.Daemon.Lifecycle

/-!
# Pool — the pool of pre-booted VMs and the shadow VMs

`crates/daemon/src/pool.rs` and `shadow.rs`.  Reads that only feed log lines (the length of the ready
list after a pop or a push, the active count) are left out.
-/

namespace CloudHv.Daemon

open Conc

/-! ### pool.rs -/

/-- `restore_one`: a VM restored from the base snapshot.  The id is made of the CID counter's value,
which is read before it is taken. -/
def restoreOne (E : Env) : M PoolVm := do
  let n ← pool .cidLoad
  let vmId := "pool-" ++ toString E.pid ++ "-" ++ toString n
  let cid ← pool .cidFetchAdd
  let stateDir := E.cfg.vmDir vmId
  createDirAll stateDir
  let vsock := stateDir ++ ["vsock.sock"]
  let prepared ← prepareSnapshot E.cfg.baseSnapshotDir stateDir cid vsock
  let chPid ← spawnCh stateDir
  let api := stateDir ++ ["api.sock"]
  waitChReady api
  apiRequest api (.restore prepared)
  apiRequest api .resume
  context (waitForAgent vsock) "agent connect after restore"
  pure ⟨vmId, api, vsock, cid, chPid⟩

/-- `create_base_snapshot`: cold-boot a VM, snapshot it, destroy it. -/
def createBaseSnapshot (E : Env) (baseDir : Path) : M Unit := do
  createDirAll baseDir
  let cid ← pool .cidFetchAdd
  let stateDir := E.cfg.vmDir ("base-snapshot-" ++ toString E.pid)
  createDirAll stateDir
  let chPid ← context (bootVm E stateDir cid) "boot base VM"
  let api := stateDir ++ ["api.sock"]
  context (waitForAgent (stateDir ++ ["vsock.sock"])) "agent connect for base snapshot"
  apiRequest api .pause
  apiRequest api (.snapshot baseDir)
  shutdownAndDestroy chPid stateDir

/-- The filling loop of `initialize`; a VM that cannot be restored is skipped. -/
def fillPool (E : Env) : ℕ → M Unit
  | 0 => pure ()
  | k + 1 => do
    match ← attempt (restoreOne E) with
    | .ok vm => pool (.readyPush vm)
    | .error _ => pure ()
    fillPool E k

/-- `Pool::initialize`: the base snapshot if there is none, then the VMs. -/
def initializePool (E : Env) : M Unit := do
  if ← host (.baseSnapshotValid E.cfg.baseSnapshotDir) then fillPool E E.cfg.poolSize
  else do
    createBaseSnapshot E E.cfg.baseSnapshotDir
    fillPool E E.cfg.poolSize

/-- `register_active`, and the same two steps of `acquire`. -/
def registerActive (vm : PoolVm) : M Unit := do
  pool .countAdd
  pool (.activeInsert vm)

/-- `Pool::acquire`: a ready VM, or one restored on the spot. -/
def acquire (E : Env) : M PoolVm := do
  match ← pool .readyPop with
  | some vm =>
    registerActive vm
    pure vm
  | none =>
    let vm ← restoreOne E
    registerActive vm
    pure vm

/-- `destroy_vm`: shut down the process that `ch.pid` names, or just clean up. -/
def destroyVm (E : Env) (vmId : String) : M Unit := do
  let stateDir := E.cfg.vmDir vmId
  match ← host (.readPid stateDir) with
  | some pid => shutdownAndDestroy pid stateDir
  | none => host (.removeDirAll stateDir)

/-- `Pool::release`: the VM is destroyed, also when the id was not active. -/
def release (E : Env) (vmId : String) : M Unit := do
  match ← pool (.activeRemove vmId) with
  | some _ => do
    pool .countSub
    destroyVm E vmId
  | none => destroyVm E vmId

/-- `replenish_one`: the length is checked before the restore, the push comes after it. -/
def replenishOne (E : Env) : M Unit := do
  let current ← pool .readyLen
  if E.cfg.poolSize ≤ current then pure ()
  else do
    match ← attempt (restoreOne E) with
    | .ok vm => pool (.readyPush vm)
    | .error _ => pure ()

/-! ### shadow.rs -/

/-- `restore_from_snapshot`; the result is the pid, the API socket and the vsock socket. -/
def restoreFromSnapshot (imageKey : String) (cid : ℕ) (stateDir : Path) : M (ℕ × Path × Path) := do
  match ← snap (.getSnapshotDir imageKey) with
  | none => bail "snapshot not found"
  | some snapDir =>
    let vsock := stateDir ++ ["vsock.sock"]
    let prepared ← prepareSnapshot snapDir stateDir cid vsock
    let chPid ← spawnCh stateDir
    let api := stateDir ++ ["api.sock"]
    waitChReady api
    apiRequest api (.restore prepared)
    apiRequest api .resume
    pure (chPid, api, vsock)

/-- `trigger_shadow`: nothing when there is a snapshot or a shadow.  The task is spawned before its key
is entered. -/
def triggerShadow (imageKey erofsPath : String) : M Unit := do
  let found ← snap (.hasSnapshot imageKey (some erofsPath))
  if found.1 then pure ()
  else do
    if ← snap (.shadowsContains imageKey) then pure ()
    else do
      tell (.spawnShadow imageKey erofsPath)
      snap (.shadowsInsert imageKey)

/-- The id of the container that a shadow VM runs. -/
def shadowContainerId (imageKey : String) : String := "shadow-ctr-" ++ imageKey

/-- `run_shadow`: acquire a VM, run the workload, snapshot it, destroy the VM. -/
def runShadow (E : Env) (imageKey erofsPath : String) : M Unit := do
  createDirAll (E.cfg.vmDir ("shadow-" ++ imageKey ++ "-" ++ toString E.pid))
  let vm ← context (acquire E) "acquire for shadow"
  let _ ← context (ask (onHost (.addDisk vm.apiSocket ⟨erofsPath, true, "ctr-rootfs"⟩))
    (apiError vm.apiSocket "/api/v1/vm.add-disk")) "hot-plug rootfs for shadow"
  let agent ← connectAgent vm.vsockSocket
  let _ ← runContainerRpc agent
    { containerId := shadowContainerId imageKey, volumes := [], configJson := [0x7b, 0x7d],
      rootfsPreattached := false, erofsLayers := 1 } "RunContainer in shadow VM"
  tell (.sleep (1000 * E.cfg.warmupDurationSecs))
  let snapDir := E.cfg.snapshotCacheDir.join imageKey
  createDirAll snapDir
  apiRequest vm.apiSocket .pause
  apiRequest vm.apiSocket (.snapshot snapDir)
  ask (onHost (.stripKernelIp snapDir)) id
  let mtime ← host (.fileMtime erofsPath)
  snap (.cacheSnapshot imageKey snapDir mtime)
  release E vm.vmId

end CloudHv.Daemon
