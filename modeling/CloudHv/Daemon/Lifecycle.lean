import CloudHv.Daemon.World

/-!
# Lifecycle — low-level VM operations and networking

`crates/daemon/src/vm_lifecycle.rs` (boot, spawn, restore, shut down a Cloud Hypervisor process),
`netns.rs` (the TAP phases), and the parts of `api.rs` that set up a VM's network and run a container
in it.
-/

namespace CloudHv.Daemon

open Conc
open Agent (Err Disk CreateRequest)

/-! ### vm_lifecycle.rs -/

def apiRequest (sock : Path) (call : ApiCall) : M Unit :=
  ask (onHost (.api sock call)) (apiError sock call.path)

def createDirAll (p : Path) : M Unit := ask (onHost (.createDirAll p)) id

/-- `spawn_ch`: start the process and save its pid. -/
def spawnCh (stateDir : Path) : M ℕ := do
  let pid ← ask (onHost (.spawnCh stateDir)) fun e => "spawn cloud-hypervisor" :: e
  ask (onHost (.writePid stateDir pid)) id
  pure pid

def waitChReady (sock : Path) : M Unit := do
  if ← host (.chReady sock) then pure ()
  else bail ("CH API socket not ready: " ++ sock.display)

def waitForAgent (vsock : Path) : M Unit := do
  if ← host (.agentHealthy vsock) then pure ()
  else bail ("agent not responding on vsock: " ++ vsock.display)

def prepareSnapshot (base stateDir : Path) (cid : ℕ) (vsock : Path) : M Prepared :=
  ask (onHost (.prepareSnapshot base stateDir cid vsock)) id

def connectAgent (vsock : Path) : M ℕ := ask (onHost (.connectAgent vsock)) (connectError vsock)

/-- `boot_vm` without a TAP and without extra disks, as its one caller calls it. -/
def bootVm (E : Env) (stateDir : Path) (cid : ℕ) : M ℕ := do
  let chPid ← spawnCh stateDir
  let api := stateDir ++ ["api.sock"]
  waitChReady api
  ask (onHost (.createFile (stateDir ++ ["console.log"]))) id
  apiRequest api (.create [⟨E.cfg.rootfsPath, true, "_disk0"⟩] cid (stateDir ++ ["vsock.sock"]))
  apiRequest api .boot
  ask (onHost (.writePid stateDir chPid)) id
  pure chPid

/-- `shutdown_and_destroy`. -/
def shutdownAndDestroy (chPid : ℕ) (stateDir : Path) : M Unit := do
  host (.sigterm chPid)
  if ← host (.awaitGone chPid) then
    host (.removeDirAll stateDir)
  else do
    host (.sigkill chPid)
    tell (.sleep 10)
    host (.removeDirAll stateDir)

/-! ### netns.rs and the network setup -/

def prepareTap (netns tap : String) : M PodNetInfo := do
  let info ← ask (onHost (.probePod netns)) id
  let _ ← ask (onHost (.delLink tap)) id
  let _ ← ask (onHost (.createTap tap)) fun e => "create TAP" :: e
  pure info

def activateTap (netns tap : String) : M Unit := do
  let link ← ask (onHost (.linkIndex tap)) id
  ask (onHost (.moveToNetns tap link netns)) id
  let _ ← ask (onHost (.wireTap netns tap)) id

/-- A slice of a string, or the panic of one that is cut inside a character. -/
def slice (s : String) (n : ℕ) : M String :=
  match slicePrefix s n with
  | some t => pure t
  | none => panics

/-- `setup_vm_networking`: create the TAP, hot-plug it, move it to the pod's namespace. -/
def setupVmNetworking (netns vmId : String) (api : Path) : M (String × PodNetInfo) := do
  let short ← slice vmId 8
  let tap := "tap_" ++ short
  let info ← context (prepareTap netns tap) "prepare_tap"
  let _ ← context (ask (onHost (.addNet api tap info.mac)) (apiError api "/api/v1/vm.add-net"))
    "hot-plug TAP"
  context (activateTap netns tap) "activate_tap"
  pure (tap, info)

def isDigit (c : Char) : Bool := '0' ≤ c ∧ c ≤ '9'

/-- `str::parse::<u32>`: an optional `+` and at least one digit, without overflow. -/
def parseU32 (s : String) : Option ℕ :=
  let ds := match s.toList with
    | '+' :: ds => ds
    | ds => ds
  if ds.isEmpty || !ds.all isDigit then none
  else
    let n := ds.foldl (fun n c => n * 10 + (c.toNat - 48)) 0
    if n < 2 ^ 32 then some n else none

def splitCidr (cidr : String) : List String := (splitSlash cidr.toList).map String.ofList

/-- `configure_guest_network`. -/
def configureGuestNetwork (conn : ℕ) (ipCidr gateway : String) : M Unit := do
  let parts := splitCidr ipCidr
  let len := ((parts[1]?).bind parseU32).getD 24
  ask (onHost (.configureNetwork conn (parts.headD "") gateway len))
    fun e => ["configure_network RPC", e]

/-! ### Containers -/

structure RunContainerParams where
  apiSocket : Path
  vsockSocket : Path
  vmId : String
  netns : String
  erofsPath : String
  containerId : String
  configJsonB64 : String
  deriving DecidableEq

/-- The network of a container's VM; none without a namespace. -/
def setupNetwork (p : RunContainerParams) : M (String × Option PodNetInfo) :=
  if p.netns ≠ "" then do
    let (tap, info) ← context (setupVmNetworking p.netns p.vmId p.apiSocket) "networking setup"
    pure (tap, some info)
  else pure ("", none)

/-- The registered connection to the VM's agent, or a new one. -/
def agentFor (p : RunContainerParams) : M ℕ := do
  match ← tell (.agentsGet p.vmId) with
  | some a => pure a
  | none =>
    let a ← context (connectAgent p.vsockSocket) "agent connect for container"
    tell (.agentsInsert p.vmId a)
    pure a

/-- The OCI config of a request; `{}` when there is none, or none that can be decoded. -/
def ociConfig (E : Env) (b64 : String) : List UInt8 :=
  if b64 = "" then [0x7b, 0x7d] else (E.decode b64).getD [0x7b, 0x7d]

def runContainerRpc (conn : ℕ) (req : CreateRequest) (ctx : String) : M ℕ :=
  ask (do return (← onHost (.runContainer conn req)).result) fun e => [ctx, e]

/-- `run_container_in_vm`. -/
def runContainerInVm (E : Env) (p : RunContainerParams) : M (ℕ × String) := do
  let (tap, net) ← setupNetwork p
  let short ← slice p.containerId 12
  let _ ← context (ask (onHost (.addDisk p.apiSocket ⟨p.erofsPath, true, "ctr-" ++ short⟩))
    (apiError p.apiSocket "/api/v1/vm.add-disk")) "hot-plug rootfs"
  let agent ← agentFor p
  match net with
  | some info => context (configureGuestNetwork agent info.ipCidr info.gateway) "configure guest network"
  | none => pure ()
  let pid ← runContainerRpc agent
    { containerId := p.containerId, volumes := [], configJson := ociConfig E p.configJsonB64,
      rootfsPreattached := false, erofsLayers := 1 } "RunContainer"
  pure (pid, tap)

end CloudHv.Daemon
