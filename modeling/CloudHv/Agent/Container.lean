import CloudHv.Lib.Map
import CloudHv.Lib.Method

/-!
# Container — the guest agent's container manager

`ContainerManager` of `crates/agent/src/container.rs`, with the part of the guest it works on: the
attached disks, the mounts, the child processes, the watch channels that carry exit codes and crun's
own table of containers.  The manager's methods run under one lock, so each is a state function;
what the guest's operating system decides (which call fails, the pid of a child, the iteration order
of a hash set) comes from an `Io`.

A `start` makes one child process, one watch channel and one log buffer; all three are named by the
child's pid.  Pids are not used again during the life of a guest.
-/

namespace CloudHv.Agent

/-- Exit status reported through the watch channel when a container stops. -/
structure ExitStatus where
  code : ℤ
  exitedAt : String
  deriving DecidableEq

structure InlineFileInfo where
  path : String
  content : List UInt8
  mode : ℕ
  deriving DecidableEq

/-- Volume information passed from the shim to the agent. -/
structure VolumeInfo where
  destination : String
  source : String
  readonly : Bool
  isBlock : Bool
  fsType : String
  inlineFiles : List InlineFileInfo
  deriving DecidableEq

inductive ContainerState where
  | created | running | stopped
  deriving DecidableEq

structure Container where
  pid : Option ℕ
  exitCode : Option ℤ
  state : ContainerState
  deriving DecidableEq

/-- Captured container output. -/
structure ContainerLogs where
  stdout : List UInt8
  stderr : List UInt8
  eof : Bool
  deriving DecidableEq

/-- The four maps of the manager.  A receiver and a log buffer are named by the pid of the child
whose `start` made them. -/
structure ContainerManager where
  containers : Finmap (fun _ : String => Container)
  knownDisks : Finset String
  exitReceivers : Finmap (fun _ : String => ℕ)
  logs : Finmap (fun _ : String => ℕ)

/-- A child process; `code` is what `wait_for_exit_pidfd` makes of its exit status: the exit code, or
137 for a process ended by a signal. -/
inductive ProcState where
  | running
  | exited (code : ℤ)
  deriving DecidableEq

/-- A disk of the VM, as it was given to Cloud Hypervisor. -/
structure Disk where
  path : String
  readonly : Bool
  id : String
  deriving DecidableEq

structure Mount where
  source : String
  target : String
  fsType : String
  deriving DecidableEq

/-- The guest: the manager and what it works on.  `disks` are in attach order, the guest rootfs
first. -/
structure Guest where
  mgr : ContainerManager
  disks : List Disk
  mounts : List Mount
  /-- Bundles that hold a `config.json`. -/
  configs : Finset String
  procs : Finmap (fun _ : ℕ => ProcState)
  /-- The value of a watch channel, once it was sent. -/
  published : Finmap (fun _ : ℕ => ExitStatus)
  /-- Channels whose sender is gone. -/
  closed : Finset ℕ
  logBufs : Finmap (fun _ : ℕ => ContainerLogs)
  /-- crun's table: the containers it resolves, with the child that runs them. -/
  crun : Finmap (fun _ : String => ℕ)

/-! ### Block devices -/

/-- The letters of the `k`-th virtio disk: `a` … `z`, then `aa`, `ab` and so on. -/
def diskSuffix : ℕ → ℕ → List Char
  | 0, _ => []
  | fuel + 1, k =>
    if k < 26 then [Char.ofNat (97 + k)]
    else diskSuffix fuel (k / 26 - 1) ++ [Char.ofNat (97 + k % 26)]

/-- The kernel names disks in attach order: the first is `vda`. -/
def diskName (k : ℕ) : String := "vd" ++ String.ofList (diskSuffix (k + 1) k)

/-- `/sys/block`, the entries that start with `vd`. -/
def Guest.scanBlockDevices (g : Guest) : List String := (List.range g.disks.length).map diskName

/-- The device under `/dev` that `create` mounts as layer `i`.  Both branches of the source
(pre-attached or not) are this expression; the addition is on bytes. -/
def layerDevice (i : ℕ) : String :=
  "vd" ++ String.ofList [Char.ofNat ((98 + i % 256) % 256)]

/-! ### What the operating system decides -/

/-- The fallible calls of `create`, `start`, `kill` and `delete`. -/
inductive OsCall where
  | createMountPoint | createRootfs
  | createLayer (i : ℕ) | mountLayer (i : ℕ)
  | createUpper | createWork | mountOverlay
  | writeConfig
  | createVolume (vol : VolumeInfo)
  | createInlineDir (f : InlineFileInfo) | writeInline (f : InlineFileInfo) | chmodInline (f : InlineFileInfo)
  | symlinkVolumes
  | readSpec | parseSpec | writeSpec
  | spawnCrun | execCrun | crunKill
  deriving DecidableEq

def isInfix (p : List Char) : List Char → Bool
  | [] => p.isEmpty
  | c :: cs => p.isPrefixOf (c :: cs) || isInfix p cs

theorem isInfix_iff {p l : List Char} : isInfix p l = true ↔ p <:+: l := by
  induction l with
  | nil =>
    rw [isInfix, List.isEmpty_iff]
    exact List.infix_nil.symm
  | cons c l ih => rw [isInfix, Bool.or_eq_true, ih, List.infix_cons_iff, List.isPrefixOf_iff_prefix]

/-- A text on crun's stderr by which `kill` tells that the container has already exited. -/
def saysNotFound (stderr : String) : Bool :=
  isInfix "No such file".toList stderr.toList || isInfix "not found".toList stderr.toList

/-- `fail c` is the error of a call that fails; `pid` is the pid of a spawned child; `pick` is the
element a hash set yields first.  `unknownId id` is what crun writes to stderr when it is to signal an
id that it does not know: its status file is missing.  For an id that it knows it writes no such text. -/
structure Io where
  fail : OsCall → Option String
  pid : ℕ
  pick : List String → Option String
  unknownId : String → String
  unknown : ∀ id, saysNotFound (unknownId id) = true
  known : ∀ stderr, fail .crunKill = some stderr → saysNotFound stderr = false

/-- crun's text for an id that it does not know. -/
def noStatusFile (id : String) : String :=
  "error opening file /run/crun/" ++ id ++ "/status: No such file or directory"

theorem noStatusFile_notFound (id : String) : saysNotFound (noStatusFile id) = true := by
  have htext : "No such file".toList <:+: "/status: No such file or directory".toList := by decide
  have hsplit : (noStatusFile id).toList =
      ("error opening file /run/crun/" ++ id).toList ++ "/status: No such file or directory".toList :=
    String.toList_append
  have h : "No such file".toList <:+: (noStatusFile id).toList := by
    rw [hsplit]
    exact htext.trans (List.suffix_append _ _).isInfix
  rw [saysNotFound, isInfix_iff.mpr h, Bool.true_or]

/-- Every call succeeds and the next child gets `pid`. -/
def Io.ok (pid : ℕ) : Io where
  fail _ := none
  pid := pid
  pick := List.head?
  unknownId := noStatusFile
  unknown := noStatusFile_notFound
  known _ h := nomatch h

/-- An `anyhow` error: its contexts from the outside in, the root cause last. -/
abbrev Err := List String

/-- What `{e}` prints. -/
def Err.display (e : Err) : String := e.headD ""

/-- What `{e:#}` prints. -/
def Err.full (e : Err) : String := String.intercalate ": " e

/-- Methods that return a `Result` and keep their effects when they fail. -/
abbrev GuestM := ExceptT Err (StateM Guest)

/-- A fallible call; `wrap` makes the error of its cause. -/
def Io.checkAs (io : Io) (c : OsCall) (wrap : String → Err) : GuestM Unit :=
  match io.fail c with
  | none => pure ()
  | some e => throw (wrap e)

def Io.check (io : Io) (c : OsCall) : GuestM Unit := io.checkAs c fun e => [e]

/-- A call with an `anyhow` context. -/
def Io.checkWith (io : Io) (c : OsCall) (ctx : String) : GuestM Unit := io.checkAs c fun e => [ctx, e]

def failIf (c : Prop) [Decidable c] (e : Err) : GuestM Unit := if c then throw e else pure ()

/-! ### create -/

/-- `PathBuf::join`: an absolute path replaces the base. -/
def mountPoint (containerId : String) : String :=
  if containerId.toList.head? = some '/' then containerId else "/run/containers/" ++ containerId

def addMount (m : Mount) : GuestM Unit := modify fun g => { g with mounts := g.mounts ++ [m] }

/-- One round of the layer loop: wait for the device node, then mount it.  A device that no disk
provides never appears. -/
def mountLayer (io : Io) (containerId : String) (i : ℕ) : GuestM String := do
  let dev := layerDevice i
  let layerMount := mountPoint containerId ++ "/layer" ++ toString i
  io.check (.createLayer i)
  failIf (dev ∉ (← get).scanBlockDevices) ["timeout waiting for device " ++ dev]
  io.checkAs (.mountLayer i) fun e => ["mount erofs /dev/" ++ dev ++ " at " ++ layerMount ++ ": " ++ e]
  addMount ⟨"/dev/" ++ dev, layerMount, "erofs"⟩
  pure layerMount

def mountLayers (io : Io) (containerId : String) : List ℕ → GuestM (List String)
  | [] => pure []
  | i :: is => do
    let l ← mountLayer io containerId i
    let ls ← mountLayers io containerId is
    pure (l :: ls)

/-- Paths of inline files that are skipped because they could leave the volume directory. -/
def unsafePath (path : String) : Bool :=
  "/".toList.isPrefixOf path.toList || isInfix "../".toList path.toList ||
    isInfix "/..".toList path.toList || path == ".."

def writeInlineFile (io : Io) (f : InlineFileInfo) : GuestM Unit :=
  if unsafePath f.path then pure ()
  else do
    io.check (.createInlineDir f)
    io.checkWith (.writeInline f) ("write inline file: " ++ f.path)
    if f.mode ≠ 0 then io.check (.chmodInline f) else pure ()

def writeInlineVolume (io : Io) (v : VolumeInfo) : GuestM Unit :=
  if v.isBlock || v.inlineFiles.isEmpty then pure ()
  else do
    io.check (.createVolume v)
    v.inlineFiles.forM (writeInlineFile io)

/-- A device that `knownDisks` does not have yet; which one is up to the set's iteration order. -/
def discoverBlockDevice (io : Io) : GuestM (Option String) := do
  let g ← get
  let newDevices := g.scanBlockDevices.filter (· ∉ g.mgr.knownDisks)
  match io.pick newDevices with
  | some dev =>
    if dev ∈ newDevices then
      set { g with mgr := { g.mgr with knownDisks := insert dev g.mgr.knownDisks } }
      pure (some ("/dev/" ++ dev))
    else
      pure none
  | none => pure none

/-- The device of a block volume; other volumes, and one without a device, have none. -/
def volumeDevice (io : Io) (v : VolumeInfo) : GuestM (Option String) :=
  if v.isBlock then discoverBlockDevice io else pure none

/-- The steps of `adapt_oci_spec_for_vm` that can fail, and its effect on `knownDisks`. -/
def adaptOciSpecForVm (io : Io) (bundle : String) (volumes : List VolumeInfo) : GuestM Unit := do
  io.checkWith .readSpec ("failed to read " ++ bundle ++ "/config.json")
  io.checkWith .parseSpec "failed to parse config.json"
  volumes.forM fun v => do let _ ← volumeDevice io v
  io.checkWith .writeSpec ("failed to write " ++ bundle ++ "/config.json")

/-- The agent is PID 1 of the guest. -/
def agentPid : ℕ := 1

structure CreateRequest where
  containerId : String
  volumes : List VolumeInfo
  configJson : List UInt8
  rootfsPreattached : Bool
  erofsLayers : ℕ
  deriving DecidableEq

/-- Write the inline `config.json`, or rely on one that is there. -/
def writeConfig (io : Io) (req : CreateRequest) : GuestM Unit :=
  if !req.configJson.isEmpty then do
    io.checkWith .writeConfig "write inline config.json"
    modify fun g => { g with configs := insert req.containerId g.configs }
  else do
    failIf (req.containerId ∉ (← get).configs)
      ["no config.json: inline data not provided and no on-disk file present"]

/-- `ContainerManager::create` up to the point where the container enters the table. -/
def prepareBundle (io : Io) (req : CreateRequest) : GuestM Unit := do
  failIf (req.erofsLayers = 0) ["erofs_layers must be > 0: the erofs snapshotter is required"]
  let mp := mountPoint req.containerId
  io.check .createMountPoint
  io.check .createRootfs
  let lowerdirs ← mountLayers io req.containerId (List.range req.erofsLayers)
  io.check .createUpper
  io.check .createWork
  let opts := "lowerdir=" ++ String.intercalate ":" lowerdirs ++ ",upperdir=" ++ mp ++ "/upper,workdir=" ++
    mp ++ "/work"
  io.checkWith .mountOverlay ("overlayfs mount with erofs layers: " ++ opts)
  addMount ⟨"overlay", mp ++ "/rootfs", "overlay"⟩
  writeConfig io req
  req.volumes.forM (writeInlineVolume io)
  io.checkWith .symlinkVolumes "symlink disk volumes to bundle"
  adaptOciSpecForVm io mp req.volumes

/-- `ContainerManager::create`. -/
def create (io : Io) (req : CreateRequest) : GuestM ℕ := do
  prepareBundle io req
  modify fun g => { g with mgr := { g.mgr with
    containers := g.mgr.containers.insert req.containerId ⟨some agentPid, none, .created⟩ } }
  pure agentPid

/-! ### start, run -/

/-- The child that crun resolves an id to: `crun run` takes its container out of the table when its
process ends. -/
def Guest.crunResolves (g : Guest) (containerId : String) : Option ℕ :=
  match g.crun.lookup containerId with
  | some pid => if g.procs.lookup pid = some .running then some pid else none
  | none => none

/-- The child of `crun run`.  crun takes the container in under its id unless it has that id already,
in which case the child will report an error and exit. -/
def Guest.spawnChild (g : Guest) (containerId : String) (pid : ℕ) : Guest :=
  { g with
    procs := g.procs.insert pid .running
    crun := match g.crunResolves containerId with
      | some _ => g.crun
      | none => g.crun.insert containerId pid }

/-- The bookkeeping of `start` after the child was spawned. -/
def Guest.recordStart (g : Guest) (containerId : String) (pid : ℕ) : Guest :=
  { g with
    mgr := { g.mgr with
      containers := match g.mgr.containers.lookup containerId with
        | some c => g.mgr.containers.insert containerId { c with state := .running, pid := some pid }
        | none => g.mgr.containers
      logs := g.mgr.logs.insert containerId pid
      exitReceivers := g.mgr.exitReceivers.insert containerId pid }
    logBufs := g.logBufs.insert pid ⟨[], [], false⟩ }

/-- `ContainerManager::start`.  The exit task it spawns is a task of the server. -/
def start (io : Io) (containerId : String) : GuestM ℕ := do
  failIf (containerId ∉ (← get).mgr.containers) ["container not found: " ++ containerId]
  io.checkWith .spawnCrun ("spawn crun run (bundle=" ++ mountPoint containerId ++ ")")
  modify fun g => (g.spawnChild containerId io.pid).recordStart containerId io.pid
  pure io.pid

/-- `ContainerManager::run`: create, then start. -/
def run (io : Io) (req : CreateRequest) : GuestM ℕ := do
  let _ ← create io req
  start io req.containerId

/-- A method that spawns a child under the pid of `io`, which has to be a new one. -/
def Guest.execSpawn {α : Type} (g : Guest) (io : Io) (m : GuestM α) : Option (Except Err α × Guest) :=
  if io.pid ∈ g.procs ∨ io.pid = agentPid then none else some (Method.exec m g)

/-! ### kill, delete, adopt -/

/-- What a successful `kill` did: nothing because the record says stopped, a signal to the child that
crun resolves the id to, or nothing because crun said that there is no such container. -/
inductive KillOutcome where
  | alreadyStopped
  | signalled (pid signal : ℕ)
  | notFound
  deriving DecidableEq

/-- `crun kill`: the child that it signals, or what it writes to stderr when it fails. -/
def Guest.crunKill (g : Guest) (io : Io) (containerId : String) : Except String ℕ :=
  match g.crunResolves containerId with
  | none => .error (io.unknownId containerId)
  | some pid =>
    match io.fail .crunKill with
    | some stderr => .error stderr
    | none => .ok pid

/-- `ContainerManager::kill`. -/
def kill (io : Io) (containerId : String) (signal : ℕ) : GuestM KillOutcome := do
  let g ← get
  if (g.mgr.containers.lookup containerId).map (·.state) = some .stopped then
    pure .alreadyStopped
  else
    io.checkWith .execCrun "failed to execute crun kill"
    match g.crunKill io containerId with
    | .ok pid => pure (.signalled pid signal)
    | .error stderr =>
      if saysNotFound stderr then pure .notFound else throw ["crun kill failed: " ++ stderr]

/-- `ContainerManager::delete`; the answer is the record's pid and exit code, `0` where it has none.
Receivers and logs stay. -/
def delete (io : Io) (containerId : String) : GuestM (ℕ × ℤ) := do
  io.checkWith .execCrun "failed to execute crun delete"
  let g ← get
  set { g with
    crun := g.crun.erase containerId
    mgr := { g.mgr with containers := g.mgr.containers.erase containerId } }
  match g.mgr.containers.lookup containerId with
  | some c => pure (c.pid.getD 0, c.exitCode.getD 0)
  | none => pure (0, 0)

/-- Move the entry of `k` to `k'`, if there is one. -/
def moveKey {ν : Type} (m : Finmap (fun _ : String => ν)) (k k' : String) : Finmap (fun _ : String => ν) :=
  match m.lookup k with
  | some v => (m.erase k).insert k' v
  | none => m

/-- `ContainerManager::adopt`.  The record is taken out before the pid is looked at. -/
def adopt (oldId newId : String) : GuestM ℕ := do
  let g ← get
  match g.mgr.containers.lookup oldId with
  | none => throw ["adopt: container " ++ oldId ++ " not found"]
  | some c =>
    set { g with mgr := { g.mgr with containers := g.mgr.containers.erase oldId } }
    match c.pid with
    | none => throw ["adopt: container " ++ oldId ++ " has no PID"]
    | some pid =>
      modify fun g => { g with mgr := { g.mgr with
        exitReceivers := moveKey g.mgr.exitReceivers oldId newId
        logs := moveKey g.mgr.logs oldId newId
        containers := g.mgr.containers.insert newId c } }
      pure pid

/-! ### Exit codes -/

/-- `ContainerManager::mark_stopped`. -/
def Guest.markStopped (g : Guest) (id : String) (code : ℤ) : Guest :=
  match g.mgr.containers.lookup id with
  | some c => { g with mgr := { g.mgr with
      containers := g.mgr.containers.insert id { c with state := .stopped, exitCode := some code } } }
  | none => g

def Guest.getExitReceiver (g : Guest) (id : String) : Option ℕ := g.mgr.exitReceivers.lookup id

inductive ProtoState where
  | unknown | created | running | stopped
  deriving DecidableEq

structure StateResponse where
  containerId : String
  pid : ℕ
  status : ProtoState
  exitStatus : ℕ
  deriving DecidableEq

/-- A code as the unsigned 32-bit field of a response. -/
def asU32 (code : ℤ) : ℕ := (code % 2 ^ 32).toNat

/-- `ContainerManager::state`. -/
def Guest.state (g : Guest) (containerId : String) : StateResponse :=
  match g.mgr.containers.lookup containerId with
  | some c =>
    ⟨containerId, c.pid.getD 0,
      match c.state with
      | .created => .created
      | .running => .running
      | .stopped => .stopped,
      asU32 (c.exitCode.getD 0)⟩
  | none => ⟨containerId, 0, .unknown, 0⟩

/-- `ContainerManager::new` in a freshly booted guest with the given disks. -/
def Guest.boot (disks : List Disk) : Guest :=
  { mgr := ⟨∅, ((List.range disks.length).map diskName).toFinset, ∅, ∅⟩
    disks := disks, mounts := [], configs := ∅, procs := ∅, published := ∅, closed := ∅
    logBufs := ∅, crun := ∅ }

end CloudHv.Agent
