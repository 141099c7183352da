import CloudHv.Lib.Threads
import CloudHv.Lib.Map

/-!
# Instance — the containerd shim of a pod

The `Instance` implementation of `crates/shim/src/instance.rs`: `new`, `start`, `kill` and `delete`.  The
shim keeps one `SharedVmState` for each sandbox in the table `VMS`; a task that has looked it up works on
with this record whatever becomes of the table, so records are on a heap and the table maps sandbox ids to
places in it.  The fields of a record do not change, but for the container count.

The table's lock is held for one operation, and the count is atomic, so each of these is one `Action`.
The calls to the daemon, to containerd and to the host are actions whose answers the environment decides.
-/

namespace CloudHv.Shim

open Conc

/-! ### Data -/

/-- What the shim reads in a bundle's `config.json`. -/
structure Spec where
  /-- The annotation `io.kubernetes.cri.container-type`. -/
  containerType : Option String
  /-- The annotation `io.kubernetes.cri.sandbox-id`. -/
  sandboxId : Option String
  /-- The path of the network namespace. -/
  netns : Option String
  cgroupsPath : Option String
  deriving DecidableEq

structure CloudHvInstance where
  id : String
  sandboxId : String
  /-- The spec in the instance's bundle. -/
  bundle : Spec
  deriving DecidableEq

structure SharedVmState where
  chPid : ℕ
  containerCount : ℕ
  tapName : Option String
  netns : Option String
  cgroupsPath : Option String
  daemonVmId : String
  daemonSocket : String
  deriving DecidableEq

structure AcquireRequest where
  netns : String
  imageKey : String
  erofsPath : String
  containerId : String
  configJson : List UInt8
  deriving DecidableEq

structure AcquiredVm where
  vmId : String
  chPid : ℕ
  fromSnapshot : Bool
  containerPid : ℕ
  tapName : String
  deriving DecidableEq

/-! ### Actions -/

inductive Action where
  | readSpec
  | sandboxSpec (bundle : Spec)
  | loadConfig
  -- the table and the records
  | vmsGet (sandboxId : String)
  | vmsInsert (sandboxId : String) (state : SharedVmState)
  | vmsRemove (sandboxId : String)
  | countLoad (rec : ℕ)
  | countAdd (rec : ℕ)
  | countSub (rec : ℕ)
  -- the container's image
  | imageKey
  | prepareErofs (imageKey : String)
  | sleep (ms : ℕ)
  | readConfig
  -- the daemon
  | acquireSandbox (socket : String) (req : AcquireRequest)
  | releaseSandbox (socket vmId : String)
  | addContainer (socket vmId erofsPath containerId : String) (configJson : List UInt8)
  | killContainer (socket vmId containerId : String) (signal : ℕ)
  | deleteContainer (socket vmId containerId : String)
  -- the host
  | cleanupTap (netns tap : String)
  | placeInCgroup (pid : ℕ) (cgroup : String)
  | spawnWatcher (socket vmId containerId : String) (chPid : ℕ)
  | exitSet (id : String) (code : ℕ)
  deriving DecidableEq

/-- How the spec of a bundle cannot be had. -/
inductive SpecFailure where
  | read (e : String)
  | parse (e : String)
  deriving DecidableEq

def SpecFailure.text : SpecFailure → String
  | .read e => "read spec: " ++ e
  | .parse e => "parse spec: " ++ e

abbrev Answer : Action → Type
  | .readSpec => Except SpecFailure Unit
  | .sandboxSpec _ => Option String × Option String
  | .loadConfig | .prepareErofs _ => Except String String
  | .vmsGet _ => Option (ℕ × SharedVmState)
  | .vmsInsert _ _ | .countLoad _ | .countAdd _ | .countSub _ => ℕ
  | .imageKey => String
  | .readConfig => List UInt8
  | .acquireSandbox _ _ => Except String AcquiredVm
  | .addContainer _ _ _ _ _ => Except String ℕ
  | .releaseSandbox _ _ | .killContainer _ _ _ _ | .deleteContainer _ _ _ | .placeInCgroup _ _ =>
    Except String Unit
  | .vmsRemove _ | .sleep _ | .cleanupTap _ _ | .spawnWatcher _ _ _ _ | .exitSet _ _ => Unit

/-- The state of the shim.  `held` are the VM ids that AcquireSandbox returned and that were not passed to
ReleaseSandbox since, `releases` the ids that were passed to it. -/
structure World where
  vms : Finmap (fun _ : String => ℕ)
  records : List SharedVmState
  held : Finset String
  releases : List String

def World.new : World := ⟨∅, [], ∅, []⟩

/-- What the environment decides in a step. -/
structure Choice where
  err : Option String
  spec : Option SpecFailure
  text : String
  bytes : List UInt8
  pid : ℕ
  vm : AcquiredVm

/-- Everything succeeds; AcquireSandbox returns the VM `id`. -/
def Choice.fine (id : String) : Choice := ⟨none, none, "", [], 100, ⟨id, 100, false, 1, "tap"⟩⟩

def Choice.fails (e : String) : Choice := { Choice.fine "" with err := some e }

/-- `usize` has 64 bits. -/
@[irreducible] def usize : ℕ := 2 ^ 64

namespace World

def orFail {α : Type} (w : World) (c : Choice) (x : α) : Option (Except String α × World) :=
  match c.err with
  | some e => some (.error e, w)
  | none => some (.ok x, w)

/-- An atomic operation on the count of a record; the answer is the count before it. -/
def onCount (w : World) (rec : ℕ) (f : ℕ → ℕ) : Option (ℕ × World) :=
  (w.records[rec]?).map fun st =>
    (st.containerCount, { w with records := w.records.set rec { st with containerCount := f st.containerCount } })

end World

/-- A new VM has an id of its own. -/
def perform (w : World) : (a : Action) → Choice → Option (Answer a × World)
  | .readSpec, c =>
    match c.spec with
    | some e => some (.error e, w)
    | none => some (.ok (), w)
  | .sandboxSpec b, c => some (if c.err.isSome then (none, none) else (b.netns, b.cgroupsPath), w)
  | .loadConfig, c => w.orFail c c.text
  | .vmsGet s, _ => some ((w.vms.lookup s).bind fun r => (w.records[r]?).map fun st => (r, st), w)
  | .vmsInsert s st, _ =>
    some (w.records.length, { w with vms := w.vms.insert s w.records.length, records := w.records ++ [st] })
  | .vmsRemove s, _ => some ((), { w with vms := w.vms.erase s })
  | .countLoad r, _ => (w.records[r]?).map fun st => (st.containerCount, w)
  | .countAdd r, _ => w.onCount r fun n => (n + 1) % usize
  | .countSub r, _ => w.onCount r fun n => (n + (usize - 1)) % usize
  | .imageKey, c => some (c.text, w)
  | .prepareErofs _, c => w.orFail c c.text
  | .sleep _, _ => some ((), w)
  | .readConfig, c => some (c.bytes, w)
  | .acquireSandbox _ _, c =>
    match c.err with
    | some e => some (.error e, w)
    | none =>
      if c.vm.vmId = "" ∨ c.vm.vmId ∈ w.held then none
      else some (.ok c.vm, { w with held := insert c.vm.vmId w.held })
  | .releaseSandbox _ id, c =>
    let w' := { w with held := w.held.erase id, releases := w.releases ++ [id] }
    w'.orFail c ()
  | .addContainer _ _ _ _ _, c => w.orFail c c.pid
  | .killContainer _ _ _ _, c => w.orFail c ()
  | .deleteContainer _ _ _, c => w.orFail c ()
  | .cleanupTap _ _, _ => some ((), w)
  | .placeInCgroup _ _, c => w.orFail c ()
  | .spawnWatcher _ _ _ _, _ => some ((), w)
  | .exitSet _ _, _ => some ((), w)

/-! ### Fallible code -/

abbrev P := Prog Action Answer

/-- Code that returns `Result<_, Error>`, with the error as its text. -/
abbrev M := ExceptT String P

def tell (a : Action) : M (Answer a) := liftM (Prog.call a : P (Answer a))

/-- `map_err` and `ctx`. -/
def wrap {ε α : Type} (r : Except ε α) (f : ε → String) : M α :=
  match r with
  | .ok x => pure x
  | .error e => throw (f e)

/-! ### The calls -/

/-- `new`: the sandbox of an instance without the annotation is the instance itself. -/
def CloudHvInstance.new (id : String) (bundle : Spec) : CloudHvInstance :=
  ⟨id, bundle.sandboxId.getD id, bundle⟩

def cleanupTap (st : SharedVmState) : M Unit :=
  match st.netns, st.tapName with
  | some netns, some tap => tell (.cleanupTap netns tap)
  | _, _ => pure ()

/-- Put the VM in the cgroup of its pod.  A failure is only logged. -/
def placeVm (st : SharedVmState) : M Unit :=
  match st.cgroupsPath with
  | some cg => do
    let _ ← tell (.placeInCgroup st.chPid cg)
  | none => pure ()

namespace CloudHvInstance

/-- The bundle is that of a sandbox; without the annotation it is a container's. -/
def isSandbox (i : CloudHvInstance) : Prop := i.bundle.containerType.getD "container" = "sandbox"

instance (i : CloudHvInstance) : Decidable i.isSandbox :=
  inferInstanceAs (Decidable (i.bundle.containerType.getD "container" = "sandbox"))

def startSandbox (i : CloudHvInstance) : M ℕ := do
  let (netns, cgroupsPath) ← tell (.sandboxSpec i.bundle)
  let socket ← wrap (← tell .loadConfig) ("config error: " ++ ·)
  let _ ← tell (.vmsInsert i.id ⟨0, 1, none, netns, cgroupsPath, "", socket⟩)
  -- the process id of the shim
  pure 0

/-- The image of the container; a failed conversion is tried again up to `left` times. -/
def erofsImage (imageKey : String) : (attempt left : ℕ) → (last : String) → M String
  | _, 0, last => throw last
  | attempt, left + 1, _ => do
    match ← tell (.prepareErofs imageKey) with
    | .ok path => pure path
    | .error e => do
      tell (.sleep (100 * (attempt + 1)))
      erofsImage imageKey (attempt + 1) left e

/-- A further container in a VM that is there. -/
def joinVm (i : CloudHvInstance) (rec : ℕ) (st : SharedVmState) (erofsPath : String) (config : List UInt8) :
    M (ℕ × SharedVmState × ℕ) := do
  let pid ← wrap (← tell (.addContainer st.daemonSocket st.daemonVmId erofsPath i.id config))
    ("daemon add_container: " ++ ·)
  pure (rec, st, pid)

/-- The first container: acquire a VM, and put a new record in the place of the old one. -/
def acquireVm (i : CloudHvInstance) (rec : ℕ) (st : SharedVmState) (imageKey erofsPath : String)
    (config : List UInt8) : M (ℕ × SharedVmState × ℕ) := do
  let vm ← wrap (← tell (.acquireSandbox st.daemonSocket
    ⟨st.netns.getD "", imageKey, erofsPath, i.id, config⟩)) ("daemon acquire: " ++ ·)
  let count ← tell (.countLoad rec)
  let tap := if vm.tapName = "" then none else some vm.tapName
  let new : SharedVmState := ⟨vm.chPid, count, tap, st.netns, st.cgroupsPath, vm.vmId, st.daemonSocket⟩
  let rec' ← tell (.vmsInsert i.sandboxId new)
  placeVm new
  pure (rec', new, vm.containerPid)

/-- The VM of the sandbox for this container, with the record that counts it and the container's pid. -/
def vmFor (i : CloudHvInstance) (rec : ℕ) (st : SharedVmState) (imageKey erofsPath : String)
    (config : List UInt8) : M (ℕ × SharedVmState × ℕ) :=
  if st.daemonVmId ≠ "" then i.joinVm rec st erofsPath config
  else i.acquireVm rec st imageKey erofsPath config

def startContainer (i : CloudHvInstance) : M ℕ := do
  match ← tell (.vmsGet i.sandboxId) with
  | none => throw ("sandbox VM not found: " ++ i.sandboxId)
  | some (rec, st) => do
    let key ← tell .imageKey
    let erofsPath ← erofsImage key 0 3 ""
    let config ← tell .readConfig
    let (active, state, pid) ← i.vmFor rec st key erofsPath config
    tell (.spawnWatcher state.daemonSocket state.daemonVmId i.id state.chPid)
    let _ ← tell (.countAdd active)
    pure pid

def start (i : CloudHvInstance) : M ℕ := do
  wrap (← tell .readSpec) SpecFailure.text
  if i.isSandbox then i.startSandbox else i.startContainer

/-- Release the VM of a sandbox, and forget the sandbox.  A failed release is only logged. -/
def releaseVm (i : CloudHvInstance) (st : SharedVmState) : M Unit := do
  let _ ← tell (.releaseSandbox st.daemonSocket st.daemonVmId)
  cleanupTap st
  tell (.vmsRemove i.sandboxId)

/-- The end of a sandbox that is killed: there may be no VM to release. -/
def killSandbox (i : CloudHvInstance) (st : SharedVmState) : M Unit :=
  if st.daemonVmId ≠ "" then i.releaseVm st
  else do
    cleanupTap st
    tell (.vmsRemove i.sandboxId)

def kill (i : CloudHvInstance) (signal : ℕ) : M Unit := do
  match ← tell (.vmsGet i.sandboxId) with
  | none => tell (.exitSet i.id 0)
  | some (_, st) =>
    if i.id = i.sandboxId ∧ (signal = 9 ∨ signal = 15) then do
      i.killSandbox st
      tell (.exitSet i.id 0)
    else do
      let _ ← tell (.killContainer st.daemonSocket st.daemonVmId i.id signal)

def delete (i : CloudHvInstance) : M Unit := do
  match ← tell (.vmsGet i.sandboxId) with
  | none => tell (.exitSet i.id 0)
  | some (rec, st) => do
    let prev ← tell (.countSub rec)
    if prev ≤ 1 then do
      i.releaseVm st
      tell (.exitSet i.id 0)
    else do
      let _ ← tell (.deleteContainer st.daemonSocket st.daemonVmId i.id)
      tell (.exitSet i.id 0)

end CloudHvInstance

inductive Call where
  | start (i : CloudHvInstance)
  | kill (i : CloudHvInstance) (signal : ℕ)
  | delete (i : CloudHvInstance)
  deriving DecidableEq

def Call.instance : Call → CloudHvInstance
  | .start i | .kill i _ | .delete i => i

/-- What a call comes to. -/
def Call.run : Call → M Unit
  | .start i => do let _ ← i.start
  | .kill i signal => i.kill signal
  | .delete i => i.delete

end CloudHv.Shim
