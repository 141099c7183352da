import CloudHv.Daemon.Host
import CloudHv.Lib.Threads

/-!
# World — the daemon's shared state and the actions of its tasks

The daemon's tasks share the pool's tables and counters, the snapshot manager's tables, the registry
of agent connections and the host.  Every lock the daemon takes is held for one table operation, or
for a function that awaits nothing, so each of these is one atomic `Action`; between two actions any
other task can run.

Code that returns `anyhow::Result` is in the monad `M`: it fails with the chain of contexts of the
error, or ends in a panic, which no caller sees and no response follows.
-/

namespace CloudHv.Daemon

open Conc
open Agent (Err)

/-! ### Configuration -/

/-- The fields of `DaemonConfig` that the daemon's logic reads, and its documented hard cap. -/
structure DaemonConfig where
  poolSize : ℕ := 3
  maxPoolSize : ℕ := 10
  rootfsPath : String
  stateDir : String := "/run/cloudhv/daemon"
  warmupDurationSecs : ℕ := 30
  maxSnapshots : ℕ := 100

namespace DaemonConfig

def statePath (cfg : DaemonConfig) : Path := Path.join [] cfg.stateDir

def baseSnapshotDir (cfg : DaemonConfig) : Path := cfg.statePath.join "base-snapshot"

def snapshotCacheDir (cfg : DaemonConfig) : Path := cfg.statePath.join "snapshot-cache"

/-- The state directory of a VM. -/
def vmDir (cfg : DaemonConfig) (vmId : String) : Path := cfg.statePath.join vmId

end DaemonConfig

/-- The configuration, the daemon's own pid, and the decoder of the `base64` crate. -/
structure Env where
  cfg : DaemonConfig
  pid : ℕ
  decode : String → Option (List UInt8)

/-! ### The pool -/

structure PoolVm where
  vmId : String
  apiSocket : Path
  vsockSocket : Path
  cid : ℕ
  chPid : ℕ
  deriving DecidableEq

structure Pool where
  ready : List PoolVm
  active : Finmap (fun _ : String => PoolVm)
  activeCount : ℕ
  nextCid : ℕ

def Pool.new : Pool := ⟨[], ∅, 0, 3⟩

inductive PoolAct where
  | readyPop
  | readyPush (vm : PoolVm)
  | readyLen
  | activeInsert (vm : PoolVm)
  | activeRemove (vmId : String)
  | activeGet (vmId : String)
  | countAdd
  | countSub
  | countLoad
  | cidLoad
  | cidFetchAdd
  deriving DecidableEq

abbrev PoolAct.Answer : PoolAct → Type
  | .readyPop | .activeRemove _ | .activeGet _ => Option PoolVm
  | .readyLen | .countLoad | .cidLoad | .cidFetchAdd => ℕ
  | .readyPush _ | .activeInsert _ | .countAdd | .countSub => Unit

/-- `fetch_add(1)` and `fetch_sub(1)` on the 64-bit counters. -/
def increment (n : ℕ) : ℕ := if n = 18446744073709551615 then 0 else n + 1

def decrement (n : ℕ) : ℕ := if n = 0 then 18446744073709551615 else n - 1

def Pool.perform (p : Pool) : (a : PoolAct) → a.Answer × Pool
  | .readyPop => (p.ready.getLast?, { p with ready := p.ready.dropLast })
  | .readyPush vm => ((), { p with ready := p.ready ++ [vm] })
  | .readyLen => (p.ready.length, p)
  | .activeInsert vm => ((), { p with active := p.active.insert vm.vmId vm })
  | .activeRemove id => (p.active.lookup id, { p with active := p.active.erase id })
  | .activeGet id => (p.active.lookup id, p)
  | .countAdd => ((), { p with activeCount := increment p.activeCount })
  | .countSub => ((), { p with activeCount := decrement p.activeCount })
  | .countLoad => (p.activeCount, p)
  | .cidLoad => (p.nextCid, p)
  | .cidFetchAdd => (p.nextCid, { p with nextCid := increment p.nextCid })

/-! ### The snapshot manager -/

/-- Metadata for a cached workload snapshot. -/
structure SnapshotEntry where
  dir : Path
  lastUsed : ℕ
  erofsMtime : Option ℕ
  deriving DecidableEq

structure Snapshots where
  entries : Finmap (fun _ : String => SnapshotEntry)
  activeShadows : Finset String
  /-- The monotonic clock behind `lastUsed`. -/
  clock : ℕ

def Snapshots.new : Snapshots := ⟨∅, ∅, 0⟩

inductive SnapAct where
  | hasSnapshot (imageKey : String) (erofsPath : Option String)
  | getSnapshotDir (imageKey : String)
  | cacheSnapshot (imageKey : String) (dir : Path) (erofsMtime : Option ℕ)
  | shadowsContains (imageKey : String)
  | shadowsInsert (imageKey : String)
  | shadowsRemove (imageKey : String)
  | shadowCount
  | snapshotKeys
  deriving DecidableEq

/-- The result of `has_snapshot` comes with the modification time of the image that it has read, if it
has read one. -/
abbrev SnapAct.Answer : SnapAct → Type
  | .hasSnapshot _ _ => Bool × Option ℕ
  | .shadowsContains _ => Bool
  | .getSnapshotDir _ => Option Path
  | .cacheSnapshot _ _ _ | .shadowsInsert _ | .shadowsRemove _ => Unit
  | .shadowCount => ℕ
  | .snapshotKeys => Finset String

/-- The image's modification time, read for an entry that has a time to compare it with. -/
def SnapshotEntry.currentMtime (e : SnapshotEntry) (mtimes : Finmap (fun _ : String => ℕ)) (readable : Bool)
    (erofs : Option String) : Option ℕ :=
  if readable && e.erofsMtime.isSome then erofs.bind mtimes.lookup else none

/-- The erofs image was modified since the entry was made.  Without both times it counts as valid. -/
def SnapshotEntry.stale (e : SnapshotEntry) (current : Option ℕ) : Bool :=
  match e.erofsMtime, current with
  | some snap, some current => current ≠ snap
  | _, _ => false

/-- No entry was used before the one of `k`. -/
def leastUsed (m : Finmap (fun _ : String => SnapshotEntry)) (k : String) : Bool :=
  match m.lookup k with
  | none => false
  | some e => decide (∀ k' ∈ m.keys, ((m.lookup k').map fun e' => decide (e.lastUsed ≤ e'.lastUsed)) = some true)

/-- The eviction loop; `ks` are the keys `min_by_key` finds, one for each round.  The result has the
directories that were given up. -/
def evict (max : ℕ) : List String → Finmap (fun _ : String => SnapshotEntry) →
    Option (Finmap (fun _ : String => SnapshotEntry) × List Path)
  | [], m => if m.keys.card < max ∨ m.keys.card = 0 then some (m, []) else none
  | k :: ks, m =>
    if m.keys.card < max then none
    else if leastUsed m k then
      match m.lookup k, evict max ks (m.erase k) with
      | some e, some (m', dirs) => some (m', e.dir :: dirs)
      | _, _ => none
    else none

/-- The manager's operations; the third result is the directories that are deleted. -/
def Snapshots.perform (cfg : DaemonConfig) (s : Snapshots) (mtimes : Finmap (fun _ : String => ℕ)) :
    (a : SnapAct) → Choice → Option (a.Answer × Snapshots × List Path)
  | .hasSnapshot key erofs, c =>
    match s.entries.lookup key with
    | none => some ((false, none), s, [])
    | some e =>
      let current := e.currentMtime mtimes c.err.isNone erofs
      if e.stale current then
        some ((false, current), { s with entries := s.entries.erase key }, [e.dir])
      else some ((true, current), s, [])
  | .getSnapshotDir key, c =>
    match s.entries.lookup key with
    | none => some (none, s, [])
    | some e =>
      let now := s.clock + c.tick
      some (some e.dir, { s with entries := s.entries.insert key { e with lastUsed := now }, clock := now }, [])
  | .cacheSnapshot key dir mtime, c =>
    match evict cfg.maxSnapshots c.keys s.entries with
    | none => none
    | some (m, dirs) =>
      let now := s.clock + c.tick
      some ((), { s with entries := m.insert key ⟨dir, now, mtime⟩, clock := now }, dirs)
  | .shadowsContains key, _ => some (decide (key ∈ s.activeShadows), s, [])
  | .shadowsInsert key, _ => some ((), { s with activeShadows := insert key s.activeShadows }, [])
  | .shadowsRemove key, _ => some ((), { s with activeShadows := s.activeShadows.erase key }, [])
  | .shadowCount, _ => some (s.activeShadows.card, s, [])
  | .snapshotKeys, _ => some (s.entries.keys, s, [])

/-! ### Responses -/

/-- An error-free answer to AcquireSandbox. -/
structure Acquired where
  vmId : String
  apiSocket : Path
  vsockSocket : Path
  cid : ℕ
  chPid : ℕ
  fromSnapshot : Bool
  containerPid : ℕ
  tapName : String
  deriving DecidableEq

/-- Every other answer. -/
inductive Plain where
  | added (containerPid : ℕ)
  | ok
  | waited (exitStatus : ℕ) (exitedAt : String) (error : Option String)
  | status (poolReady activeVms shadowVmsRunning : ℕ) (snapshotKeys : Finset String)
  | error (msg : String)
  deriving DecidableEq

inductive Response where
  | acquired (a : Acquired)
  | plain (p : Plain)
  deriving DecidableEq

/-! ### Actions -/

inductive Action where
  | host (a : HostAct)
  | pool (a : PoolAct)
  | snap (a : SnapAct)
  | agentsGet (vmId : String)
  | agentsInsert (vmId : String) (conn : ℕ)
  | agentsRemove (vmId : String)
  | warmFetchAdd
  | spawnReplenish
  | spawnShadow (imageKey erofsPath : String)
  | sleep (ms : ℕ)
  | bindSocket
  | panicked
  | reply (r : Response)
  /-- The erofs image at a path is replaced. -/
  | touch (file : String) (mtime : ℕ)
  deriving DecidableEq

abbrev Answer : Action → Type
  | .host a => a.Answer
  | .pool a => a.Answer
  | .snap a => a.Answer
  | .agentsGet _ => Option ℕ
  | .warmFetchAdd => ℕ
  | .bindSocket => Except Err Unit
  | .agentsInsert _ _ | .agentsRemove _ | .spawnReplenish | .spawnShadow _ _ | .sleep _ | .panicked
  | .reply _ | .touch _ _ => Unit

/-- The shared state.  `agents` maps a VM id to the process whose agent the connection reaches. -/
structure World where
  pool : Pool
  snapshots : Snapshots
  host : Host
  agents : Finmap (fun _ : String => ℕ)
  warmCounter : ℕ
  listening : Bool
  /-- The VM ids that error-free AcquireSandbox answers returned and that were not released since. -/
  handed : Finset String

def World.handOut (w : World) : Response → World
  | .acquired a => { w with handed := insert a.vmId w.handed }
  | _ => w

def World.takeBack (w : World) : PoolAct → World
  | .activeRemove id => { w with handed := w.handed.erase id }
  | _ => w

def perform (E : Env) (w : World) : (a : Action) → Choice → Option (Answer a × World)
  | .host a, c => (w.host.perform a c).map fun (r, h) => (r, { w with host := h })
  | .pool a, _ =>
    let (r, p) := w.pool.perform a
    some (r, { w.takeBack a with pool := p })
  | .snap a, c => (w.snapshots.perform E.cfg w.host.mtimes a c).map fun (r, s, dirs) =>
    (r, { w with snapshots := s, host := dirs.foldl Host.removeDir w.host })
  | .agentsGet id, _ => some (w.agents.lookup id, w)
  | .agentsInsert id conn, _ => some ((), { w with agents := w.agents.insert id conn })
  | .agentsRemove id, _ => some ((), { w with agents := w.agents.erase id })
  | .warmFetchAdd, _ => some (w.warmCounter, { w with warmCounter := increment w.warmCounter })
  | .bindSocket, c =>
    match c.err with
    | some e => some (.error e, w)
    | none => some (.ok (), { w with listening := true })
  | .reply r, _ => some ((), w.handOut r)
  | .touch f t, _ => some ((), { w with host := { w.host with mtimes := w.host.mtimes.insert f t } })
  | .spawnReplenish, _ => some ((), w)
  | .spawnShadow _ _, _ => some ((), w)
  | .sleep _, _ => some ((), w)
  | .panicked, _ => some ((), w)

/-! ### Fallible code -/

inductive Fail where
  | err (e : Err)
  | panic
  deriving DecidableEq

abbrev P := Prog Action Answer

abbrev M := ExceptT Fail P

/-- An action that cannot fail. -/
def tell (a : Action) : M (Answer a) := liftM (Prog.call a : P (Answer a))

/-- The answer of a fallible action, with its error as `wrap` reports it. -/
def ask {α ε : Type} (p : P (Except ε α)) (wrap : ε → Err) : M α := ExceptT.mk do
  match ← p with
  | .ok x => pure (.ok x)
  | .error e => pure (.error (.err (wrap e)))

def onHost (a : HostAct) : P a.Answer := Prog.call (R := Answer) (.host a)

def host (a : HostAct) : M a.Answer := tell (.host a)

def pool (a : PoolAct) : M a.Answer := tell (.pool a)

def snap (a : SnapAct) : M a.Answer := tell (.snap a)

/-- `with_context`. -/
def Fail.within (ctx : String) : Fail → Fail
  | .err e => .err (ctx :: e)
  | .panic => .panic

def context {α : Type} (m : M α) (ctx : String) : M α := ExceptT.mk do
  match ← m.run with
  | .ok x => pure (.ok x)
  | .error e => pure (.error (e.within ctx))

/-- A result that the caller looks at; a panic goes on. -/
def attempt {α : Type} (m : M α) : M (Except Err α) := ExceptT.mk do
  match ← m.run with
  | .ok x => pure (.ok (.ok x))
  | .error (.err e) => pure (.ok (.error e))
  | .error .panic => pure (.error .panic)

def bail {α : Type} (msg : String) : M α := throw (.err [msg])

def panics {α : Type} : M α := do
  tell .panicked
  throw .panic

/-! ### Failed steps -/

def isError {ε α : Type} : Except ε α → Bool
  | .ok _ => false
  | .error _ => true

/-- The call failed, or its poll came to nothing. -/
def HostAct.failed : (a : HostAct) → a.Answer → Bool
  | .createDirAll _, r | .createFile _, r | .stripKernelIp _, r | .writePid _ _, r => isError r
  | .moveToNetns _ _ _, r => isError r
  | .prepareSnapshot _ _ _ _, r => isError r
  | .spawnCh _, r | .createTap _, r | .linkIndex _, r | .wireTap _ _, r => isError r
  | .api _ _, r => isError r
  | .addDisk _ _, r => isError r
  | .addNet _ _ _, r => isError r
  | .connectAgent _, r => isError r
  | .configureNetwork _ _ _ _, r | .killContainer _ _ _, r | .deleteContainer _ _, r => isError r
  | .runContainer _ _, r => isError r.result
  | .waitContainer _ _, r => isError r
  | .probePod _, r => isError r
  | .delLink _, r => isError r
  | .chReady _, r | .agentHealthy _, r => !r
  | .readPid _, r => r.isNone
  | _, _ => false

/-- The step failed, or ended its task in a panic. -/
def failed : (a : Action) → Answer a → Bool
  | .host a, r => a.failed r
  | .snap (.getSnapshotDir _), r => r.isNone
  | .bindSocket, r => isError r
  | .panicked, _ => true
  | _, _ => false

end CloudHv.Daemon
