import CloudHv.Agent.Container
import CloudHv.Lib.Threads

/-!
# Server — the agent's RPC handlers and background tasks

`AgentServiceHandler` of `crates/agent/src/server.rs`: every request is a task, and so are the exit
task and the two output readers that a `start` spawns.  A manager method is one action, because the
handler holds the manager's lock for all of it; `wait_container` lets the lock go between taking the
receiver and marking the container stopped, so it is a program of several actions.

Children of the agent exit when they please: `procExit` comes in from outside.
-/

namespace CloudHv.Agent

open Conc

/-- What ends the `select!` of `wait_container`. -/
inductive Wake where
  | changed
  /-- The sender is gone and the receiver has seen its last value. -/
  | closed
  /-- The 600 seconds are over. -/
  | timeout
  deriving DecidableEq

inductive Stream where
  | stdout | stderr
  deriving DecidableEq

inductive Response where
  | created (pid : ℕ)
  | started (pid : ℕ)
  | killed
  | deleted (pid exitStatus : ℕ)
  | waited (exitStatus : ℕ) (exitedAt : String)
  | state (st : StateResponse)
  | logs (stdout stderr : List UInt8) (offset : ℕ) (eof : Bool)
  | adopted (pid : ℕ)
  | error (msg : String)
  deriving DecidableEq

/-- The atomic actions of the agent's tasks. -/
inductive Action where
  | create (req : CreateRequest)
  | start (id : String)
  | run (req : CreateRequest)
  | kill (id : String) (signal : ℕ)
  | delete (id : String)
  | adopt (oldId newId : String)
  | state (id : String)
  | getExitReceiver (id : String)
  | borrow (rx : ℕ)
  | select (rx : ℕ)
  | utcNow
  | markStopped (id : String) (code : ℤ)
  | getLogBuffer (id : String)
  | readLogs (buf : ℕ)
  | respond (resp : Response)
  | waitForExit (pid : ℕ)
  | send (tx : ℕ) (status : ExitStatus)
  | setEof (buf : ℕ)
  | dropSender (tx : ℕ)
  | capture (buf : ℕ) (from_ : Stream)
  | procExit (pid : ℕ) (code : ℤ)
  deriving DecidableEq

abbrev Answer : Action → Type
  | .create _ | .start _ | .run _ | .adopt _ _ => Except Err ℕ
  | .kill _ _ => Except Err KillOutcome
  | .delete _ => Except Err (ℕ × ℤ)
  | .state _ => StateResponse
  | .getExitReceiver _ | .getLogBuffer _ => Option ℕ
  | .borrow _ => Option ExitStatus
  | .select _ => Wake
  | .utcNow => String
  | .readLogs _ => ContainerLogs
  | .waitForExit _ => ℤ
  | .capture _ _ => Option (List UInt8)
  | .markStopped _ _ | .respond _ | .send _ _ | .setEof _ | .dropSender _ | .procExit _ _ => Unit

abbrev Task := Prog Action Answer

def does (a : Action) : Task (Answer a) := Prog.call a

/-! ### The handlers -/

/-- A method's result as a response; `fmt` is how the handler prints the error. -/
def reply {α : Type} (ok : α → Response) (what : String) (fmt : Err → String) : Except Err α → Task Unit
  | .ok x => does (.respond (ok x))
  | .error e => does (.respond (.error (what ++ " failed: " ++ fmt e)))

def createContainer (req : CreateRequest) : Task Unit := do
  reply .created "create_container" Err.full (← does (.create req))

def startContainer (id : String) : Task Unit := do
  reply .started "start_container" Err.display (← does (.start id))

def runContainer (req : CreateRequest) : Task Unit := do
  reply .started "run_container" Err.full (← does (.run req))

def killContainer (id : String) (signal : ℕ) : Task Unit := do
  reply (fun _ => .killed) "kill_container" Err.display (← does (.kill id signal))

def deleteContainer (id : String) : Task Unit := do
  reply (fun r => .deleted r.1 (asU32 r.2)) "delete_container" Err.display (← does (.delete id))

def adoptContainer (oldId newId : String) : Task Unit := do
  reply .adopted "adopt_container" Err.full (← does (.adopt oldId newId))

def stateContainer (id : String) : Task Unit := do
  does (.respond (.state (← does (.state id))))

/-- The exit code and time that `wait_container` reports, for the receiver it took. -/
def awaitExit (rx : ℕ) : Task (ℤ × String) := do
  match ← does (.borrow rx) with
  | some st => pure (st.code, st.exitedAt)
  | none =>
    match ← does (.select rx) with
    | .changed =>
      match ← does (.borrow rx) with
      | some st => pure (st.code, st.exitedAt)
      | none => pure (137, ← does .utcNow)
    | .closed => pure (137, ← does .utcNow)
    | .timeout => pure (137, ← does .utcNow)

def waitContainer (id : String) : Task Unit := do
  match ← does (.getExitReceiver id) with
  | none => does (.respond (.error ("wait_container: unknown container " ++ id)))
  | some rx =>
    let (code, exitedAt) ← awaitExit rx
    does (.markStopped id code)
    does (.respond (.waited (asU32 code) exitedAt))

def getContainerLogs (id : String) (offset : ℕ) : Task Unit := do
  match ← does (.getLogBuffer id) with
  | some buf =>
    let logs ← does (.readLogs buf)
    does (.respond (.logs (logs.stdout.drop offset) (logs.stderr.drop offset)
      (max logs.stdout.length logs.stderr.length) logs.eof))
  | none => does (.respond (.logs [] [] 0 true))

/-! ### The tasks a start spawns -/

/-- The exit task: publish the exit code, then close the log.  The sender goes with the task. -/
def exitTask (pid : ℕ) : Task Unit := do
  let code ← does (.waitForExit pid)
  let now ← does .utcNow
  does (.send pid ⟨code, now⟩)
  does (.setEof pid)
  does (.dropSender pid)

inductive TaskName where
  | createContainer (req : CreateRequest)
  | startContainer (id : String)
  | runContainer (req : CreateRequest)
  | killContainer (id : String) (signal : ℕ)
  | deleteContainer (id : String)
  | adoptContainer (oldId newId : String)
  | stateContainer (id : String)
  | waitContainer (id : String)
  | getContainerLogs (id : String) (offset : ℕ)
  | exitTask (pid : ℕ)
  | reader (pid : ℕ) (from_ : Stream)
  | procExit (pid : ℕ) (code : ℤ)
  deriving DecidableEq

def TaskName.body : TaskName → Task Unit
  | .createContainer req => Agent.createContainer req
  | .startContainer id => Agent.startContainer id
  | .runContainer req => Agent.runContainer req
  | .killContainer id sig => Agent.killContainer id sig
  | .deleteContainer id => Agent.deleteContainer id
  | .adoptContainer o n => Agent.adoptContainer o n
  | .stateContainer id => Agent.stateContainer id
  | .waitContainer id => Agent.waitContainer id
  | .getContainerLogs id off => Agent.getContainerLogs id off
  | .exitTask pid => Agent.exitTask pid
  | .reader pid s => do let _ ← does (.capture pid s)
  | .procExit pid code => does (.procExit pid code)

/-- A new child comes with its exit task and its readers; a reader goes round once for every chunk. -/
def spawned : (a : Action) → Answer a → List TaskName
  | .start _, .ok pid => [.reader pid .stdout, .reader pid .stderr, .exitTask pid]
  | .run _, .ok pid => [.reader pid .stdout, .reader pid .stderr, .exitTask pid]
  | .capture pid s, some _ => [.reader pid s]
  | _, _ => []

/-! ### The actions -/

/-- What the environment decides in a step. -/
structure Choice where
  io : Io
  wake : Wake
  now : String
  chunk : Option (List UInt8)

def ContainerLogs.append (l : ContainerLogs) (bytes : List UInt8) : Stream → ContainerLogs
  | .stdout => { l with stdout := l.stdout ++ bytes }
  | .stderr => { l with stderr := l.stderr ++ bytes }

def Guest.append (g : Guest) (buf : ℕ) (s : Stream) (bytes : List UInt8) : Guest :=
  match g.logBufs.lookup buf with
  | none => g
  | some l => { g with logBufs := g.logBufs.insert buf (l.append bytes s) }

def Guest.setEof (g : Guest) (buf : ℕ) : Guest :=
  match g.logBufs.lookup buf with
  | none => g
  | some l => { g with logBufs := g.logBufs.insert buf { l with eof := true } }

/-- When the `select!` on `rx` can end in the way `w`. -/
def Guest.canWake (g : Guest) (rx : ℕ) : Wake → Bool
  | .changed => (g.published.lookup rx).isSome
  | .closed => rx ∈ g.closed && (g.published.lookup rx).isNone
  | .timeout => true

def perform (g : Guest) : (a : Action) → Choice → Option (Answer a × Guest)
  | .create req, c => some (Method.exec (Agent.create c.io req) g)
  | .start id, c => g.execSpawn c.io (Agent.start c.io id)
  | .run req, c => g.execSpawn c.io (Agent.run c.io req)
  | .kill id sig, c => some (Method.exec (Agent.kill c.io id sig) g)
  | .delete id, c => some (Method.exec (Agent.delete c.io id) g)
  | .adopt o n, _ => some (Method.exec (Agent.adopt o n) g)
  | .state id, _ => some (g.state id, g)
  | .getExitReceiver id, _ => some (g.getExitReceiver id, g)
  | .borrow rx, _ => some (g.published.lookup rx, g)
  | .select rx, c => if g.canWake rx c.wake then some (c.wake, g) else none
  | .utcNow, c => some (c.now, g)
  | .markStopped id code, _ => some ((), g.markStopped id code)
  | .getLogBuffer id, _ => some (g.mgr.logs.lookup id, g)
  | .readLogs buf, _ => some ((g.logBufs.lookup buf).getD ⟨[], [], false⟩, g)
  | .respond _, _ => some ((), g)
  | .waitForExit pid, _ =>
    match g.procs.lookup pid with
    | some (.exited code) => some (code, g)
    | _ => none
  | .send tx st, _ => some ((), { g with published := g.published.insert tx st })
  | .setEof buf, _ => some ((), g.setEof buf)
  | .dropSender tx, _ => some ((), { g with closed := insert tx g.closed })
  | .capture buf s, c =>
    match c.chunk with
    | some bytes => some (some bytes, g.append buf s bytes)
    | none => some (none, g)
  | .procExit pid code, _ =>
    match g.procs.lookup pid with
    | some .running => some ((), { g with procs := g.procs.insert pid (.exited code) })
    | _ => none

/-- Requests come in at any time, and a child that runs can exit. -/
def external (g : Guest) : TaskName → Bool
  | .exitTask _ | .reader _ _ => false
  | .procExit pid _ => g.procs.lookup pid = some .running
  | _ => true

/-- The agent: its requests and background tasks over the guest. -/
def agent : System Guest Choice Action Answer TaskName where
  body := TaskName.body
  perform := perform
  spawned := spawned
  external := external

abbrev AgentConf := Conf Guest Action Answer TaskName

/-- The agent of a freshly booted guest, before the first request. -/
def booted (disks : List Disk) : AgentConf := ⟨Guest.boot disks, []⟩

/-! ### A guest to run -/

/-- A pod's container in a VM with its rootfs and one layer disk. -/
def oneContainer : CreateRequest := ⟨"web", [], [0x7b], false, 1⟩

def twoDisks : List Disk := [⟨"/rootfs.erofs", true, "rootfs"⟩, ⟨"/web.erofs", true, "ctr-web"⟩]

def go (i : ℕ) (w : Wake) : Label Choice TaskName := .sched i ⟨Io.ok 10, w, "now", none⟩

end CloudHv.Agent
