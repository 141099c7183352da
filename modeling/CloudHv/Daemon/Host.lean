import CloudHv.Agent.Container

/-!
# Host — the machine the daemon runs on

What the daemon works on outside its own memory: directories and files under its state directory,
the Cloud Hypervisor processes it spawned, the sockets they listen on, snapshot directories, and the
links of the host and pod network namespaces.  A guest inside a Cloud Hypervisor process is the
agent's `Guest`; a snapshot directory holds the guest as it was when the snapshot was taken.

The host calls of the daemon are the actions `HostAct`.  Any of them can fail; which one does, and
what the operating system picks (pids, times), is in a `Choice`.
-/

namespace CloudHv.Daemon

open Agent (Err Guest Disk CreateRequest Io)

/-! ### Paths -/

/-- A path as its components from the root on. -/
abbrev Path := List String

def splitSlash : List Char → List (List Char)
  | [] => [[]]
  | c :: cs =>
    if c = '/' then [] :: splitSlash cs
    else match splitSlash cs with
      | [] => [[c]]
      | w :: ws => (c :: w) :: ws

/-- One component further, as the kernel resolves it. -/
def Path.down (p : Path) (w : String) : Path :=
  if w = "" ∨ w = "." then p else if w = ".." then p.dropLast else p ++ [w]

/-- `PathBuf::join`, with the result resolved; an absolute path replaces the base. -/
def Path.join (p : Path) (s : String) : Path :=
  ((splitSlash s.toList).map String.ofList).foldl Path.down (if s.toList.head? = some '/' then [] else p)

def Path.display (p : Path) : String := "/" ++ String.intercalate "/" p

/-- The first `n` bytes of a string, `none` when that is not a character boundary. -/
def takeBytes : List Char → ℕ → Option (List Char)
  | _, 0 => some []
  | [], _ => some []
  | c :: cs, n => if c.utf8Size ≤ n then (takeBytes cs (n - c.utf8Size)).map (c :: ·) else none

/-- `&s[..n.min(s.len())]`; `none` stands for the panic. -/
def slicePrefix (s : String) (n : ℕ) : Option String := (takeBytes s.toList n).map String.ofList

/-! ### Processes, sockets and links -/

/-- A Cloud Hypervisor process. -/
structure Vmm where
  /-- The state directory it was spawned for. -/
  dir : Path
  /-- It was sent a signal to terminate. -/
  told : Bool
  guest : Option Guest

structure PodNetInfo where
  ipCidr : String
  gateway : String
  mac : String
  deriving DecidableEq

/-- A prepared snapshot: the work directory, and the CID and vsock socket patched into its config. -/
structure Prepared where
  dir : Path
  cid : ℕ
  vsockSocket : Path
  deriving DecidableEq

/-- Requests to Cloud Hypervisor's API socket that hot-plug nothing. -/
inductive ApiCall where
  | create (disks : List Disk) (cid : ℕ) (vsockSocket : Path)
  | boot
  | pause
  | resume
  | snapshot (dest : Path)
  | restore (source : Prepared)
  deriving DecidableEq

def ApiCall.path : ApiCall → String
  | .create _ _ _ => "/api/v1/vm.create"
  | .boot => "/api/v1/vm.boot"
  | .pause => "/api/v1/vm.pause"
  | .resume => "/api/v1/vm.resume"
  | .snapshot _ => "/api/v1/vm.snapshot"
  | .restore _ => "/api/v1/vm.restore"

/-- How `api_request` can fail. -/
inductive ApiFailure where
  | connect (e : String)
  | handshake (e : String)
  | send (e : String)
  | body (e : String)
  | status (text : String)
  deriving DecidableEq

def apiError (sock : Path) (path : String) : ApiFailure → Err
  | .connect e => ["connect to CH API: " ++ sock.display, e]
  | .handshake e => ["HTTP handshake with CH API", e]
  | .send e => ["send request", e]
  | .body e => [e]
  | .status text => ["CH API PUT " ++ path ++ ": " ++ text]

/-- How `connect_agent` can fail. -/
inductive ConnectFailure where
  | connect (e : String)
  | io (e : String)
  | timedOut
  | read (e : String)
  | refused (response : String)
  deriving DecidableEq

def connectError (vsock : Path) : ConnectFailure → Err
  | .connect e => ["connect vsock: " ++ vsock.display, e]
  | .io e => [e]
  | .timedOut => ["vsock CONNECT handshake timed out"]
  | .read e => ["vsock read", e]
  | .refused r => ["vsock CONNECT failed: " ++ r]

structure Host where
  procs : Finmap (fun _ : ℕ => Vmm)
  /-- The process that listens on a socket path. -/
  listeners : Path → Option ℕ
  /-- The `ch.pid` files, by directory. -/
  pidFiles : Path → Option ℕ
  /-- The guests stored in snapshot directories. -/
  snaps : Path → Option Guest
  mtimes : Finmap (fun _ : String => ℕ)
  /-- Links of the host's network namespace by name, and of pod namespaces. -/
  links : Finmap (fun _ : String => ℕ)
  podLinks : Finmap (fun _ : String × String => ℕ)
  nextLink : ℕ

/-- A run of a container in a guest: the answer of the RPC, and the erofs devices it mounted. -/
structure RunAnswer where
  result : Except String ℕ
  mounted : List String

/-! ### The calls -/

inductive HostAct where
  -- files
  | createDirAll (p : Path)
  | createFile (p : Path)
  | fileMtime (file : String)
  | removeDirAll (p : Path)
  | baseSnapshotValid (dir : Path)
  | prepareSnapshot (base stateDir : Path) (cid : ℕ) (vsockSocket : Path)
  | stripKernelIp (dir : Path)
  | writePid (dir : Path) (pid : ℕ)
  | readPid (dir : Path)
  -- processes
  | spawnCh (stateDir : Path)
  | sigterm (pid : ℕ)
  | awaitGone (pid : ℕ)
  | sigkill (pid : ℕ)
  -- Cloud Hypervisor
  | chReady (sock : Path)
  | api (sock : Path) (call : ApiCall)
  | addDisk (sock : Path) (disk : Disk)
  | addNet (sock : Path) (tap mac : String)
  -- the guest agent
  | agentHealthy (vsock : Path)
  | connectAgent (vsock : Path)
  | configureNetwork (conn : ℕ) (ip gateway : String) (prefixLen : ℕ)
  | runContainer (conn : ℕ) (req : CreateRequest)
  | killContainer (conn : ℕ) (id : String) (signal : ℕ)
  | waitContainer (conn : ℕ) (id : String)
  | deleteContainer (conn : ℕ) (id : String)
  -- links
  | probePod (netns : String)
  | delLink (tap : String)
  | createTap (tap : String)
  | linkIndex (tap : String)
  | moveToNetns (tap : String) (link : ℕ) (netns : String)
  | wireTap (netns tap : String)
  deriving DecidableEq

/-- The answers.  Those of `addDisk`, `addNet` and `delLink` also say which process and device the
call was about, which the daemon does not look at. -/
abbrev HostAct.Answer : HostAct → Type
  | .createDirAll _ | .createFile _ | .stripKernelIp _ | .writePid _ _ | .moveToNetns _ _ _ =>
    Except Err Unit
  | .fileMtime _ | .readPid _ => Option ℕ
  | .baseSnapshotValid _ | .awaitGone _ | .chReady _ | .agentHealthy _ => Bool
  | .removeDirAll _ | .sigterm _ | .sigkill _ => Unit
  | .prepareSnapshot _ _ _ _ => Except Err Prepared
  | .spawnCh _ | .createTap _ | .linkIndex _ | .wireTap _ _ => Except Err ℕ
  | .api _ _ => Except ApiFailure Unit
  | .addDisk _ _ => Except ApiFailure (ℕ × String)
  | .addNet _ _ _ => Except ApiFailure (ℕ × ℕ)
  | .connectAgent _ => Except ConnectFailure ℕ
  | .configureNetwork _ _ _ _ | .killContainer _ _ _ | .deleteContainer _ _ => Except String Unit
  | .runContainer _ _ => RunAnswer
  | .waitContainer _ _ => Except String (ℕ × String)
  | .probePod _ => Except Err PodNetInfo
  | .delLink _ => Except Err (Option ℕ)

/-- What the environment decides in a step. -/
structure Choice where
  /-- The call fails with this error. -/
  err : Option Err
  api : Option ApiFailure
  conn : Option ConnectFailure
  /-- A remote call is carried out, but its answer is lost: the caller gets this error. -/
  lost : Option String
  /-- What a poll comes to: the socket is there, the agent answers, the process is gone. -/
  flag : Bool
  pid : ℕ
  io : Io
  info : PodNetInfo
  /-- The time that passes, and the keys a loop over the snapshot table picks. -/
  tick : ℕ
  keys : List String
  status : ℤ
  text : String

/-- Everything succeeds; a new process gets `pid`. -/
def Choice.fine (pid : ℕ) : Choice :=
  ⟨none, none, none, none, true, pid, Io.ok pid, ⟨"10.0.0.2/24", "10.0.0.1", "aa:bb"⟩, 1, [], 0, ""⟩

namespace Host

def guestOf (h : Host) (pid : ℕ) : Option Guest := (h.procs.lookup pid).bind (·.guest)

def setGuest (h : Host) (pid : ℕ) (g : Guest) : Host :=
  match h.procs.lookup pid with
  | some v => { h with procs := h.procs.insert pid { v with guest := some g } }
  | none => h

def tell (h : Host) (pid : ℕ) : Host :=
  match h.procs.lookup pid with
  | some v => { h with procs := h.procs.insert pid { v with told := true } }
  | none => h

/-- What `remove_dir_all` leaves of the files. -/
def outside {ν : Type} (dir : Path) (files : Path → Option ν) : Path → Option ν :=
  fun p => if dir <+: p then none else files p

def removeDir (h : Host) (dir : Path) : Host :=
  { h with
    listeners := outside dir h.listeners
    pidFiles := outside dir h.pidFiles
    snaps := outside dir h.snaps }

/-- What a request does in the process that serves it; `none` when it has to fail there. -/
def apiEffect (h : Host) (pid : ℕ) : ApiCall → Option Host
  | .create disks _ vsock =>
    some { h.setGuest pid (Guest.boot disks) with listeners := Function.update h.listeners vsock (some pid) }
  | .boot | .pause | .resume => some h
  | .snapshot dest => (h.guestOf pid).map fun g => { h with snaps := Function.update h.snaps dest (some g) }
  | .restore src => (h.snaps src.dir).map fun g =>
    { h.setGuest pid g with listeners := Function.update h.listeners src.vsockSocket (some pid) }

/-- The devices a run has mounted as erofs layers. -/
def newLayers (g g' : Guest) : List String :=
  ((g'.mounts.drop g.mounts.length).filter (·.fsType = "erofs")).map (·.source)

/-- A call without an effect of its own that can fail. -/
def orFail {α : Type} (h : Host) (c : Choice) (x : α) : Option (Except Err α × Host) :=
  match c.err with
  | some e => some (.error e, h)
  | none => some (.ok x, h)

/-- A request on an API socket with the answer `x` and the effect `h'`.  Without a listener it can
only fail; one that fails may have been carried out. -/
def request {α : Type} (h : Host) (c : Choice) (done : Option (α × Host)) :
    Option (Except ApiFailure α × Host) :=
  match c.api, done with
  | none, some (x, h') => some (.ok x, h')
  | none, none => none
  | some f, some (_, h') => some (.error f, if c.lost.isSome then h' else h)
  | some f, none => some (.error f, h)

/-- An RPC to the agent of the guest in process `conn`. -/
def rpc {α : Type} (h : Host) (c : Choice) (conn : ℕ) (f : Guest → Option (Except String α × Guest)) :
    Option (Except String α × Host) :=
  match c.err, (h.guestOf conn).bind f with
  | some e, _ => some (.error e.display, h)
  | none, none => none
  | none, some (r, g') =>
    match c.lost with
    | some t => some (.error t, h.setGuest conn g')
    | none => some (r, h.setGuest conn g')

def performRun (h : Host) (c : Choice) (conn : ℕ) (req : CreateRequest) : Option (RunAnswer × Host) :=
  match c.err with
  | some e => some (⟨.error e.display, []⟩, h)
  | none =>
    match h.guestOf conn with
    | none => none
    | some g =>
      match g.execSpawn c.io (Agent.run c.io req) with
      | none => none
      | some (r, g') =>
        let result := match c.lost, r with
          | some t, _ => .error t
          | none, .ok pid => .ok pid
          | none, .error e => .error ("run_container failed: " ++ e.full)
        some (⟨result, newLayers g g'⟩, h.setGuest conn g')

/-- The device of a TAP: the existing one of that name, or a new one. -/
def openTap (h : Host) (tap : String) : ℕ × Host :=
  match h.links.lookup tap with
  | some d => (d, h)
  | none => (h.nextLink, { h with links := h.links.insert tap h.nextLink, nextLink := h.nextLink + 1 })

/-- Move a link.  It stays where it is when it is gone from the host or its name is taken in the pod:
the caller does not hear of that, because it reads the acknowledgement of its previous request. -/
def moveLink (h : Host) (tap : String) (link : ℕ) (netns : String) : Host :=
  if h.links.lookup tap = some link ∧ (netns, tap) ∉ h.podLinks then
    { h with links := h.links.erase tap, podLinks := h.podLinks.insert (netns, tap) link }
  else h

def perform (h : Host) : (a : HostAct) → Choice → Option (a.Answer × Host)
  | .createDirAll _, c => h.orFail c ()
  | .createFile _, c => h.orFail c ()
  | .fileMtime f, c => some (if c.err.isSome then none else h.mtimes.lookup f, h)
  | .removeDirAll p, c => some ((), if c.err.isSome then h else h.removeDir p)
  | .baseSnapshotValid dir, _ => some ((h.snaps dir).isSome, h)
  | .prepareSnapshot base dir cid vsock, c =>
    let work := dir ++ ["snapshot"]
    -- the hard links fail where the files exist already
    match c.err, h.snaps base, h.snaps work with
    | some e, _, _ => some (.error e, h)
    | none, some g, none =>
      some (.ok ⟨work, cid, vsock⟩, { h with snaps := Function.update h.snaps work (some g) })
    | none, _, _ => none
  | .stripKernelIp _, c => h.orFail c ()
  | .writePid dir pid, c =>
    match c.err with
    | some e => some (.error e, h)
    | none => some (.ok (), { h with pidFiles := Function.update h.pidFiles dir (some pid) })
  | .readPid dir, c => some (if c.err.isSome then none else h.pidFiles dir, h)
  | .spawnCh dir, c =>
    match c.err with
    | some e => some (.error e, h)
    | none =>
      if c.pid ∈ h.procs then none
      else some (.ok c.pid, { h with
        procs := h.procs.insert c.pid ⟨dir, false, none⟩
        listeners := Function.update h.listeners (dir ++ ["api.sock"]) (some c.pid) })
  | .sigterm pid, _ => some ((), h.tell pid)
  | .awaitGone _, c => some (c.flag, h)
  | .sigkill _, _ => some ((), h)
  | .chReady sock, c => some (c.flag && (h.listeners sock).isSome, h)
  | .api sock call, c =>
    h.request c ((h.listeners sock).bind fun pid => (h.apiEffect pid call).map fun h' => ((), h'))
  | .addDisk sock disk, c =>
    h.request c ((h.listeners sock).bind fun pid => (h.guestOf pid).map fun g =>
      ((pid, Agent.diskName g.disks.length), h.setGuest pid { g with disks := g.disks ++ [disk] }))
  | .addNet sock tap _, c =>
    h.request c ((h.listeners sock).bind fun pid => (h.links.lookup tap).map fun d => ((pid, d), h))
  | .agentHealthy vsock, c => some (c.flag && (h.listeners vsock).isSome, h)
  | .connectAgent vsock, c =>
    match c.conn, h.listeners vsock with
    | some f, _ => some (.error f, h)
    | none, some pid => some (.ok pid, h)
    | none, none => none
  | .configureNetwork conn _ _ _, c => h.rpc c conn fun g => some (.ok (), g)
  | .runContainer conn req, c => h.performRun c conn req
  | .killContainer conn id signal, c => h.rpc c conn fun g =>
    let (r, g') := Method.exec (Agent.kill c.io id signal) g
    some (match r with
      | .ok _ => .ok ()
      | .error e => .error ("kill_container failed: " ++ e.display), g')
  | .waitContainer conn id, c => h.rpc c conn fun g =>
    match g.getExitReceiver id with
    | none => some (.error ("wait_container: unknown container " ++ id), g)
    | some _ => some (.ok (Agent.asU32 c.status, c.text), g.markStopped id c.status)
  | .deleteContainer conn id, c => h.rpc c conn fun g =>
    let (r, g') := Method.exec (Agent.delete c.io id) g
    some (match r with
      | .ok _ => .ok ()
      | .error e => .error ("delete_container failed: " ++ e.display), g')
  | .probePod _, c => h.orFail c c.info
  | .delLink tap, c =>
    match c.err with
    | some e => some (.error e, h)
    | none =>
      if c.flag then some (.ok (h.links.lookup tap), { h with links := h.links.erase tap })
      else some (.ok none, h)
  | .createTap tap, c =>
    match c.err with
    | some e => some (.error e, h)
    | none => some (.ok (h.openTap tap).1, (h.openTap tap).2)
  | .linkIndex tap, c =>
    match c.err, h.links.lookup tap with
    | some e, _ => some (.error e, h)
    | none, some d => some (.ok d, h)
    | none, none => none
  | .moveToNetns tap link netns, c =>
    match c.err with
    | some e => some (.error e, h)
    | none => some (.ok (), h.moveLink tap link netns)
  | .wireTap netns tap, c =>
    match c.err, h.podLinks.lookup (netns, tap) with
    | some e, _ => some (.error e, h)
    | none, some d => some (.ok d, h)
    | none, none => none

end Host

end CloudHv.Daemon
