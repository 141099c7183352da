import CloudHv.Lib.Threads
import CloudHv.Lib.Map

/-!
# Erofs — the cache of erofs images

`prepare_erofs` of `crates/shim/src/instance.rs` and the loop in `start_container` that tries it again.  Every
shim process on the host runs it on the same directory: it looks for the image, opens and locks the lock
file, looks again, has mkfs.erofs write the image under a name of its own, and renames it.

The processes that prepare the image of one cache key are the tasks of a system over the directory.  Between
any two steps a process can die (`crash`); its files are closed then, and with the lock file goes its lock.
mkfs.erofs is one step; when it does not succeed, or the process dies, anything can be left in its output.
-/

namespace CloudHv.Erofs

open Conc

/-! ### Paths -/

/-- `EROFS_CACHE_DIR`. -/
def erofsCacheDir : String := "/run/cloudhv/erofs-cache"

/-- `PathBuf::join` for a base without a slash at its end; an absolute path replaces the base. -/
def join (dir p : String) : String := if p.toList.head? = some '/' then p else dir ++ "/" ++ p

def cachePath (key : String) : String := join erofsCacheDir (key ++ ".erofs")

def lockPath (key : String) : String := join erofsCacheDir (key ++ ".lock")

def tmpPath (key : String) (pid : ℕ) : String := join erofsCacheDir (key ++ "." ++ toString pid ++ ".tmp")

/-! ### The directory -/

/-- What a file holds: the complete image of a rootfs, or anything else. -/
inductive Content where
  | image (rootfs : String)
  | other
  deriving DecidableEq

def Content.complete : Content → Bool
  | .image _ => true
  | .other => false

/-- The files, and the lock on the lock file.  A lock belongs to an open file and not to a process, so the
open files of the lock file are numbered. -/
structure Cache where
  files : Finmap (fun _ : String => Content)
  /-- The open file that has the lock. -/
  holder : Option ℕ
  /-- How often the lock file was opened. -/
  opened : ℕ

/-- The exit status and the error output of a command. -/
structure Output where
  success : Bool
  stderr : String

/-- The steps of a process.  `crash` is the chance to die, with the open lock file; `returned` is the return
of `prepare_erofs`. -/
inductive Action where
  | crash (lock : Option ℕ)
  | pathExists (path : String)
  | createDirAll (dir : String)
  | create (path : String)
  | flock (fd : ℕ)
  | mkfs (out rootfs : String)
  | rename (src dst : String)
  | close (fd : ℕ)
  | sleep (ms : ℕ)
  | returned (r : Except String String)

abbrev Answer : Action → Type
  | .crash _ | .pathExists _ => Bool
  | .create _ => Except String ℕ
  | .mkfs _ _ => Except String Output
  | .createDirAll _ | .flock _ | .rename _ _ => Except String Unit
  | .close _ | .sleep _ | .returned _ => Unit

/-- What the environment decides in a step: whether the process dies, whether and how the call fails, and
what a command that fails leaves in its output. -/
structure Choice where
  dies : Bool
  err : Option String
  exit : Output
  left : Option Content

namespace Cache

/-- An open file is closed; its lock goes with it. -/
def closed (s : Cache) (fd : ℕ) : Cache := { s with holder := if s.holder = some fd then none else s.holder }

def dead (s : Cache) : Option ℕ → Cache
  | some fd => s.closed fd
  | none => s

/-- What is left of a file. -/
def leave (s : Cache) (path : String) : Option Content → Cache
  | some v => { s with files := s.files.insert path v }
  | none => { s with files := s.files.erase path }

end Cache

def perform (s : Cache) : (a : Action) → Choice → Option (Answer a × Cache)
  | .crash lock, c => some (c.dies, if c.dies then s.dead lock else s)
  | .pathExists path, _ => some ((s.files.lookup path).isSome, s)
  | .createDirAll _, c =>
    match c.err with
    | some e => some (.error e, s)
    | none => some (.ok (), s)
  | .create path, c =>
    match c.err with
    | some e => some (.error e, s)
    | none => some (.ok s.opened, { s with files := s.files.insert path .other, opened := s.opened + 1 })
  | .flock fd, c =>
    match c.err with
    | some e => some (.error e, s)
    -- the call blocks while another open file has the lock
    | none => if s.holder = none then some (.ok (), { s with holder := some fd }) else none
  | .mkfs out rootfs, c =>
    match c.err with
    | some e => some (.error e, s.leave out c.left)
    | none =>
      if c.exit.success then some (.ok c.exit, { s with files := s.files.insert out (.image rootfs) })
      else some (.ok c.exit, s.leave out c.left)
  | .rename src dst, c =>
    match c.err with
    | some e => some (.error e, s)
    | none => (s.files.lookup src).map fun v =>
        (.ok (), { s with files := (s.files.erase src).insert dst v })
  | .close fd, _ => some ((), s.closed fd)
  | .sleep _, _ => some ((), s)
  | .returned _, _ => some ((), s)

/-! ### The code -/

abbrev P := Prog Action Answer

/-- Why code does not come to its end. -/
inductive Halt where
  | crashed
  | failed (e : String)

abbrev M := ExceptT Halt P

def tell (a : Action) : M (Answer a) := liftM (Prog.call a : P (Answer a))

/-- One step of a process that has the lock file open as `lock`. -/
def step (lock : Option ℕ) (a : Action) : M (Answer a) := do
  match ← tell (.crash lock) with
  | true => throw .crashed
  | false => tell a

/-- `map_err`. -/
def wrap {α : Type} (r : Except String α) (f : String → String) : M α :=
  match r with
  | .ok x => pure x
  | .error e => throw (.failed (f e))

/-- The outcome of a call, for code that goes on after a failure. -/
def attempt {α : Type} (m : M α) : M (Except String α) := ExceptT.mk do
  match ← m.run with
  | .ok x => pure (.ok (.ok x))
  | .error (.failed e) => pure (.ok (.error e))
  | .error .crashed => pure (.error .crashed)

/-- A shim process, and the rootfs of its container. -/
structure Proc where
  pid : ℕ
  rootfs : String

/-- mkfs.erofs under the process's own name, and the rename. -/
def buildImage (key : String) (p : Proc) (fd : ℕ) : M String := do
  let out ← wrap (← step (some fd) (.mkfs (tmpPath key p.pid) p.rootfs)) ("mkfs.erofs: " ++ ·)
  match out.success with
  | false => throw (.failed ("mkfs.erofs failed: " ++ out.stderr))
  | true => do
    wrap (← step (some fd) (.rename (tmpPath key p.pid) (cachePath key))) ("rename erofs: " ++ ·)
    pure (cachePath key)

/-- With the lock file open: lock it, and look for the image again. -/
def underLock (key : String) (p : Proc) (fd : ℕ) : M String := do
  wrap (← step (some fd) (.flock fd)) ("flock: " ++ ·)
  match ← step (some fd) (.pathExists (cachePath key)) with
  | true => pure (cachePath key)
  | false => buildImage key p fd

def prepareErofs (key : String) (p : Proc) : M String := do
  match ← step none (.pathExists (cachePath key)) with
  | true => pure (cachePath key)
  | false => do
    wrap (← step none (.createDirAll erofsCacheDir)) ("create erofs cache dir: " ++ ·)
    let fd ← wrap (← step none (.create (lockPath key))) ("create lock: " ++ ·)
    let r ← attempt (underLock key p fd)
    -- the lock file is closed on every way out
    step (some fd) (.close fd)
    wrap r id

/-- The loop of `start_container`: a failed call is made again, up to `left` times. -/
def erofsPath (key : String) (p : Proc) : (attempts left : ℕ) → (last : String) → M String
  | _, 0, last => throw (.failed last)
  | n, left + 1, _ => do
    let r ← attempt (prepareErofs key p)
    tell (.returned r)
    match r with
    | .ok path => pure path
    | .error e => do
      step none (.sleep (100 * (n + 1)))
      erofsPath key p (n + 1) left e

/-- The processes that prepare the image of `key`. -/
def erofsCache (key : String) : System Cache Choice Action Answer Proc where
  body := fun p => do
    let _ ← (erofsPath key p 0 3 "").run
    pure ()
  perform := perform
  spawned := fun _ _ => []
  external := fun _ _ => true

abbrev CacheConf := Conf Cache Action Answer Proc

/-- No process runs, and nobody has the lock. -/
def quietCache (files : Finmap (fun _ : String => Content)) : CacheConf := ⟨⟨files, none, 0⟩, []⟩

/-! ### Where a process is -/

inductive Place where
  /-- The lock file is not open. -/
  | out
  | opened (fd : ℕ)
  /-- With the lock, and not about to build an image. -/
  | locked (fd : ℕ)
  /-- The second look found no image. -/
  | inside (fd : ℕ)
  /-- mkfs.erofs has written the image to `tmp`. -/
  | built (fd : ℕ) (tmp : String)
  deriving DecidableEq

namespace Place

/-- The open lock file. -/
def fd : Place → Option ℕ
  | .out => none
  | .opened n | .locked n | .inside n | .built n _ => some n

/-- The open lock file, with the lock on it. -/
def holds : Place → Option ℕ
  | .out | .opened _ => none
  | .locked n | .inside n | .built n _ => some n

/-- Between the second look and the rename. -/
def between : Place → Bool
  | .inside _ | .built _ _ => true
  | .out | .opened _ | .locked _ => false

/-- The end of mkfs.erofs. -/
def ran (tmp : String) : Place → Except String Output → Place
  | .inside n, .ok res => if res.success then .built n tmp else .locked n
  | .inside n, .error _ => .locked n
  | p, _ => p

/-- The end of a rename. -/
def renamed : Place → Place
  | .built n _ => .locked n
  | p => p

/-- A look for the image. -/
def looked : Place → Bool → Place
  | .locked n, false => .inside n
  | p, _ => p

theorem fd_of_holds {p : Place} {n : ℕ} (h : p.holds = some n) : p.fd = some n := by
  cases p <;> first | exact h | cases h

theorem holds_of_between {p : Place} (h : p.between = true) : ∃ n, p.holds = some n := by
  cases p <;> first | exact ⟨_, rfl⟩ | cases h

end Place

/-- Where a process is, and whether it has seen the image in its place. -/
structure View where
  place : Place
  seen : Bool

namespace View

def init : View := ⟨.out, false⟩

def upd (g : View) : (a : Action) → Answer a → View
  | .crash _, r => if r then { g with place := .out } else g
  | .pathExists _, r => ⟨g.place.looked r, g.seen || r⟩
  | .create _, r => match r with
    | .ok fd => { g with place := .opened fd }
    | .error _ => g
  | .flock fd, r => match r with
    | .ok _ => { g with place := .locked fd }
    | .error _ => g
  | .mkfs out _, r => { g with place := g.place.ran out r }
  | .rename _ _, r => match r with
    | .ok _ => ⟨g.place.renamed, true⟩
    | .error _ => { g with place := g.place.renamed }
  | .close _, _ => { g with place := .out }
  | _, _ => g

def req (key : String) (g : View) : Action → Prop
  | .crash lock => g.place.fd = lock
  | .pathExists path => path = cachePath key ∧ g.place.between = false
  | .create path => path = lockPath key ∧ g.place = .out
  | .flock fd => g.place = .opened fd
  | .mkfs out _ => (∃ fd, g.place = .inside fd) ∧ ∃ pid, out = tmpPath key pid
  | .rename src dst => dst = cachePath key ∧ ∃ fd, g.place = .built fd src
  | .close fd => g.place.fd = some fd
  | .returned r => ∀ path, r = .ok path → path = cachePath key ∧ g.seen = true
  | .createDirAll _ | .sleep _ => True

end View

def viewing (key : String) : Discipline Action Answer View := ⟨View.upd, View.req key, fun _ _ _ => True⟩

/-! ### The code and its place -/

section Code

variable {key : String} {α : Type} {g : View} {F : Halt → View → Prop}

theorem wpx_tell {a : Action} {Q : Answer a → View → Prop} :
    wpx (viewing key) (tell a) Q F g ↔ View.req key g a ∧ ∀ r, Q r (g.upd a r) := by
  rw [tell, wpx_lift, wp_call]
  exact and_congr_right fun _ => forall_congr' fun r => ⟨fun h => h trivial, fun h _ => h⟩

/-- A step with the lock file open as `g` has it: the process dies, or the step is taken. -/
theorem wpx_step {lock : Option ℕ} {a : Action} {Q : Answer a → View → Prop} (hlock : g.place.fd = lock)
    (hF : F .crashed { g with place := .out }) (ha : View.req key g a) (hQ : ∀ r, Q r (g.upd a r)) :
    wpx (viewing key) (step lock a) Q F g := by
  unfold step
  refine wpx_bind.mpr (wpx_tell.mpr ⟨hlock, fun dies => ?_⟩)
  cases dies with
  | true => exact hF
  | false => exact wpx_tell.mpr ⟨ha, hQ⟩

theorem wpx_wrap {r : Except String α} {f : String → String} {Q : α → View → Prop}
    (hQ : ∀ x, r = .ok x → Q x g) (hF : ∀ e, F (.failed e) g) : wpx (viewing key) (wrap r f) Q F g := by
  cases r with
  | ok x => exact hQ x rfl
  | error e => exact hF _

/-- An attempt fails only when the process dies. -/
theorem wpx_attempt {m : M α} {Q : Except String α → View → Prop}
    (h : wpx (viewing key) m (fun x => Q (.ok x)) (fun e g' => match e with
      | .failed e => Q (.error e) g'
      | .crashed => F .crashed g') g) : wpx (viewing key) (attempt m) Q F g := by
  show wp (viewing key) (m.run >>= _) _ g
  refine wp_bind.mpr (wp_mono h fun r g' hr => ?_)
  cases r with
  | ok x => exact hr
  | error e =>
    cases e with
    | crashed => exact hr
    | failed e => exact hr

/-- The image is built and in its place, or the lock file is still open. -/
theorem buildImage_view {p : Proc} {fd : ℕ} {Q : String → View → Prop} (hg : g.place = .inside fd)
    (hQ : Q (cachePath key) ⟨.locked fd, true⟩)
    (hF : ∀ e, F (.failed e) { g with place := .locked fd }) (hdead : ∀ g', F .crashed g') :
    wpx (viewing key) (buildImage key p fd) Q F g := by
  unfold buildImage
  refine wpx_bind.mpr (wpx_step (by rw [hg]; rfl) (hdead _) ⟨⟨fd, hg⟩, p.pid, rfl⟩ fun r => ?_)
  have hran : g.upd (.mkfs (tmpPath key p.pid) p.rootfs) r =
      ⟨(Place.inside fd).ran (tmpPath key p.pid) r, g.seen⟩ := by
    rw [← hg]
    rfl
  rw [hran]
  cases r with
  | error e => exact hF _
  | ok res =>
    show wpx (viewing key) _ Q F ⟨if res.success then .built fd (tmpPath key p.pid) else .locked fd, g.seen⟩
    cases hs : res.success with
    | false =>
      refine wpx_bind.mpr ?_
      show wpx (viewing key) (match res.success with
        | false => _
        | true => _) Q F _
      rw [hs]
      exact hF _
    | true =>
      refine wpx_bind.mpr ?_
      show wpx (viewing key) (match res.success with
        | false => _
        | true => _) Q F _
      rw [hs]
      have hreq : View.req key ⟨.built fd (tmpPath key p.pid), g.seen⟩
          (.rename (tmpPath key p.pid) (cachePath key)) := ⟨rfl, fd, rfl⟩
      refine wpx_bind.mpr (wpx_step rfl (hdead _) hreq fun r => ?_)
      cases r with
      | error e => exact hF _
      | ok u => exact hQ

/-- With the lock file open: the image is in its place, or the call fails; the file is still open. -/
theorem underLock_view {p : Proc} {fd : ℕ} {Q : String → View → Prop} (hg : g.place = .opened fd)
    (hQ : ∀ g', g'.place.fd = some fd → g'.seen = true → Q (cachePath key) g')
    (hF : ∀ e g', g'.place.fd = some fd → F (.failed e) g') (hdead : ∀ g', F .crashed g') :
    wpx (viewing key) (underLock key p fd) Q F g := by
  unfold underLock
  refine wpx_bind.mpr (wpx_step (by rw [hg]; rfl) (hdead _) hg fun r => ?_)
  cases r with
  | error e => exact hF _ _ (by show g.place.fd = _; rw [hg]; rfl)
  | ok u =>
    have hreq : View.req key ⟨.locked fd, g.seen⟩ (.pathExists (cachePath key)) := ⟨rfl, rfl⟩
    refine wpx_bind.mpr ?_
    refine wpx_bind.mpr (wpx_step rfl (hdead _) hreq fun found => ?_)
    cases found with
    | true => exact hQ _ rfl (Bool.or_true _)
    | false => exact buildImage_view rfl (hQ _ rfl rfl) (fun e => hF e _ rfl) hdead

/-- `prepare_erofs` closes the lock file, and returns the path of an image that it has seen. -/
theorem prepareErofs_view {p : Proc} {Q : String → View → Prop} (hg : g.place = .out)
    (hQ : ∀ g', g'.place = .out → g'.seen = true → Q (cachePath key) g')
    (hF : ∀ e g', g'.place = .out → F (.failed e) g') (hdead : ∀ g', F .crashed g') :
    wpx (viewing key) (prepareErofs key p) Q F g := by
  obtain ⟨place, seen⟩ := g
  obtain rfl : place = .out := hg
  unfold prepareErofs
  have hlook : View.req key ⟨.out, seen⟩ (.pathExists (cachePath key)) := ⟨rfl, rfl⟩
  refine wpx_bind.mpr (wpx_step rfl (hdead _) hlook fun found => ?_)
  cases found with
  | true => exact hQ _ rfl (Bool.or_true _)
  | false =>
    have hdir : View.req key ⟨.out, seen || false⟩ (.createDirAll erofsCacheDir) := trivial
    refine wpx_bind.mpr (wpx_step rfl (hdead _) hdir fun r => ?_)
    refine wpx_bind.mpr (wpx_wrap (fun _ _ => ?_) fun e => hF e _ rfl)
    have hopen : View.req key ⟨.out, seen || false⟩ (.create (lockPath key)) := ⟨rfl, rfl⟩
    refine wpx_bind.mpr (wpx_step rfl (hdead _) hopen fun r => ?_)
    cases r with
    | error e => exact hF _ _ rfl
    | ok fd =>
      have hend : ∀ (r : Except String String) (g' : View), g'.place.fd = some fd →
          (∀ path, r = .ok path → path = cachePath key ∧ g'.seen = true) →
          wpx (viewing key) (do step (some fd) (.close fd); wrap r id) Q F g' := by
        intro r g' hfd hr
        refine wpx_bind.mpr (wpx_step hfd (hdead _) hfd fun _ => ?_)
        refine wpx_wrap (fun path hp => ?_) fun e => hF e _ rfl
        obtain ⟨rfl, hseen⟩ := hr path hp
        exact hQ _ rfl hseen
      refine wpx_bind.mpr ?_
      refine wpx_bind.mpr (wpx_attempt (underLock_view rfl ?_ ?_ hdead))
      · intro g' hfd hseen
        refine hend (.ok (cachePath key)) g' hfd fun path hp => ?_
        exact ⟨(Except.ok.inj hp).symm, hseen⟩
      · intro e g' hfd
        exact hend (.error e) g' hfd fun path hp => nomatch hp

theorem erofsPath_view {p : Proc} :
    ∀ (left n : ℕ) (last : String) (g : View), g.place = .out →
      wpx (viewing key) (erofsPath key p n left last) (fun _ _ => True) (fun _ _ => True) g
  | 0, n, last, g, _ => trivial
  | left + 1, n, last, g, hg => by
    unfold erofsPath
    have hret : ∀ (r : Except String String) (g' : View), g'.place = .out →
        (∀ path, r = .ok path → path = cachePath key ∧ g'.seen = true) →
        wpx (viewing key) (do
          tell (.returned r)
          match r with
          | .ok path => pure path
          | .error e => do
            step none (.sleep (100 * (n + 1)))
            erofsPath key p (n + 1) left e) (fun _ _ => True) (fun _ _ => True) g' := by
      intro r g' hout hr
      refine wpx_bind.mpr (wpx_tell.mpr ⟨hr, fun _ => ?_⟩)
      cases r with
      | ok path => trivial
      | error e =>
        have hout' : g'.place.fd = none := by rw [hout]; rfl
        exact wpx_bind.mpr (wpx_step hout' trivial trivial fun _ => erofsPath_view left (n + 1) e g' hout)
    refine wpx_bind.mpr (wpx_attempt (prepareErofs_view hg ?_ ?_ fun _ => trivial))
    · intro g' hout hseen
      refine hret (.ok (cachePath key)) g' hout fun path hp => ?_
      exact ⟨(Except.ok.inj hp).symm, hseen⟩
    · intro e g' hout
      exact hret (.error e) g' hout fun path hp => nomatch hp

theorem body_view (p : Proc) : wp (viewing key) ((erofsCache key).body p) (fun _ _ => True) View.init := by
  show wp (viewing key) ((erofsPath key p 0 3 "").run >>= _) _ View.init
  refine wp_bind.mpr (wp_mono (erofsPath_view 3 0 "" View.init rfl) fun r g' _ => ?_)
  trivial

end Code

/-! ### The names of the files -/

theorem join_last {dir name ext : String} {c : Char} (h : ext.toList.getLast? = some c) :
    (join dir (name ++ ext)).toList.getLast? = some c := by
  have hname : (name ++ ext).toList.getLast? = some c := by
    rw [String.toList_append, List.getLast?_append, h]
    rfl
  unfold join
  split
  · exact hname
  · rw [String.toList_append, List.getLast?_append, hname]
    rfl

/-- Names that end differently. -/
theorem join_ne {dir name name' ext ext' : String} {c d : Char} (h : ext.toList.getLast? = some c)
    (h' : ext'.toList.getLast? = some d) (hc : c ≠ d) : join dir (name ++ ext) ≠ join dir (name' ++ ext') := by
  intro he
  have hl : (join dir (name ++ ext)).toList.getLast? = some c := join_last h
  rw [he, join_last h'] at hl
  exact hc (Option.some.inj hl).symm

theorem cachePath_ne_lockPath (key : String) : cachePath key ≠ lockPath key :=
  join_ne (c := 's') (d := 'k') rfl rfl (by decide)

theorem cachePath_ne_tmpPath (key : String) (pid : ℕ) : cachePath key ≠ tmpPath key pid :=
  join_ne (c := 's') (d := 'p') rfl rfl (by decide)

theorem tmpPath_ne_lockPath (key : String) (pid : ℕ) : tmpPath key pid ≠ lockPath key :=
  join_ne (c := 'p') (d := 'k') rfl rfl (by decide)

/-! ### What is written down of a run -/

/-- How often an image was put in its place, and the paths that calls returned. -/
structure Record where
  placed : ℕ
  returned : List String

/-- The step puts a file in the place of the image. -/
def Places (key : String) : Event Action Answer Proc → Bool
  | .act _ (.rename _ dst) r => decide (dst = cachePath key) && r.isOk
  | _ => false

/-- The path that a call returns in this step. -/
def returns : Event Action Answer Proc → List String
  | .act _ (.returned (.ok path)) _ => [path]
  | _ => []

def Record.note (key : String) (h : Record) (_ : CacheConf) (e : Event Action Answer Proc) (_ : Cache) : Record :=
  ⟨h.placed + (Places key e).toNat, h.returned ++ returns e⟩

/-! ### The invariant -/

/-- What the directory is for one process. -/
structure Fits (key : String) (s : Cache) (g : View) : Prop where
  below : ∀ fd, g.place.fd = some fd → fd < s.opened
  holder : ∀ fd, g.place.holds = some fd → s.holder = some fd
  absent : g.place.between = true → s.files.lookup (cachePath key) = none
  built : ∀ fd tmp, g.place = .built fd tmp →
    (∃ pid, tmp = tmpPath key pid) ∧ ∃ rootfs, s.files.lookup tmp = some (.image rootfs)
  seen : g.seen = true → s.files.lookup (cachePath key) ≠ none

structure Inv (key : String) (h : Record) (s : Cache) (gs : List View) : Prop where
  apart : Apart (fun g : View => g.place.fd) gs
  fits : ∀ g ∈ gs, Fits key s g
  complete : ∀ v, s.files.lookup (cachePath key) = some v → v.complete = true
  once : h.placed ≤ 1
  fresh : s.files.lookup (cachePath key) = none → h.placed = 0
  returned : ∀ path ∈ h.returned, path = cachePath key ∧ s.files.lookup (cachePath key) ≠ none

section Steps

variable {key : String} {h : Record} {s s' : Cache} {gs : List View} {i : ℕ} {g g' u : View}

/-- One process only has the lock. -/
theorem Inv.alone (hI : Inv key h s gs) {j : ℕ} {fd : ℕ} (hi : gs[i]? = some g) (hj : gs[j]? = some u)
    (hg : g.place.holds = some fd) {fd' : ℕ} (hu : u.place.holds = some fd') : i = j := by
  have hfd := (hI.fits g (List.mem_of_getElem? hi)).holder fd hg
  have hfd' := (hI.fits u (List.mem_of_getElem? hj)).holder fd' hu
  obtain rfl : fd = fd' := Option.some.inj (hfd.symm.trans hfd')
  exact hI.apart i j g u fd hi hj (Place.fd_of_holds hg) (Place.fd_of_holds hu)

/-- A step of process `i` that leaves the record and the place of the image as they are. -/
theorem Inv.step (hI : Inv key h s gs) (hi : gs[i]? = some g)
    (hfd : ∀ fd, g'.place.fd = some fd → g.place.fd = some fd ∨ fd = s.opened)
    (himg : s'.files.lookup (cachePath key) = s.files.lookup (cachePath key)) (hg : Fits key s' g')
    (hother : ∀ j u, j ≠ i → gs[j]? = some u → Fits key s u → Fits key s' u) :
    Inv key h s' (gs.set i g') := by
  refine ⟨hI.apart.set ?_, ?_, ?_, hI.once, ?_, ?_⟩
  · intro fd hk j u hj hu
    rcases hfd fd hk with hold | rfl
    · exact hI.apart j i u g fd hj hi hu hold
    · exact absurd ((hI.fits u (List.mem_of_getElem? hj)).below _ hu) (lt_irrefl _)
  · intro u hu
    rcases mem_set_cases hu with rfl | ⟨j, hji, hj⟩
    · exact hg
    · exact hother j u hji hj (hI.fits u (List.mem_of_getElem? hj))
  · rw [himg]
    exact hI.complete
  · rw [himg]
    exact hI.fresh
  · rw [himg]
    exact hI.returned

/-- Files other than the image and the outputs change, and the lock stays with those that have it. -/
theorem Fits.mono (hu : Fits key s u) (hopen : s.opened ≤ s'.opened)
    (hhold : ∀ fd, u.place.holds = some fd → s'.holder = some fd)
    (himg : s'.files.lookup (cachePath key) = s.files.lookup (cachePath key))
    (htmp : ∀ fd pid, u.place = .built fd (tmpPath key pid) →
      s'.files.lookup (tmpPath key pid) = s.files.lookup (tmpPath key pid)) : Fits key s' u := by
  refine ⟨fun fd hfd => lt_of_lt_of_le (hu.below fd hfd) hopen, hhold, ?_, ?_, ?_⟩
  · rw [himg]
    exact hu.absent
  · intro fd tmp hb
    obtain ⟨⟨pid, rfl⟩, hfile⟩ := hu.built fd tmp hb
    rw [htmp fd pid hb]
    exact ⟨⟨pid, rfl⟩, hfile⟩
  · rw [himg]
    exact hu.seen

/-- The lock file is closed, by its owner or by its owner's death. -/
theorem close_inv (hI : Inv key h s gs) (hi : gs[i]? = some g) {fd : ℕ} (hfd : g.place.fd = some fd) :
    Inv key h (s.closed fd) (gs.set i { g with place := .out }) := by
  have hg := hI.fits g (List.mem_of_getElem? hi)
  refine hI.step hi nofun rfl ⟨nofun, nofun, nofun, nofun, hg.seen⟩ fun j u hji hj hu => ?_
  refine hu.mono (le_refl _) (fun fd' hfd' => ?_) rfl fun _ _ _ => rfl
  have hne : s.holder ≠ some fd := by
    intro he
    obtain rfl : fd' = fd := Option.some.inj ((hu.holder fd' hfd').symm.trans he)
    exact hji (hI.apart j i u g fd' hj hi (Place.fd_of_holds hfd') hfd)
  show (if s.holder = some fd then none else s.holder) = some fd'
  rw [if_neg hne]
  exact hu.holder fd' hfd'

/-- A look for the image finds it, or finds nothing and, under the lock, begins to build it. -/
theorem look_inv (hI : Inv key h s gs) (hi : gs[i]? = some g) (hb : g.place.between = false) :
    Inv key h s (gs.set i (g.upd (.pathExists (cachePath key)) (s.files.lookup (cachePath key)).isSome)) := by
  have hg := hI.fits g (List.mem_of_getElem? hi)
  have hfd : ∀ r, (g.place.looked r).fd = g.place.fd := by
    intro r
    unfold Place.looked
    split
    · next hp => rw [hp]; rfl
    · rfl
  have hholds : ∀ r, (g.place.looked r).holds = g.place.holds := by
    intro r
    unfold Place.looked
    split
    · next hp => rw [hp]; rfl
    · rfl
  have hfits : Fits key s (g.upd (.pathExists (cachePath key)) (s.files.lookup (cachePath key)).isSome) := by
    refine ⟨fun fd h => hg.below fd ((hfd _).symm.trans h), fun fd h => hg.holder fd ((hholds _).symm.trans h), ?_, ?_, ?_⟩
    · show (g.place.looked _).between = true → _
      unfold Place.looked
      split
      · next hr => exact fun _ => Option.isSome_eq_false_iff.mp hr |> Option.isNone_iff_eq_none.mp
      · rw [hb]
        exact nofun
    · show ∀ fd tmp, g.place.looked _ = .built fd tmp → _
      unfold Place.looked
      split
      · exact nofun
      · exact hg.built
    · show (g.seen || (s.files.lookup (cachePath key)).isSome) = true → _
      intro hs
      rcases Bool.or_eq_true_iff.mp hs with hold | hnew
      · exact hg.seen hold
      · exact Option.isSome_iff_ne_none.mp hnew
  refine hI.step hi (fun fd h => .inl ((hfd _).symm.trans h)) rfl hfits fun _ _ _ _ hu => hu

/-- The lock file is opened. -/
theorem open_inv (hI : Inv key h s gs) (hi : gs[i]? = some g) :
    Inv key h { s with files := s.files.insert (lockPath key) .other, opened := s.opened + 1 }
      (gs.set i { g with place := .opened s.opened }) := by
  have hg := hI.fits g (List.mem_of_getElem? hi)
  have himg : (s.files.insert (lockPath key) .other).lookup (cachePath key) = s.files.lookup (cachePath key) :=
    Finmap.lookup_insert_of_ne _ (cachePath_ne_lockPath key)
  refine hI.step hi (fun fd h => .inr (Option.some.inj h).symm) himg ⟨?_, nofun, nofun, nofun, ?_⟩ ?_
  · intro fd h
    obtain rfl := Option.some.inj h
    exact Nat.lt_succ_self _
  · intro hs
    rw [himg]
    exact hg.seen hs
  · intro j u _ _ hu
    refine hu.mono (Nat.le_succ _) hu.holder himg fun fd pid _ => ?_
    exact Finmap.lookup_insert_of_ne _ (tmpPath_ne_lockPath key pid)

/-- The lock is free, and taken. -/
theorem lock_inv (hI : Inv key h s gs) (hi : gs[i]? = some g) {fd : ℕ} (hp : g.place = .opened fd)
    (hfree : s.holder = none) :
    Inv key h { s with holder := some fd } (gs.set i { g with place := .locked fd }) := by
  have hg := hI.fits g (List.mem_of_getElem? hi)
  have hfd : g.place.fd = some fd := by rw [hp]; rfl
  refine hI.step hi (fun fd' h => .inl (hfd.trans h)) rfl ⟨?_, fun _ h => h, nofun, nofun, hg.seen⟩ ?_
  · intro fd' h
    exact hg.below fd' (hfd.trans h)
  · intro j u _ _ hu
    refine hu.mono (le_refl _) (fun fd' h => ?_) rfl fun _ _ _ => rfl
    have hnone := hu.holder fd' h
    rw [hfree] at hnone
    cases hnone

/-- mkfs.erofs has ended: its output is the image, or the process will not rename it. -/
theorem mkfs_inv (hI : Inv key h s gs) (hi : gs[i]? = some g) {fd pid : ℕ} (hp : g.place = .inside fd)
    {files : Finmap (fun _ : String => Content)} {p : Place}
    (hfiles : ∀ path, path ≠ tmpPath key pid → files.lookup path = s.files.lookup path)
    (hend : p = .locked fd ∨ p = .built fd (tmpPath key pid) ∧
      ∃ rootfs, files.lookup (tmpPath key pid) = some (.image rootfs)) :
    Inv key h { s with files := files } (gs.set i { g with place := p }) := by
  have hg := hI.fits g (List.mem_of_getElem? hi)
  have hfd : g.place.fd = some fd := by rw [hp]; rfl
  have hholds : g.place.holds = some fd := by rw [hp]; rfl
  have himg := hfiles (cachePath key) (cachePath_ne_tmpPath key pid)
  have hp' : p.fd = some fd ∧ p.holds = some fd := by
    rcases hend with rfl | ⟨rfl, -⟩
    · exact ⟨rfl, rfl⟩
    · exact ⟨rfl, rfl⟩
  refine hI.step hi (fun fd' h => .inl ?_) himg ⟨?_, ?_, ?_, ?_, ?_⟩ ?_
  · exact hfd.trans (hp'.1.symm.trans h)
  · intro fd' h
    exact hg.below fd' (hfd.trans (hp'.1.symm.trans h))
  · intro fd' h
    exact hg.holder fd' (hholds.trans (hp'.2.symm.trans h))
  · intro _
    exact himg.trans (hg.absent (by rw [hp]; rfl))
  · intro fd' tmp hb
    rcases hend with rfl | ⟨rfl, himage⟩
    · cases hb
    · obtain ⟨rfl, rfl⟩ := Place.built.inj hb
      exact ⟨⟨pid, rfl⟩, himage⟩
  · intro hs
    rw [himg]
    exact hg.seen hs
  · intro j u hji hj hu
    refine hu.mono (le_refl _) hu.holder himg fun fd' pid' hb => ?_
    have hhold : u.place.holds = some fd' := by rw [hb]; rfl
    exact absurd (hI.alone hj hi hhold hholds) hji

/-- A rename that fails. -/
theorem unrenamed_inv (hI : Inv key h s gs) (hi : gs[i]? = some g) {fd : ℕ} {src : String}
    (hp : g.place = .built fd src) : Inv key h s (gs.set i { g with place := .locked fd }) := by
  have hg := hI.fits g (List.mem_of_getElem? hi)
  have hfd : g.place.fd = some fd := by rw [hp]; rfl
  refine hI.step hi (fun fd' h => .inl (hfd.trans h)) rfl ⟨?_, ?_, nofun, nofun, hg.seen⟩ fun _ _ _ _ hu => hu
  · intro fd' h
    exact hg.below fd' (hfd.trans h)
  · intro fd' h
    exact hg.holder fd' ((by rw [hp]; exact h))

/-- **The rename.**  There was no image, the file that comes in its place is one, and everyone who has seen an
image was not in the directory yet. -/
theorem rename_inv (hI : Inv key h s gs) (hi : gs[i]? = some g) {fd : ℕ} {src : String} {v : Content}
    (hp : g.place = .built fd src) (hv : s.files.lookup src = some v) :
    s.files.lookup (cachePath key) = none ∧
      Inv key ⟨h.placed + 1, h.returned⟩ { s with files := (s.files.erase src).insert (cachePath key) v }
        (gs.set i ⟨.locked fd, true⟩) := by
  have hg := hI.fits g (List.mem_of_getElem? hi)
  have hfd : g.place.fd = some fd := by rw [hp]; rfl
  have hholds : g.place.holds = some fd := by rw [hp]; rfl
  have habsent : s.files.lookup (cachePath key) = none := hg.absent (by rw [hp]; rfl)
  have hlookup : ((s.files.erase src).insert (cachePath key) v).lookup (cachePath key) = some v :=
    Finmap.lookup_insert _
  have hthere : ((s.files.erase src).insert (cachePath key) v).lookup (cachePath key) ≠ none := by
    rw [hlookup]
    exact Option.some_ne_none v
  have hzero := hI.fresh habsent
  refine ⟨habsent, ?_, ?_, ?_, ?_, ?_, ?_⟩
  · refine hI.apart.set fun fd' h j u hj hu => ?_
    exact hI.apart j i u g fd' hj hi hu (hfd.trans h)
  · intro u hu
    rcases mem_set_cases hu with rfl | ⟨j, hji, hj⟩
    · exact ⟨fun fd' h => hg.below fd' (hfd.trans h), fun fd' h => hg.holder fd' (hholds.trans h), nofun, nofun,
        fun _ => hthere⟩
    · have hu' := hI.fits u (List.mem_of_getElem? hj)
      have hout : u.place.between = false := by
        by_contra hb
        obtain ⟨fd', hfd'⟩ := Place.holds_of_between (Bool.not_eq_false _ ▸ hb)
        exact hji (hI.alone hj hi hfd' hholds)
      refine ⟨hu'.below, hu'.holder, ?_, ?_, fun _ => hthere⟩
      · rw [hout]
        exact nofun
      · intro fd' tmp hb
        rw [hb] at hout
        cases hout
  · intro v' hv'
    obtain rfl := Option.some.inj (hlookup.symm.trans hv')
    obtain ⟨-, rootfs, hsrc⟩ := hg.built fd src hp
    obtain rfl := Option.some.inj (hv.symm.trans hsrc)
    rfl
  · show h.placed + 1 ≤ 1
    omega
  · intro hnone
    exact absurd hnone hthere
  · intro path hpath
    exact ⟨(hI.returned path hpath).1, hthere⟩

/-- What a command leaves in its output does not concern other files. -/
theorem leave_lookup {out path : String} (left : Option Content) (hne : path ≠ out) :
    (s.leave out left).files.lookup path = s.files.lookup path := by
  cases left with
  | some v => exact Finmap.lookup_insert_of_ne _ hne
  | none => exact Finmap.lookup_erase_ne hne

theorem leave_eq (out : String) (left : Option Content) :
    s.leave out left = { s with files := (s.leave out left).files } := by
  cases left <;> rfl

/-- The invariant before and after an action, for an image that stays as it is. -/
def Keeps (key : String) (s s' : Cache) (e : Event Action Answer Proc) : Prop :=
  ∀ v, s.files.lookup (cachePath key) = some v → s'.files.lookup (cachePath key) = some v ∧ Places key e = false

theorem note_plain {x : CacheConf} {e : Event Action Answer Proc} (hp : Places key e = false) (hr : returns e = []) :
    h.note key x e s' = h := by
  unfold Record.note
  rw [hp, hr, List.append_nil]
  rfl

theorem mkfs_act (hI : Inv key h s gs) (hi : gs[i]? = some g) {out rootfs : String} {c : Choice}
    {r : Except String Output} (hreq : View.req key g (.mkfs out rootfs))
    (hp : perform s (.mkfs out rootfs) c = some (r, s')) :
    Inv key h s' (gs.set i (g.upd (.mkfs out rootfs) r)) ∧
      s'.files.lookup (cachePath key) = s.files.lookup (cachePath key) := by
  obtain ⟨⟨fd, hin⟩, pid, rfl⟩ := hreq
  have hupd : ∀ r, g.upd (.mkfs (tmpPath key pid) rootfs) r =
      { g with place := (Place.inside fd).ran (tmpPath key pid) r } := by
    intro r
    rw [← hin]
    rfl
  have hne := cachePath_ne_tmpPath key pid
  simp only [perform] at hp
  split at hp
  · -- the command could not be run, or its output not be read
    obtain ⟨rfl, rfl⟩ := Prod.mk.inj (Option.some.inj hp)
    rw [hupd, leave_eq]
    exact ⟨mkfs_inv hI hi hin (fun path h => leave_lookup c.left h) (.inl rfl), leave_lookup c.left hne⟩
  · split at hp
    · next hs =>
      obtain ⟨rfl, rfl⟩ := Prod.mk.inj (Option.some.inj hp)
      rw [hupd]
      refine ⟨mkfs_inv hI hi hin (fun path h => Finmap.lookup_insert_of_ne _ h) (.inr ⟨?_, rootfs, ?_⟩),
        Finmap.lookup_insert_of_ne _ hne⟩
      · exact if_pos hs
      · exact Finmap.lookup_insert _
    · next hs =>
      obtain ⟨rfl, rfl⟩ := Prod.mk.inj (Option.some.inj hp)
      rw [hupd, leave_eq]
      exact ⟨mkfs_inv hI hi hin (fun path h => leave_lookup c.left h) (.inl (if_neg hs)), leave_lookup c.left hne⟩

theorem rename_act (hI : Inv key h s gs) (hi : gs[i]? = some g) {src dst : String} {c : Choice}
    {r : Except String Unit} (hreq : View.req key g (.rename src dst))
    (hp : perform s (.rename src dst) c = some (r, s')) (x : CacheConf) :
    Inv key (h.note key x (.act i (.rename src dst) r) s') s' (gs.set i (g.upd (.rename src dst) r)) ∧
      Keeps key s s' (.act i (.rename src dst) r) := by
  obtain ⟨rfl, fd, hb⟩ := hreq
  have hren : g.place.renamed = .locked fd := by rw [hb]; rfl
  simp only [perform] at hp
  split at hp
  · next e _ =>
    obtain ⟨rfl, rfl⟩ := Prod.mk.inj (Option.some.inj hp)
    have hfail : Places key (.act i (.rename src (cachePath key)) (.error e)) = false := Bool.and_false _
    rw [note_plain hfail rfl]
    refine ⟨?_, fun v hv => ⟨hv, hfail⟩⟩
    show Inv key h s (gs.set i { g with place := g.place.renamed })
    rw [hren]
    exact unrenamed_inv hI hi hb
  · obtain ⟨v, hv, he⟩ := Option.map_eq_some_iff.mp hp
    obtain ⟨rfl, rfl⟩ := Prod.mk.inj he
    obtain ⟨habsent, hI'⟩ := rename_inv hI hi hb hv
    refine ⟨?_, fun v' hv' => ?_⟩
    · have hnote : ∀ s' : Cache, h.note key x (.act i (.rename src (cachePath key)) (.ok ())) s' =
          ⟨h.placed + 1, h.returned⟩ := by
        intro s'
        simp [Record.note, Places, returns, Except.isOk, Except.toBool]
      show Inv key _ _ (gs.set i ⟨g.place.renamed, true⟩)
      rw [hren, hnote]
      exact hI'
    · rw [habsent] at hv'
      cases hv'

/-- **One step of one process.** -/
theorem act_inv (hI : Inv key h s gs) (hi : gs[i]? = some g) {a : Action} {c : Choice} {r : Answer a}
    (hreq : View.req key g a) (hp : perform s a c = some (r, s')) (x : CacheConf) :
    Inv key (h.note key x (.act i a r) s') s' (gs.set i (g.upd a r)) ∧ Keeps key s s' (.act i a r) := by
  have hself : gs.set i g = gs := set_self hi
  cases a with
  | crash lock =>
    obtain ⟨rfl, rfl⟩ := Prod.mk.inj (Option.some.inj hp)
    rw [note_plain rfl rfl]
    obtain rfl : g.place.fd = lock := hreq
    cases hd : c.dies with
    | false =>
      show Inv key h s (gs.set i g) ∧ _
      rw [hself]
      exact ⟨hI, fun v hv => ⟨hv, rfl⟩⟩
    | true =>
      show Inv key h (s.dead g.place.fd) (gs.set i { g with place := .out }) ∧ _
      cases hfd : g.place.fd with
      | some fd => exact ⟨close_inv hI hi hfd, fun v hv => ⟨hv, rfl⟩⟩
      | none =>
        have hout : { g with place := .out } = g := by
          obtain ⟨place, seen⟩ := g
          cases place <;> first | rfl | cases hfd
        rw [hout, hself]
        exact ⟨hI, fun v hv => ⟨hv, rfl⟩⟩
  | pathExists path =>
    obtain ⟨rfl, rfl⟩ := Prod.mk.inj (Option.some.inj hp)
    rw [note_plain rfl rfl, hreq.1]
    exact ⟨look_inv hI hi hreq.2, fun v hv => ⟨hv, rfl⟩⟩
  | createDirAll dir =>
    rw [note_plain rfl rfl]
    show Inv key h s' (gs.set i g) ∧ _
    rw [hself]
    simp only [perform] at hp
    split at hp
    · obtain ⟨rfl, rfl⟩ := Prod.mk.inj (Option.some.inj hp)
      exact ⟨hI, fun v hv => ⟨hv, rfl⟩⟩
    · obtain ⟨rfl, rfl⟩ := Prod.mk.inj (Option.some.inj hp)
      exact ⟨hI, fun v hv => ⟨hv, rfl⟩⟩
  | create path =>
    obtain ⟨rfl, -⟩ := hreq
    rw [note_plain rfl rfl]
    simp only [perform] at hp
    split at hp
    · obtain ⟨rfl, rfl⟩ := Prod.mk.inj (Option.some.inj hp)
      show Inv key h s (gs.set i g) ∧ _
      rw [hself]
      exact ⟨hI, fun v hv => ⟨hv, rfl⟩⟩
    · obtain ⟨rfl, rfl⟩ := Prod.mk.inj (Option.some.inj hp)
      refine ⟨open_inv hI hi, fun v hv => ⟨?_, rfl⟩⟩
      exact (Finmap.lookup_insert_of_ne _ (cachePath_ne_lockPath key)).trans hv
  | flock fd =>
    rw [note_plain rfl rfl]
    simp only [perform] at hp
    split at hp
    · obtain ⟨rfl, rfl⟩ := Prod.mk.inj (Option.some.inj hp)
      show Inv key h s (gs.set i g) ∧ _
      rw [hself]
      exact ⟨hI, fun v hv => ⟨hv, rfl⟩⟩
    · split at hp
      · next hfree =>
        obtain ⟨rfl, rfl⟩ := Prod.mk.inj (Option.some.inj hp)
        exact ⟨lock_inv hI hi hreq hfree, fun v hv => ⟨hv, rfl⟩⟩
      · cases hp
  | mkfs out rootfs =>
    obtain ⟨hI', himg⟩ := mkfs_act hI hi hreq hp
    rw [note_plain rfl rfl]
    exact ⟨hI', fun v hv => ⟨himg.trans hv, rfl⟩⟩
  | rename src dst => exact rename_act hI hi hreq hp x
  | close fd =>
    obtain ⟨rfl, rfl⟩ := Prod.mk.inj (Option.some.inj hp)
    rw [note_plain rfl rfl]
    exact ⟨close_inv hI hi hreq, fun v hv => ⟨hv, rfl⟩⟩
  | sleep ms =>
    obtain ⟨rfl, rfl⟩ := Prod.mk.inj (Option.some.inj hp)
    rw [note_plain rfl rfl]
    show Inv key h s (gs.set i g) ∧ _
    rw [hself]
    exact ⟨hI, fun v hv => ⟨hv, rfl⟩⟩
  | returned res =>
    obtain ⟨rfl, rfl⟩ := Prod.mk.inj (Option.some.inj hp)
    show Inv key _ s (gs.set i g) ∧ _
    rw [hself]
    refine ⟨⟨hI.apart, hI.fits, hI.complete, hI.once, hI.fresh, ?_⟩, fun v hv => ⟨hv, rfl⟩⟩
    intro path hpath
    rcases List.mem_append.mp hpath with hold | hnew
    · exact hI.returned path hold
    · cases res with
      | error e => cases hnew
      | ok path' =>
        obtain rfl := List.mem_singleton.mp hnew
        obtain ⟨rfl, hseen⟩ := hreq path rfl
        exact ⟨rfl, (hI.fits g (List.mem_of_getElem? hi)).seen hseen⟩

end Steps

/-! ### Runs -/

/-- Where a process is after what it did. -/
def placeOf (t : Thread Action Answer Proc) : Place := (t.log.foldl (fun g e => View.upd g e.1 e.2) View.init).place

section Runs

variable {key : String} {files : Finmap (fun _ : String => Content)} {h : Record} {x : CacheConf}

/-- The runs of any number of processes on the directory. -/
abbrev Runs (key : String) (files : Finmap (fun _ : String => Content)) (h : Record) (x : CacheConf) : Prop :=
  (erofsCache key).Hist (Record.note key) (fun _ _ _ => True) ⟨0, []⟩ (quietCache files) h x

theorem runs_inv (h₀ : ∀ v, files.lookup (cachePath key) = some v → v.complete = true) (hx : Runs key files h x) :
    Inv key h x.shared (x.threads.map (System.ghost (viewing key) fun _ => View.init)) ∧
      ∀ t ∈ x.threads, wp (viewing key) t.prog (fun _ _ => True)
        (System.ghost (viewing key) (fun _ => View.init) t) := by
  refine System.Hist.invOn (fun _ => True) (Inv key) (fun _ => True) (fun p _ => body_view p)
    (fun _ _ _ _ => trivial) ?_ (fun t ht => absurd ht List.not_mem_nil) ?_ ?_ hx
  · exact ⟨nofun, nofun, h₀, Nat.zero_le 1, fun _ => rfl, nofun⟩
  · intro h x p hI _ _
    refine ⟨trivial, ?_⟩
    rw [note_plain rfl rfl]
    refine ⟨hI.apart.append ?_, ?_, hI.complete, hI.once, hI.fresh, hI.returned⟩
    · intro g hg
      rw [List.mem_singleton.mp hg]
      rfl
    · intro g hg
      rcases List.mem_append.mp hg with hold | hnew
      · exact hI.fits g hold
      · rw [List.mem_singleton.mp hnew]
        exact ⟨nofun, nofun, nofun, nofun, nofun⟩
  · intro h x i g a c r s' hI hi hreq hp _
    refine ⟨trivial, ?_⟩
    show Inv key _ s' (_ ++ [])
    rw [List.append_nil]
    exact (act_inv hI hi hreq hp x).1

/-- **The cache of erofs images.**  In every run of any number of processes, from a directory without the image
or with a complete one: the image is complete whenever it is there, it was put in its place once at most, no step
removes, changes or replaces it, one process at most is between the second look and the rename, and every path
that a call returned is that of the image, which is there. -/
theorem image_complete (h₀ : ∀ v, files.lookup (cachePath key) = some v → v.complete = true)
    (hx : Runs key files h x) :
    (∀ v, x.shared.files.lookup (cachePath key) = some v → v.complete = true) ∧
    h.placed ≤ 1 ∧
    (∀ e y v, (erofsCache key).Step x e y → x.shared.files.lookup (cachePath key) = some v →
      y.shared.files.lookup (cachePath key) = some v ∧ Places key e = false) ∧
    (∀ (i j : ℕ) t u, x.threads[i]? = some t → x.threads[j]? = some u → (placeOf t).between = true →
      (placeOf u).between = true → i = j) ∧
    ∀ path ∈ h.returned, path = cachePath key ∧
      ∃ v, x.shared.files.lookup path = some v ∧ v.complete = true := by
  obtain ⟨hI, hW⟩ := runs_inv h₀ hx
  refine ⟨hI.complete, hI.once, ?_, ?_, ?_⟩
  · intro e y v hs hv
    cases hs with
    | arrive => exact ⟨hv, rfl⟩
    | @act i t a k l c r s' hi hp =>
      have hg : (x.threads.map (System.ghost (viewing key) fun _ => View.init))[i]? =
          some (System.ghost (viewing key) (fun _ => View.init) ⟨t, .act a k, l⟩) := by
        rw [List.getElem?_map, hi]
        rfl
      have hw := hW _ (List.mem_of_getElem? hi)
      exact (act_inv hI hg hw.1 hp x).2 v hv
  · intro i j t u ht hu hbt hbu
    have hview : ∀ (n : ℕ) v, x.threads[n]? = some v →
        (x.threads.map (System.ghost (viewing key) fun _ => View.init))[n]? =
          some (System.ghost (viewing key) (fun _ => View.init) v) := by
      intro n v hv
      rw [List.getElem?_map, hv]
      rfl
    obtain ⟨fd, hfd⟩ := Place.holds_of_between hbt
    obtain ⟨fd', hfd'⟩ := Place.holds_of_between hbu
    exact hI.alone (hview i t ht) (hview j u hu) hfd hfd'
  · intro path hpath
    obtain ⟨rfl, hthere⟩ := hI.returned path hpath
    obtain ⟨v, hv⟩ := Option.ne_none_iff_exists'.mp hthere
    exact ⟨rfl, v, hv, hI.complete v hv⟩

end Runs

/-- A step in which nothing goes wrong. -/
def fine : Choice := ⟨false, none, ⟨true, ""⟩, none⟩

/-- mkfs.erofs exits with an error, and leaves something in its output. -/
def broken : Choice := ⟨false, none, ⟨false, "no space"⟩, some .other⟩

/-- The process dies. -/
def killed : Choice := ⟨true, none, ⟨true, ""⟩, none⟩

def goes (i n : ℕ) (c : Choice) : List (Label Choice Proc) := List.replicate n (.sched i c)

/-- Three processes have opened the lock file.  The first dies with the image written, the second puts its own
in place at its second attempt, and the third finds it there under the lock. -/
def threeProcs : List (Label Choice Proc) :=
  [.arrive ⟨1, "/a"⟩, .arrive ⟨2, "/b"⟩, .arrive ⟨3, "/c"⟩] ++ goes 0 6 fine ++ goes 1 6 fine ++ goes 2 6 fine ++
    goes 0 6 fine ++ goes 0 1 killed ++ goes 1 5 fine ++ goes 1 1 broken ++ goes 1 22 fine ++ goes 2 7 fine

theorem image_complete_three : ∃ h x, Runs "k" ∅ h x ∧ h.placed = 1 ∧
    h.returned = [cachePath "k", cachePath "k"] ∧
    ∀ path ∈ h.returned, path = cachePath "k" ∧ ∃ v, x.shared.files.lookup path = some v ∧ v.complete = true := by
  have hrun : ((erofsCache "k").execHist (Record.note "k") (fun _ _ _ => true) ⟨0, []⟩ (quietCache ∅) threeProcs).any
      (fun y => decide (y.1.placed = 1 ∧ y.1.returned = [cachePath "k", cachePath "k"])) = true := by
    decide +kernel
  obtain ⟨h, x, hx, hend⟩ := System.exists_hist hrun
  obtain ⟨hplaced, hreturned⟩ := of_decide_eq_true hend
  have hruns : Runs "k" ∅ h x := hx.mono fun _ _ _ _ => trivial
  refine ⟨h, x, hruns, hplaced, hreturned, ?_⟩
  have hempty : ∀ v, (∅ : Finmap (fun _ : String => Content)).lookup (cachePath "k") = some v → v.complete = true := by
    intro v hv
    rw [Finmap.lookup_empty] at hv
    cases hv
  exact (image_complete hempty hruns).2.2.2.2

end CloudHv.Erofs
