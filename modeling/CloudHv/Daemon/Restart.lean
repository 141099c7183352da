import CloudHv.Daemon.Rules

/-!
# Restart — the base snapshot over several runs of the daemon

The base snapshot outlives the daemon: `Pool::initialize` of `crates/daemon/src/pool.rs` uses the one it finds in
the state directory, or makes one.  `base_snapshot_valid` looks at the three files of a snapshot and asks whether
they are there.

`Sys` is the state directory with at most one run of the daemon.  A run can end at any time (`crash`).  A request
for a snapshot that does not succeed, because it fails or because the daemon is gone before the answer, leaves any
part of its files.  Between these the kernel and the rootfs can be replaced (`upgrade`), the snapshot deleted
(`clear`), and the VMs of earlier runs stopped (`reap`).
-/

namespace CloudHv.Daemon.Restart

open Conc
open Agent (Err)

/-! ### What is on disk -/

/-- A file as it was when it was opened. -/
structure Source where
  path : String
  mtime : ℕ
  deriving DecidableEq

/-- What a VM was booted from. -/
structure Origin where
  kernel : Source
  rootfs : Source
  deriving DecidableEq

def Origin.uses (o : Origin) (path : String) : Bool := o.kernel.path = path || o.rootfs.path = path

/-- The files of a snapshot: config.json, memory-ranges and state.json. -/
inductive File where
  | config
  | memoryRanges
  | state
  deriving DecidableEq

def files : List File := [.config, .memoryRanges, .state]

/-- A file of the base snapshot: the VM it is of, the call that wrote it, and whether all of it was written. -/
structure Content where
  origin : Origin
  call : ℕ
  complete : Bool
  deriving DecidableEq

structure Disk where
  mtimes : String → Option ℕ
  /-- The base snapshot. -/
  base : File → Option Content
  /-- The VMs behind API sockets. -/
  vms : List (Path × Origin)
  /-- The number of calls that have written snapshots. -/
  calls : ℕ

/-- What the environment decides: the choice for a call, and for a snapshot that does not succeed which files it has
written (`some true` for all of a file). -/
structure Fate where
  choice : Choice
  written : File → Option Bool

namespace Disk

/-- `base_snapshot_valid`. -/
def valid (d : Disk) : Bool := files.all fun f => (d.base f).isSome

def sourceAt (d : Disk) (path : String) : Option Source := (d.mtimes path).map fun m => ⟨path, m⟩

/-- What a VM with these disks is booted from; the first disk is the rootfs. -/
def originOf (d : Disk) (kernel : String) (disks : List Agent.Disk) : Option Origin := do
  let k ← d.sourceAt kernel
  let disk ← disks.head?
  let r ← d.sourceAt disk.path
  pure ⟨k, r⟩

/-- A process starts to listen on a socket; it has no VM. -/
def listen (d : Disk) (sock : Path) : Disk := { d with vms := d.vms.filter fun v => v.1 ≠ sock }

def boot (d : Disk) (sock : Path) (o : Origin) : Disk := { d with vms := (sock, o) :: d.vms }

/-- A snapshot of a VM, as far as its files were written. -/
def write (d : Disk) (o : Origin) (written : File → Option Bool) : Disk :=
  { d with
    base := fun f =>
      match written f with
      | none => d.base f
      | some complete => some ⟨o, d.calls, complete⟩
    calls := d.calls + 1 }

def clear (d : Disk) : Disk := { d with base := fun _ => none }

/-! ### The calls of `main` -/

def orFail (d : Disk) (c : Fate) : Option (Except Err Unit × Disk) :=
  match c.choice.err with
  | some e => some (.error e, d)
  | none => some (.ok (), d)

/-- A request with the effect `done`; `cut` is what is left when it does not succeed. -/
def request (c : Fate) (done : Option Disk) (cut : Disk) : Option (Except ApiFailure Unit × Disk) :=
  match c.choice.api, done with
  | none, some d => some (.ok (), d)
  | none, none => none
  | some f, _ => some (.error f, cut)

/-- `dir` is the directory of the base snapshot.  The request that creates a VM also names the kernel. -/
def api (kernel : String) (dir : Path) (d : Disk) (sock : Path) (c : Fate) :
    ApiCall → Option (Except ApiFailure Unit × Disk)
  | .create disks _ _ =>
    match d.originOf kernel disks with
    | some o => request c (some (d.boot sock o)) (if c.choice.lost.isSome then d.boot sock o else d)
    | none => request c none d
  | .snapshot dest =>
    match d.vms.lookup sock with
    | some o =>
      if dest = dir then request c (some (d.write o fun _ => some true)) (d.write o c.written)
      else request c (some d) d
    | none => request c none d
  | .boot | .pause | .resume | .restore _ => request c (some d) d

/-- The calls that `main` does not make are not possible. -/
def host (kernel : String) (dir : Path) (d : Disk) : (a : HostAct) → Fate → Option (a.Answer × Disk)
  | .createDirAll _, c => d.orFail c
  | .createFile _, c => d.orFail c
  | .writePid _ _, c => d.orFail c
  | .baseSnapshotValid _, _ => some (d.valid, d)
  | .prepareSnapshot _ stateDir cid vsock, c =>
    match c.choice.err with
    | some e => some (.error e, d)
    | none => if d.valid then some (.ok ⟨stateDir ++ ["snapshot"], cid, vsock⟩, d) else none
  | .spawnCh stateDir, c =>
    match c.choice.err with
    | some e => some (.error e, d)
    | none => some (.ok c.choice.pid, d.listen (stateDir ++ ["api.sock"]))
  | .api sock call, c => d.api kernel dir sock c call
  | .chReady _, c => some (c.choice.flag, d)
  | .agentHealthy _, c => some (c.choice.flag, d)
  | .sigterm _, _ => some ((), d)
  | .awaitGone _, c => some (c.choice.flag, d)
  | .sigkill _, _ => some ((), d)
  | .removeDirAll p, c => some ((), if c.choice.err.isNone && p.isPrefixOf dir then d.clear else d)
  | _, _ => none

end Disk

def perform (kernel : String) (dir : Path) (d : Disk) (p : Pool) :
    (a : Action) → Fate → Option (Answer a × Disk × Pool)
  | .host a, c => (d.host kernel dir a c).map fun (r, d') => (r, d', p)
  | .pool a, _ => some ((p.perform a).1, d, (p.perform a).2)
  | .sleep _, _ => some ((), d, p)
  | .bindSocket, c =>
    match c.choice.err with
    | some e => some (.error e, d, p)
    | none => some (.ok (), d, p)
  | _, _ => none

/-! ### Runs -/

/-- A run of the daemon: its configuration (`kernel` is the path of the kernel), its memory, what is left to do and
what it did. -/
structure Run where
  env : Env
  kernel : String
  pool : Pool
  prog : P Unit
  log : List (Act Action Answer)

structure Sys where
  disk : Disk
  run : Option Run

inductive Label where
  | start (env : Env) (kernel : String)
  | act (c : Fate)
  | crash
  | upgrade (path : String) (mtime : ℕ)
  | clear
  | reap

def Run.begin (E : Env) (kernel : String) : Run := ⟨E, kernel, Pool.new, (mainTask E).toTask, []⟩

/-- One step; all runs have the base snapshot in `dir`. -/
def step (dir : Path) (x : Sys) : Label → Option Sys
  | .start E kernel =>
    if x.run.isNone ∧ E.cfg.baseSnapshotDir = dir then some { x with run := some (.begin E kernel) } else none
  | .act c =>
    match x.run with
    | some ⟨E, kernel, p, .act a k, log⟩ =>
      match perform kernel dir x.disk p a c with
      | some (r, d, p') => some ⟨d, some ⟨E, kernel, p', k r, log ++ [⟨a, r⟩]⟩⟩
      | none => none
    | _ => none
  | .crash => some { x with run := none }
  | .upgrade path m => some { x with disk := { x.disk with mtimes := Function.update x.disk.mtimes path (some m) } }
  | .clear => some { x with disk := x.disk.clear }
  | .reap => some { x with disk := { x.disk with vms := [] } }

/-- The states reached by steps that all meet `ok`. -/
inductive Reach (dir : Path) (ok : Sys → Label → Bool) (x₀ : Sys) : Sys → Prop
  | init : Reach dir ok x₀ x₀
  | step {x y : Sys} {l : Label} : Reach dir ok x₀ x → step dir x l = some y → ok x l = true → Reach dir ok x₀ y

def exec (dir : Path) (ok : Sys → Label → Bool) : Sys → List Label → Option Sys
  | x, [] => some x
  | x, l :: ls =>
    match step dir x l with
    | some y => if ok x l then exec dir ok y ls else none
    | none => none

/-- A state directory without a base snapshot. -/
def bare (mtimes : String → Option ℕ) : Sys := ⟨⟨mtimes, fun _ => none, [], 0⟩, none⟩

/-! ### What a run does first -/

def isCheck : Action → Bool
  | .host (.baseSnapshotValid _) => true
  | _ => false

/-- The action uses the base snapshot. -/
def restores : Action → Bool
  | .host (.prepareSnapshot _ _ _ _) | .host (.api _ (.restore _)) => true
  | _ => false

/-- The check said that there is a snapshot, or one was made. -/
def settles : (a : Action) → Answer a → Bool
  | .host (.baseSnapshotValid _), r => r
  | .host (.api _ (.snapshot _)), r => !isError r
  | _, _ => false

/-- Whether a run has done anything, and whether it has settled which snapshot to use. -/
structure Progress where
  fresh : Bool
  settled : Bool
  deriving DecidableEq

def Progress.init : Progress := ⟨true, false⟩

/-- The check comes first, and the base snapshot is used only when it is settled. -/
def inOrder : Discipline Action Answer Progress where
  upd g a r := ⟨false, g.settled || settles a r⟩
  req g a := (isCheck a = true → g.fresh = true) ∧ (restores a = true → g.settled = true)
  may _ _ _ := True

/-- The progress of a run that has this log. -/
def progress (log : List (Act Action Answer)) : Progress :=
  log.foldl (fun g e => inOrder.upd g e.1 e.2) .init

theorem progress_concat (log : List (Act Action Answer)) (a : Action) (r : Answer a) :
    progress (log ++ [⟨a, r⟩]) = inOrder.upd (progress log) a r := by
  rw [progress, List.foldl_append]
  rfl

theorem progress_eq (log : List (Act Action Answer)) :
    progress log = ⟨log.isEmpty, log.any fun e => settles e.1 e.2⟩ := by
  induction log using List.reverseRecOn with
  | nil => rfl
  | append_singleton log e ih =>
    have hne : (log ++ [e]).isEmpty = false := by simp
    rw [progress_concat, ih, List.any_append, List.any_cons, List.any_nil, Bool.or_false, hne]
    rfl

/-- An action that neither checks, restores nor snapshots. -/
def Aside (a : Action) : Prop := isCheck a = false ∧ restores a = false ∧ ∀ r, settles a r = false

/-- An action for after the check. -/
structure Later (a : Action) : Prop where
  isCheck : isCheck a = false

theorem Aside.later {a : Action} (h : Aside a) : Later a := ⟨h.1⟩

section Order

theorem createDirAll_aside (p : Path) : Only Aside (createDirAll p).run :=
  only_ask (only_call ⟨rfl, rfl, fun _ => rfl⟩)

theorem spawnCh_aside (dir : Path) : Only Aside (spawnCh dir).run :=
  (only_ask (only_call ⟨rfl, rfl, fun _ => rfl⟩)).bindE fun _ =>
  (only_ask (only_call ⟨rfl, rfl, fun _ => rfl⟩)).bindE fun _ => trivial

theorem waitChReady_aside (sock : Path) : Only Aside (waitChReady sock).run := by
  refine (only_tell (R := Aside) ⟨rfl, rfl, fun _ => rfl⟩).bindE fun b => ?_
  cases b <;> trivial

theorem waitForAgent_aside (vsock : Path) : Only Aside (waitForAgent vsock).run := by
  refine (only_tell (R := Aside) ⟨rfl, rfl, fun _ => rfl⟩).bindE fun b => ?_
  cases b <;> trivial

theorem bootVm_aside (E : Env) (dir : Path) (cid : ℕ) : Only Aside (bootVm E dir cid).run :=
  (spawnCh_aside dir).bindE fun _ => (waitChReady_aside _).bindE fun _ =>
  (only_ask (only_call ⟨rfl, rfl, fun _ => rfl⟩)).bindE fun _ =>
  (only_ask (only_call ⟨rfl, rfl, fun _ => rfl⟩)).bindE fun _ =>
  (only_ask (only_call ⟨rfl, rfl, fun _ => rfl⟩)).bindE fun _ =>
  (only_ask (only_call ⟨rfl, rfl, fun _ => rfl⟩)).bindE fun _ => trivial

theorem shutdownAndDestroy_aside (pid : ℕ) (dir : Path) : Only Aside (shutdownAndDestroy pid dir).run := by
  refine (only_tell (R := Aside) ⟨rfl, rfl, fun _ => rfl⟩).bindE fun _ =>
    (only_tell (R := Aside) ⟨rfl, rfl, fun _ => rfl⟩).bindE fun b => ?_
  have hremove : Only Aside (host (.removeDirAll dir)).run := only_tell ⟨rfl, rfl, fun _ => rfl⟩
  cases b with
  | true => exact hremove
  | false =>
    exact (only_tell (R := Aside) ⟨rfl, rfl, fun _ => rfl⟩).bindE fun _ =>
      (only_tell (R := Aside) ⟨rfl, rfl, fun _ => rfl⟩).bindE fun _ => hremove

/-- After the check nothing is checked again. -/
theorem restoreOne_later (E : Env) : Only Later (restoreOne E).run :=
  (only_tell (R := Later) ⟨rfl⟩).bindE fun _ => (only_tell (R := Later) ⟨rfl⟩).bindE fun _ =>
  ((createDirAll_aside _).mono fun _ => Aside.later).bindE fun _ =>
  (only_ask (only_call (R := Later) ⟨rfl⟩)).bindE fun _ =>
  ((spawnCh_aside _).mono fun _ => Aside.later).bindE fun _ =>
  ((waitChReady_aside _).mono fun _ => Aside.later).bindE fun _ =>
  (only_ask (only_call (R := Later) ⟨rfl⟩)).bindE fun _ => (only_ask (only_call (R := Later) ⟨rfl⟩)).bindE fun _ =>
  (only_context ((waitForAgent_aside _).mono fun _ => Aside.later)).bindE fun _ => trivial

theorem fillPool_later (E : Env) : ∀ k, Only Later (fillPool E k).run
  | 0 => trivial
  | k + 1 => by
    refine (only_attempt (restoreOne_later E)).bindE fun r => ?_
    cases r with
    | ok vm => exact (only_tell (R := Later) ⟨rfl⟩).bindE fun _ => fillPool_later E k
    | error e => exact fillPool_later E k

variable {α : Type} {Q : α → Progress → Prop} {F : Fail → Progress → Prop} {g : Progress}

/-- Actions aside leave the progress of a run that has begun. -/
theorem aside_wpx {m : M α} (h : Only Aside m.run) (hg : g.fresh = false) (hQ : ∀ x, Q x g) (hF : ∀ e, F e g) :
    wpx inOrder m Q F g := by
  refine h.wp (fun a ha => ⟨⟨fun hc => ?_, fun hr => ?_⟩, fun r _ => ?_⟩) fun r => ?_
  · rw [ha.1] at hc
    cases hc
  · rw [ha.2.1] at hr
    cases hr
  · show (⟨false, g.settled || settles a r⟩ : Progress) = g
    rw [ha.2.2 r, Bool.or_false, ← hg]
  · cases r with
    | ok x => exact hQ x
    | error e => exact hF e

/-- Once a snapshot is settled, everything but another check is in order. -/
theorem settled_wpx {m : M α} (h : Only Later m.run) (hQ : ∀ x, Q x ⟨false, true⟩)
    (hF : ∀ e, F e ⟨false, true⟩) : wpx inOrder m Q F ⟨false, true⟩ := by
  refine h.wp (fun a ha => ⟨⟨fun hc => ?_, fun _ => rfl⟩, fun _ _ => rfl⟩) fun r => ?_
  · rw [ha.isCheck] at hc
    cases hc
  · cases r with
    | ok x => exact hQ x
    | error e => exact hF e

/-- A snapshot that was made is settled. -/
theorem createBaseSnapshot_wpx (E : Env) (dir : Path) :
    wpx inOrder (createBaseSnapshot E dir) (fun _ g => g = ⟨false, true⟩) (fun _ _ => True) ⟨false, false⟩ := by
  have haside : ∀ {β : Type} {m : M β} {Q : β → Progress → Prop}, Only Aside m.run → (∀ x, Q x ⟨false, false⟩) →
      wpx inOrder m Q (fun _ _ => True) ⟨false, false⟩ := fun h hQ => aside_wpx h rfl hQ fun _ => trivial
  unfold createBaseSnapshot
  simp only [wpx_bind]
  refine haside (createDirAll_aside _) fun _ => haside (only_tell ⟨rfl, rfl, fun _ => rfl⟩) fun _ =>
    haside (createDirAll_aside _) fun _ => haside (only_context (bootVm_aside _ _ _)) fun _ =>
    haside (only_context (waitForAgent_aside _)) fun _ => haside (only_ask (only_call ⟨rfl, rfl, fun _ => rfl⟩)) fun _ => ?_
  rw [apiRequest, wpx_ask, wp_onHost]
  refine ⟨⟨fun hc => (by cases hc), fun hr => (by cases hr)⟩, fun r _ => ?_⟩
  cases r with
  | error e => trivial
  | ok u => exact aside_wpx (shutdownAndDestroy_aside _ _) rfl (fun _ => rfl) fun _ => trivial

theorem mainTask_inOrder (E : Env) : wp inOrder (mainTask E).toTask (fun _ _ => True) .init := by
  refine wp_toTask ?_
  have hfill : ∀ k, wpx inOrder (fillPool E k) (fun _ g => g = ⟨false, true⟩) (fun _ _ => True) ⟨false, true⟩ :=
    fun k => settled_wpx (fillPool_later E k) (fun _ => rfl) fun _ => trivial
  unfold mainTask
  rw [wpx_bind]
  refine wpx_mono (Q := fun _ g => g = ⟨false, true⟩) (E := fun _ _ => True) ?_ ?_ fun _ _ _ => trivial
  · unfold initializePool
    rw [wpx_bind, wpx_host]
    refine ⟨⟨fun _ => rfl, nofun⟩, fun b _ => ?_⟩
    cases b with
    | true => exact hfill _
    | false =>
      show wpx inOrder (do createBaseSnapshot E E.cfg.baseSnapshotDir; fillPool E E.cfg.poolSize) _ _ ⟨false, false⟩
      rw [wpx_bind]
      refine wpx_mono (createBaseSnapshot_wpx E _) ?_ fun _ _ h => h
      rintro _ _ rfl
      exact hfill _
  · rintro _ _ rfl
    exact settled_wpx (only_ask ⟨Later.mk rfl, fun _ => trivial⟩) (fun _ => trivial) fun _ => trivial

end Order

/-! ### The snapshot that a run finds -/

/-- The files of an origin are as they were. -/
def Disk.Has (d : Disk) (o : Origin) : Prop :=
  d.mtimes o.kernel.path = some o.kernel.mtime ∧ d.mtimes o.rootfs.path = some o.rootfs.mtime

/-- The base snapshot was completely written by one call, from the kernel and the rootfs of the run's configuration
as they are. -/
def Disk.Current (d : Disk) (r : Run) : Prop :=
  ∃ o n, (∀ f, d.base f = some ⟨o, n, true⟩) ∧ o.kernel.path = r.kernel ∧ o.rootfs.path = r.env.cfg.rootfsPath ∧ d.Has o

/-- The condition on a step.  A daemon is started with the paths of the kernel and the rootfs that a snapshot in its
directory was made from.  No file is replaced that a snapshot, or a VM that can still be snapshotted, was made from.
A request for a snapshot that does not succeed leaves one of the files missing, or has written them all. -/
def careful (x : Sys) : Label → Bool
  | .start E kernel => !x.disk.valid || files.all fun f => (x.disk.base f).all fun c =>
      c.origin.kernel.path = kernel && c.origin.rootfs.path = E.cfg.rootfsPath
  | .upgrade path _ => (!x.disk.valid || files.all fun f => (x.disk.base f).all fun c => !c.origin.uses path) &&
      x.disk.vms.all fun v => !v.2.uses path
  | .act c =>
    match x.run with
    | some ⟨_, _, _, .act (.host (.api _ (.snapshot _))) _, _⟩ =>
      c.choice.api.isNone || (files.any fun f => (x.disk.base f).isNone && (c.written f).isNone) ||
        files.all fun f => c.written f = some true
    | _ => true
  | .crash | .clear | .reap => true

/-- What is on disk is up to date, and a snapshot that looks valid is complete. -/
structure Sound (d : Disk) : Prop where
  vms : ∀ v ∈ d.vms, d.Has v.2
  base : d.valid = true → ∃ o n, (∀ f, d.base f = some ⟨o, n, true⟩) ∧ d.Has o

theorem mem_files (f : File) : f ∈ files := by
  cases f <;> decide

theorem valid_iff {d : Disk} : d.valid = true ↔ ∀ f, (d.base f).isSome = true := by
  rw [Disk.valid, List.all_eq_true]
  exact ⟨fun h f => h f (mem_files f), fun h f _ => h f⟩

section Disk

variable {d d' : Disk} {c : Fate} {kernel : String} {dir : Path}

theorem Sound.clear (h : Sound d) : Sound d.clear := ⟨h.vms, fun hv => by cases hv⟩

theorem Sound.listen (h : Sound d) (sock : Path) : Sound (d.listen sock) :=
  ⟨fun v hv => h.vms v (List.mem_filter.mp hv).1, h.base⟩

theorem originOf_has {disks : List Agent.Disk} {o : Origin} (h : d.originOf kernel disks = some o) : d.Has o := by
  unfold Disk.originOf at h
  simp only [Option.bind_eq_bind, Option.bind_eq_some_iff, Option.pure_def, Option.some.injEq] at h
  obtain ⟨k, hk, disk, -, r, hr, rfl⟩ := h
  obtain ⟨mk, hmk, rfl⟩ := Option.map_eq_some_iff.mp hk
  obtain ⟨mr, hmr, rfl⟩ := Option.map_eq_some_iff.mp hr
  exact ⟨hmk, hmr⟩

theorem Sound.boot (h : Sound d) {o : Origin} (ho : d.Has o) (sock : Path) : Sound (d.boot sock o) := by
  refine ⟨fun v hv => ?_, h.base⟩
  rcases List.mem_cons.mp hv with rfl | hv
  · exact ho
  · exact h.vms v hv

/-- A snapshot that was written completely, or of which a file is missing. -/
theorem Sound.write (h : Sound d) {o : Origin} (ho : d.Has o) {written : File → Option Bool}
    (hw : (∃ f, d.base f = none ∧ written f = none) ∨ ∀ f, written f = some true) : Sound (d.write o written) := by
  refine ⟨h.vms, fun hv => ?_⟩
  rcases hw with ⟨f, hf, hwf⟩ | hw
  · have hsome := valid_iff.mp hv f
    simp only [Disk.write, hwf, hf] at hsome
    cases hsome
  · refine ⟨o, d.calls, fun f => ?_, ho⟩
    simp only [Disk.write, hw f]

theorem request_cases {done : Option Disk} {cut : Disk} {r : Except ApiFailure Unit}
    (h : Disk.request c done cut = some (r, d')) :
    (c.choice.api = none ∧ done = some d') ∨ (c.choice.api ≠ none ∧ d' = cut) := by
  unfold Disk.request at h
  split at h
  · next d'' hn =>
    obtain ⟨-, rfl⟩ := Prod.mk.inj (Option.some.inj h)
    exact .inl ⟨hn, rfl⟩
  · cases h
  · next f hf =>
    obtain ⟨-, rfl⟩ := Prod.mk.inj (Option.some.inj h)
    exact .inr ⟨by rw [hf]; exact Option.some_ne_none f, rfl⟩

theorem lookup_mem {l : List (Path × Origin)} {sock : Path} {o : Origin} (h : l.lookup sock = some o) :
    (sock, o) ∈ l := by
  obtain ⟨l₁, l₂, rfl, -⟩ := List.lookup_eq_some_iff.mp h
  exact List.mem_append_right _ List.mem_cons_self

/-- A request keeps the disk sound, if one for a snapshot is careful. -/
theorem Sound.api (h : Sound d) {sock : Path} {call : ApiCall} {r : Except ApiFailure Unit}
    (hp : d.api kernel dir sock c call = some (r, d'))
    (hc : ∀ dest, call = .snapshot dest → c.choice.api = none ∨ (∃ f, d.base f = none ∧ c.written f = none) ∨
      ∀ f, c.written f = some true) : Sound d' := by
  have hsame : Disk.request c (some d) d = some (r, d') → Sound d' := by
    intro hq
    rcases request_cases hq with ⟨-, hd⟩ | ⟨-, rfl⟩
    · exact Option.some.inj hd ▸ h
    · exact h
  have hnone : Disk.request c none d = some (r, d') → Sound d' := by
    intro hq
    rcases request_cases hq with ⟨-, hd⟩ | ⟨-, rfl⟩
    · cases hd
    · exact h
  cases call with
  | boot => exact hsame hp
  | pause => exact hsame hp
  | resume => exact hsame hp
  | restore src => exact hsame hp
  | create disks cid vsock =>
    simp only [Disk.api] at hp
    split at hp
    · next o ho =>
      have hboot : Sound (d.boot sock o) := h.boot (originOf_has ho) sock
      rcases request_cases hp with ⟨-, hd⟩ | ⟨-, rfl⟩
      · exact Option.some.inj hd ▸ hboot
      · split
        · exact hboot
        · exact h
    · exact hnone hp
  | snapshot dest =>
    simp only [Disk.api] at hp
    split at hp
    · next o ho =>
      have hhas := h.vms _ (lookup_mem ho)
      split at hp
      · rcases request_cases hp with ⟨-, hd⟩ | ⟨hfail, rfl⟩
        · exact Option.some.inj hd ▸ h.write hhas (.inr fun _ => rfl)
        · exact h.write hhas ((hc dest rfl).resolve_left hfail)
      · exact hsame hp
    · exact hnone hp

theorem orFail_same {r : Except Err Unit} (hp : d.orFail c = some (r, d')) : d' = d := by
  unfold Disk.orFail at hp
  split at hp
  · exact (Prod.mk.inj (Option.some.inj hp)).2.symm
  · exact (Prod.mk.inj (Option.some.inj hp)).2.symm

theorem Sound.host (h : Sound d) {a : HostAct} {r : a.Answer} (hp : d.host kernel dir a c = some (r, d'))
    (hc : ∀ sock dest, a = .api sock (.snapshot dest) → c.choice.api = none ∨
      (∃ f, d.base f = none ∧ c.written f = none) ∨ ∀ f, c.written f = some true) : Sound d' := by
  cases a with
  | createDirAll p => exact orFail_same hp ▸ h
  | createFile p => exact orFail_same hp ▸ h
  | writePid p pid => exact orFail_same hp ▸ h
  | baseSnapshotValid p => exact (Prod.mk.inj (Option.some.inj hp)).2 ▸ h
  | chReady p => exact (Prod.mk.inj (Option.some.inj hp)).2 ▸ h
  | agentHealthy p => exact (Prod.mk.inj (Option.some.inj hp)).2 ▸ h
  | sigterm pid => exact (Prod.mk.inj (Option.some.inj hp)).2 ▸ h
  | awaitGone pid => exact (Prod.mk.inj (Option.some.inj hp)).2 ▸ h
  | sigkill pid => exact (Prod.mk.inj (Option.some.inj hp)).2 ▸ h
  | api sock call => exact h.api hp fun dest hcall => hc sock dest (by rw [hcall])
  | prepareSnapshot base st cid vsock =>
    simp only [Disk.host] at hp
    split at hp
    · exact (Prod.mk.inj (Option.some.inj hp)).2 ▸ h
    · split at hp
      · exact (Prod.mk.inj (Option.some.inj hp)).2 ▸ h
      · cases hp
  | spawnCh st =>
    simp only [Disk.host] at hp
    split at hp
    · exact (Prod.mk.inj (Option.some.inj hp)).2 ▸ h
    · exact (Prod.mk.inj (Option.some.inj hp)).2 ▸ h.listen _
  | removeDirAll p =>
    obtain ⟨-, rfl⟩ := Prod.mk.inj (Option.some.inj hp)
    split
    · exact h.clear
    · exact h
  | _ => cases hp

theorem Sound.perform (h : Sound d) {p p' : Pool} {a : Action} {r : Answer a}
    (hp : perform kernel dir d p a c = some (r, d', p'))
    (hc : ∀ sock dest, a = .host (.api sock (.snapshot dest)) → c.choice.api = none ∨
      (∃ f, d.base f = none ∧ c.written f = none) ∨ ∀ f, c.written f = some true) : Sound d' := by
  cases a with
  | host a =>
    obtain ⟨⟨q, d''⟩, hq, hrest⟩ := Option.map_eq_some_iff.mp hp
    obtain ⟨rfl, hrest'⟩ := Prod.mk.inj hrest
    obtain ⟨rfl, rfl⟩ := Prod.mk.inj hrest'
    exact h.host hq fun sock dest ha => hc sock dest (by rw [ha])
  | pool a => exact (Prod.mk.inj (Prod.mk.inj (Option.some.inj hp)).2).1 ▸ h
  | sleep ms => exact (Prod.mk.inj (Prod.mk.inj (Option.some.inj hp)).2).1 ▸ h
  | bindSocket =>
    simp only [Restart.perform] at hp
    split at hp
    · exact (Prod.mk.inj (Prod.mk.inj (Option.some.inj hp)).2).1 ▸ h
    · exact (Prod.mk.inj (Prod.mk.inj (Option.some.inj hp)).2).1 ▸ h
  | _ => cases hp

/-- Replacing a file that nothing on disk was made from. -/
theorem Sound.upgrade (h : Sound d) {path : String} {m : ℕ}
    (hbase : d.valid = true → ∀ f c, d.base f = some c → c.origin.uses path = false)
    (hvms : ∀ v ∈ d.vms, v.2.uses path = false) :
    Sound { d with mtimes := Function.update d.mtimes path (some m) } := by
  have hkeep : ∀ o : Origin, o.uses path = false → d.Has o →
      Disk.Has { d with mtimes := Function.update d.mtimes path (some m) } o := by
    intro o ho hhas
    simp only [Origin.uses, Bool.or_eq_false_iff, decide_eq_false_iff_not] at ho
    refine ⟨?_, ?_⟩
    · show Function.update d.mtimes path (some m) o.kernel.path = _
      rw [Function.update_of_ne ho.1]
      exact hhas.1
    · show Function.update d.mtimes path (some m) o.rootfs.path = _
      rw [Function.update_of_ne ho.2]
      exact hhas.2
  refine ⟨fun v hv => hkeep _ (hvms v hv) (h.vms v hv), fun hv => ?_⟩
  obtain ⟨o, n, hall, hhas⟩ := h.base hv
  exact ⟨o, n, hall, hkeep o (hbase hv .config _ (hall .config)) hhas⟩

end Disk

/-! ### The invariant -/

/-- A run that has not begun would find a snapshot from the files its configuration names. -/
structure Inv (x : Sys) : Prop where
  disk : Sound x.disk
  order : ∀ r, x.run = some r → wp inOrder r.prog (fun _ _ => True) (progress r.log)
  paths : ∀ r, x.run = some r → r.log = [] → x.disk.valid = true → ∀ f c, x.disk.base f = some c →
    c.origin.kernel.path = r.kernel ∧ c.origin.rootfs.path = r.env.cfg.rootfsPath

section Run

variable {dir : Path} {x y : Sys} {l : Label}

theorem careful_start {E : Env} {kernel : String} (h : careful x (.start E kernel) = true)
    (hv : x.disk.valid = true) (f : File) (c : Content) (hf : x.disk.base f = some c) :
    c.origin.kernel.path = kernel ∧ c.origin.rootfs.path = E.cfg.rootfsPath := by
  simp only [careful, hv, Bool.not_true, Bool.false_or, List.all_eq_true] at h
  have hc := h f (mem_files f)
  rw [hf, Option.all_some, Bool.and_eq_true, decide_eq_true_eq, decide_eq_true_eq] at hc
  exact hc

theorem careful_upgrade {path : String} {m : ℕ} (h : careful x (.upgrade path m) = true) :
    (x.disk.valid = true → ∀ f c, x.disk.base f = some c → c.origin.uses path = false) ∧
      ∀ v ∈ x.disk.vms, v.2.uses path = false := by
  obtain ⟨hbase, hvms⟩ := Bool.and_eq_true_iff.mp h
  refine ⟨fun hv f c hf => ?_, fun v hv => ?_⟩
  · rw [hv, Bool.not_true, Bool.false_or, List.all_eq_true] at hbase
    have hc := hbase f (mem_files f)
    rwa [hf, Option.all_some, Bool.not_eq_true'] at hc
  · have hc := List.all_eq_true.mp hvms v hv
    rwa [Bool.not_eq_true'] at hc

theorem careful_snapshot {c : Fate} {E : Env} {kernel : String} {p : Pool} {log : List (Act Action Answer)}
    {sock dest : Path} {k : Answer (.host (.api sock (.snapshot dest))) → P Unit}
    (hrun : x.run = some ⟨E, kernel, p, .act (.host (.api sock (.snapshot dest))) k, log⟩)
    (h : careful x (.act c) = true) :
    c.choice.api = none ∨ (∃ f, x.disk.base f = none ∧ c.written f = none) ∨ ∀ f, c.written f = some true := by
  simp only [careful, hrun, Bool.or_eq_true, Option.isNone_iff_eq_none] at h
  rcases h with (h | h) | h
  · exact .inl h
  · obtain ⟨f, -, hf⟩ := List.any_eq_true.mp h
    rw [Bool.and_eq_true, Option.isNone_iff_eq_none, Option.isNone_iff_eq_none] at hf
    exact .inr (.inl ⟨f, hf⟩)
  · refine .inr (.inr fun f => ?_)
    exact of_decide_eq_true (List.all_eq_true.mp h f (mem_files f))

/-- A step of the run. -/
theorem act_cases {c : Fate} (h : step dir x (.act c) = some y) :
    ∃ E kernel p a k log r p', x.run = some ⟨E, kernel, p, .act a k, log⟩ ∧
      perform kernel dir x.disk p a c = some (r, y.disk, p') ∧
      y.run = some ⟨E, kernel, p', k r, log ++ [⟨a, r⟩]⟩ := by
  simp only [step] at h
  split at h
  · next E kernel p a k log hrun =>
    split at h
    · next r d p' hp =>
      obtain rfl := Option.some.inj h
      exact ⟨E, kernel, p, a, k, log, r, p', hrun, hp, rfl⟩
    · cases h
  · cases h

theorem inv_step (hI : Inv x) (hs : step dir x l = some y) (hc : careful x l = true) : Inv y := by
  cases l with
  | start E kernel =>
    simp only [step] at hs
    split at hs
    · obtain rfl := Option.some.inj hs
      refine ⟨hI.disk, ?_, ?_⟩
      · rintro r hr
        obtain rfl := Option.some.inj hr
        exact mainTask_inOrder E
      · rintro r hr - hv f c hf
        obtain rfl := Option.some.inj hr
        exact careful_start hc hv f c hf
    · cases hs
  | act c =>
    obtain ⟨E, kernel, p, a, k, log, r, p', hrun, hp, hy⟩ := act_cases hs
    refine ⟨hI.disk.perform hp ?_, ?_, ?_⟩
    · rintro sock dest rfl
      exact careful_snapshot hrun hc
    · intro r' hr'
      obtain rfl := Option.some.inj (hy.symm.trans hr')
      have hw := (hI.order _ hrun).2 r trivial
      rw [progress_concat]
      exact hw
    · intro r' hr' hlog
      obtain rfl := Option.some.inj (hy.symm.trans hr')
      exact absurd hlog (List.append_ne_nil_of_right_ne_nil _ (List.cons_ne_nil _ _))
  | crash =>
    obtain rfl := Option.some.inj hs
    exact ⟨hI.disk, nofun, nofun⟩
  | upgrade path m =>
    obtain rfl := Option.some.inj hs
    obtain ⟨hbase, hvms⟩ := careful_upgrade hc
    exact ⟨hI.disk.upgrade hbase hvms, hI.order, hI.paths⟩
  | clear =>
    obtain rfl := Option.some.inj hs
    exact ⟨hI.disk.clear, hI.order, nofun⟩
  | reap =>
    obtain rfl := Option.some.inj hs
    exact ⟨⟨nofun, hI.disk.base⟩, hI.order, hI.paths⟩

theorem inv_run {mtimes : String → Option ℕ} (h : Reach dir careful (bare mtimes) x) : Inv x := by
  induction h with
  | init => exact ⟨⟨nofun, nofun⟩, nofun, nofun⟩
  | step _ hs hc ih => exact inv_step ih hs hc

theorem reach_of_exec {ok : Sys → Label → Bool} {x₀ : Sys} {ls : List Label} (h0 : Reach dir ok x₀ x)
    (h : exec dir ok x ls = some y) : Reach dir ok x₀ y := by
  induction ls generalizing x with
  | nil => exact Option.some.inj h ▸ h0
  | cons l ls ih =>
    simp only [exec] at h
    split at h
    · next z hs =>
      split at h
      · next hok => exact ih (h0.step hs hok) h
      · cases h
    · cases h

end Run

/-- **The base snapshot.**  In every sequence of runs, crashes and upgrades whose steps meet the condition: a run
that is about to check finds no snapshot, or one that is complete and current; and a run that is about to use the
base snapshot has found one, or made one. -/
theorem base_snapshot_current (dir : Path) (mtimes : String → Option ℕ) (x : Sys)
    (h : Reach dir careful (bare mtimes) x) (r : Run) (hr : x.run = some r) (a : Action) (k : Answer a → P Unit)
    (hk : r.prog = .act a k) :
    (isCheck a = true → x.disk.valid = true → x.disk.Current r) ∧
      (restores a = true → (r.log.any fun e => settles e.1 e.2) = true) := by
  have hI := inv_run h
  have hw := hI.order r hr
  rw [hk, progress_eq] at hw
  refine ⟨fun ha hv => ?_, hw.1.2⟩
  have hfresh : r.log = [] := List.isEmpty_iff.mp (hw.1.1 ha)
  obtain ⟨o, n, hall, hhas⟩ := hI.disk.base hv
  obtain ⟨hk', hr'⟩ := hI.paths r hr hfresh hv .config _ (hall .config)
  exact ⟨o, n, hall, hk', hr', hhas⟩

/-- A daemon without pooled VMs, a kernel and a rootfs, and a step that succeeds. -/
def noPool : Env where
  cfg := { poolSize := 0, rootfsPath := "/opt/rootfs.img" }
  pid := 7
  decode := fun _ => none

def installed (path : String) : Option ℕ := if path = "/opt/vmlinux" ∨ path = "/opt/rootfs.img" then some 1 else none

def Fate.fine : Fate := ⟨.fine 100, fun _ => none⟩

/-- The run is about to check, and would find a snapshot. -/
def atCheck (x : Sys) : Bool :=
  x.disk.valid && x.run.any fun r =>
    match r.prog with
    | .act a _ => isCheck a
    | .ret _ => false

theorem atCheck_cases {x : Sys} (h : atCheck x = true) :
    x.disk.valid = true ∧ ∃ r a k, x.run = some r ∧ r.prog = .act a k ∧ isCheck a = true := by
  obtain ⟨hv, hr⟩ := Bool.and_eq_true_iff.mp h
  obtain ⟨r, hrun, hprog⟩ := (Option.any_eq_true ..).mp hr
  split at hprog
  · next a k hk => exact ⟨hv, r, a, k, hrun, hk, hprog⟩
  · cases hprog

/-- A run that makes the snapshot. -/
def firstRun : List Label := .start noPool "/opt/vmlinux" :: List.replicate 18 (.act .fine)

theorem base_snapshot_current_again : ∃ x r, Reach noPool.cfg.baseSnapshotDir careful (bare installed) x ∧
    x.run = some r ∧ x.disk.valid = true ∧ x.disk.Current r := by
  have hexec : ((exec noPool.cfg.baseSnapshotDir careful (bare installed)
      (firstRun ++ [.crash, .start noPool "/opt/vmlinux"])).any atCheck) = true := by decide +kernel
  obtain ⟨x, hx, hcheck⟩ := (Option.any_eq_true ..).mp hexec
  obtain ⟨hv, r, a, k, hr, hk, ha⟩ := atCheck_cases hcheck
  have hreach := reach_of_exec .init hx
  exact ⟨x, r, hreach, hr, hv, (base_snapshot_current _ _ x hreach r hr a k hk).1 ha hv⟩

/-- The kernel was replaced since the snapshot. -/
def outdated (x : Sys) : Bool :=
  (x.disk.base .config).any fun c => x.disk.mtimes c.origin.kernel.path ≠ some c.origin.kernel.mtime

/-- The memory of the snapshot is cut short. -/
def cutShort (x : Sys) : Bool := (x.disk.base .memoryRanges).any fun c => !c.complete

theorem outdated_not_current {x : Sys} {r : Run} (h : outdated x = true) : ¬ x.disk.Current r := by
  rintro ⟨o, n, hall, -, -, hhas⟩
  rw [outdated, hall, Option.any_some, decide_eq_true_eq] at h
  exact h hhas.1

theorem cutShort_not_current {x : Sys} {r : Run} (h : cutShort x = true) : ¬ x.disk.Current r := by
  rintro ⟨o, n, hall, -⟩
  rw [cutShort, hall] at h
  cases h

/-- The snapshot fails when it has written a part of the memory. -/
def Fate.full : Fate :=
  ⟨{ Choice.fine 100 with api := some (.status "No space left on device") },
    fun f => some (decide (f ≠ .memoryRanges))⟩

/-- A second run finds the three files and would use them: once the kernel was upgraded since, once the first run
had failed in the middle of the snapshot. -/
theorem stale_base_reused :
    (∃ x r a k, Reach noPool.cfg.baseSnapshotDir (fun _ _ => true) (bare installed) x ∧ x.run = some r ∧
      r.prog = .act a k ∧ isCheck a = true ∧ x.disk.valid = true ∧ ¬ x.disk.Current r ∧ outdated x = true) ∧
    ∃ x r a k, Reach noPool.cfg.baseSnapshotDir (fun _ _ => true) (bare installed) x ∧ x.run = some r ∧
      r.prog = .act a k ∧ isCheck a = true ∧ x.disk.valid = true ∧ ¬ x.disk.Current r ∧ cutShort x = true := by
  constructor
  · have hexec : ((exec noPool.cfg.baseSnapshotDir (fun _ _ => true) (bare installed)
        (firstRun ++ [.crash, .upgrade "/opt/vmlinux" 2, .start noPool "/opt/vmlinux"])).any
          fun x => atCheck x && outdated x) = true := by decide +kernel
    obtain ⟨x, hx, hcheck⟩ := (Option.any_eq_true ..).mp hexec
    obtain ⟨hat, hold⟩ := Bool.and_eq_true_iff.mp hcheck
    obtain ⟨hv, r, a, k, hr, hk, ha⟩ := atCheck_cases hat
    exact ⟨x, r, a, k, reach_of_exec .init hx, hr, hk, ha, hv, outdated_not_current hold, hold⟩
  · have hexec : ((exec noPool.cfg.baseSnapshotDir (fun _ _ => true) (bare installed)
        (firstRun.take 14 ++ [.act .full, .crash, .start noPool "/opt/vmlinux"])).any
          fun x => atCheck x && cutShort x) = true := by decide +kernel
    obtain ⟨x, hx, hcheck⟩ := (Option.any_eq_true ..).mp hexec
    obtain ⟨hat, hcut⟩ := Bool.and_eq_true_iff.mp hcheck
    obtain ⟨hv, r, a, k, hr, hk, ha⟩ := atCheck_cases hat
    exact ⟨x, r, a, k, reach_of_exec .init hx, hr, hk, ha, hv, cutShort_not_current hcut, hcut⟩

end CloudHv.Daemon.Restart
