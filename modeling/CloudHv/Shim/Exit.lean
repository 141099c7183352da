import CloudHv.Shim.Race

/-!
# Exit — the exit cell of an instance

Every instance has a `WaitableCell` for its exit status.  The cell is containerd-shimkit's, so it is a parameter here,
with the laws of a cell that is set once.  The calls of containerd, the watchers that started containers leave behind
and any number of waits run at the same time.  An instance is known by a number, because ids are used again.
-/

namespace CloudHv.Shim

open Conc

/-! ### Watchers -/

/-- What a watcher's `select!` comes to: the daemon's answer to WaitContainer, or the end of Cloud Hypervisor. -/
inductive Watched where
  | answered (r : Except String (ℕ × String))
  | vmGone
  deriving DecidableEq

/-- The exit code; a wait that fails counts as a killed container. -/
def Watched.code : Watched → ℕ
  | .answered (.ok (code, _)) => code
  | .answered (.error _) => 137
  | .vmGone => 137

/-! ### The system -/

inductive ExitAct where
  /-- An action of a call on instance `o`. -/
  | of (o : ℕ) (a : Action)
  | watch (socket vmId containerId : String) (chPid : ℕ)
  /-- A watcher sets the cell. -/
  | report (o : ℕ) (w : Watched)
  | wait (o : ℕ)

/-- With the answers of the calls' actions comes the time, which a value that is set in the cell takes. -/
abbrev ExitAnswer : ExitAct → Type
  | .of _ a => Answer a × String
  | .watch _ _ _ _ => Watched
  | .report _ _ => String
  | .wait _ => ℕ × String

/-- The operations of containerd-shimkit's `WaitableCell` on what a cell holds; `wait` has a value where a wait
returns it, and none where it goes on. -/
structure WaitableCell where
  Cell : Type
  new : Cell
  set : Cell → ℕ × String → Cell
  wait : Cell → Option (ℕ × String)

/-- A new cell is empty, an empty cell takes what is set, and a full one refuses it. -/
structure WaitableCell.Laws (C : WaitableCell) : Prop where
  wait_new : C.wait C.new = none
  set_empty : ∀ {c}, C.wait c = none → ∀ v, C.wait (C.set c v) = some v
  set_full : ∀ {c u}, C.wait c = some u → ∀ v, C.wait (C.set c v) = some u

variable (C : WaitableCell)

/-- `started` are the VMs that the instances' containers were started in, by socket and id. -/
structure ExitWorld where
  shim : World
  cells : ℕ → C.Cell
  started : List (ℕ × String × String)

def ExitWorld.new (w : World) : ExitWorld C := ⟨w, fun _ => C.new, []⟩

structure ExitChoice where
  shim : Choice
  watched : Watched
  now : String

/-- The VM in which an action has started a container. -/
def startedIn : (a : Action) → Answer a → Option (String × String)
  | .acquireSandbox socket _, .ok vm => some (socket, vm.vmId)
  | .addContainer socket vmId _ _ _, .ok _ => some (socket, vmId)
  | _, _ => none

variable {C}

/-- The cells after a value was set for instance `o`. -/
def ExitWorld.setCell (w : ExitWorld C) (o : ℕ) (v : ℕ × String) : ℕ → C.Cell :=
  Function.update w.cells o (C.set (w.cells o) v)

def ExitWorld.setBy (w : ExitWorld C) (o : ℕ) (now : String) : Action → ℕ → C.Cell
  | .exitSet _ code => w.setCell o (code, now)
  | _ => w.cells

def performExit (w : ExitWorld C) : (a : ExitAct) → ExitChoice → Option (ExitAnswer a × ExitWorld C)
  | .of o a, c => (perform w.shim a c.shim).map fun (r, s) =>
    ((r, c.now), ⟨s, w.setBy o c.now a, w.started ++ ((startedIn a r).map fun vm => (o, vm)).toList⟩)
  | .watch _ _ _ _, c => some (c.watched, w)
  | .report o r, c => some (c.now, { w with cells := w.setCell o (r.code, c.now) })
  | .wait o, _ => (C.wait (w.cells o)).map fun v => (v, w)

/-- What runs for an instance. -/
inductive Job where
  | start (o : ℕ)
  | kill (o : ℕ) (signal : ℕ)
  | delete (o : ℕ)
  | watcher (o : ℕ) (socket vmId containerId : String) (chPid : ℕ)
  | wait (o : ℕ)
  deriving DecidableEq

/-- The instance of a job. -/
def Job.of : Job → ℕ
  | .start o | .kill o _ | .delete o | .watcher o _ _ _ _ | .wait o => o

/-- A call on instance `o`. -/
def Call.job (c : Call) (o : ℕ) : Prog ExitAct ExitAnswer Unit := c.body.lift (.of o) fun _ r => r.1

section System

variable (C) (inst : ℕ → CloudHvInstance)

def Job.body : Job → Prog ExitAct ExitAnswer Unit
  | .start o => (Call.start (inst o)).job o
  | .kill o signal => (Call.kill (inst o) signal).job o
  | .delete o => (Call.delete (inst o)).job o
  | .watcher o socket vmId containerId chPid => do
    let w ← Prog.call (R := ExitAnswer) (.watch socket vmId containerId chPid)
    let _ ← Prog.call (R := ExitAnswer) (.report o w)
    pure ()
  | .wait o => do
    let _ ← Prog.call (R := ExitAnswer) (.wait o)
    pure ()

def watchers : (a : ExitAct) → ExitAnswer a → List Job
  | .of o (.spawnWatcher socket vmId containerId chPid), _ => [.watcher o socket vmId containerId chPid]
  | _, _ => []

/-- containerd calls and waits when it likes to. -/
def Job.fromOutside : Job → Bool
  | .watcher _ _ _ _ _ => false
  | _ => true

/-- The shim with the instances' exit cells. -/
def exits : System (ExitWorld C) ExitChoice ExitAct ExitAnswer Job where
  body := Job.body inst
  perform := performExit
  spawned := watchers
  external := fun _ j => j.fromOutside

end System

variable (C) in
abbrev ExitConf := Conf (ExitWorld C) ExitAct ExitAnswer Job

/-- A value that was set in a cell, or was too late for it. -/
inductive Reported where
  /-- The instance was killed or deleted. -/
  | ended (code : ℕ) (now : String)
  | watched (w : Watched) (now : String)
  deriving DecidableEq

def Reported.value : Reported → ℕ × String
  | .ended code now => (code, now)
  | .watched w now => (w.code, now)

def reported : Event ExitAct ExitAnswer Job → Option (ℕ × Reported)
  | .act _ (.of o (.exitSet _ code)) r => some (o, .ended code r.2)
  | .act _ (.report o w) now => some (o, .watched w now)
  | _ => none

/-- All that was set so far, the first first. -/
def noteReport (H : List (ℕ × Reported)) (_ : ExitConf C) (e : Event ExitAct ExitAnswer Job) (_ : ExitWorld C) :
    List (ℕ × Reported) := H ++ (reported e).toList

/-! ### What a job does -/

structure Exiting where
  job : Job
  /-- The VM that the container of a start runs in. -/
  placed : Option (String × String)
  /-- A watcher was left behind. -/
  left : Bool
  counted : Bool
  seen : List (String × String × String × ℕ × Watched)
  got : List (ℕ × ℕ × String)
  wrote : Bool

namespace Exiting

def init (j : Job) : Exiting := ⟨j, none, false, false, [], [], false⟩

/-- The effect of an action of a call. -/
def upd₀ (g : Exiting) (a : Action) (r : Answer a) : Exiting :=
  match a with
  | .exitSet _ _ => { g with wrote := true }
  | .spawnWatcher _ _ _ _ => { g with left := true }
  | .countAdd _ => { g with counted := true }
  | a => { g with placed := (startedIn a r).or g.placed }

def upd (g : Exiting) : (a : ExitAct) → ExitAnswer a → Exiting
  | .of _ a, r => g.upd₀ a r.1
  | .watch socket vmId containerId chPid, w => { g with seen := g.seen ++ [(socket, vmId, containerId, chPid, w)] }
  | .report _ _, _ => { g with wrote := true }
  | .wait o, v => { g with got := g.got ++ [(o, v)] }

variable (inst : ℕ → CloudHvInstance)

def req₀ (o : ℕ) (g : Exiting) : Action → Prop
  | .exitSet id code => id = (inst o).id ∧ code = 0 ∧ ((∃ signal, g.job = .kill o signal) ∨ g.job = .delete o)
  | .spawnWatcher socket vmId containerId _ =>
    g.job = .start o ∧ g.placed = some (socket, vmId) ∧ containerId = (inst o).id
  | .countAdd _ => g.job.of = o ∧ g.left = true
  | _ => g.job.of = o

def req (g : Exiting) : ExitAct → Prop
  | .of o a => g.req₀ inst o a
  | .watch socket vmId containerId chPid => ∃ o, g.job = .watcher o socket vmId containerId chPid
  | .report o w => ∃ socket vmId containerId chPid, g.job = .watcher o socket vmId containerId chPid ∧
    (socket, vmId, containerId, chPid, w) ∈ g.seen
  | .wait o => g.job = .wait o

theorem upd_job (g : Exiting) (a : ExitAct) (r : ExitAnswer a) : (g.upd a r).job = g.job := by
  cases a with
  | of o a => cases a <;> rfl
  | _ => rfl

end Exiting

section Jobs

variable (inst : ℕ → CloudHvInstance)

def exiting : Discipline ExitAct ExitAnswer Exiting := ⟨Exiting.upd, Exiting.req inst, fun _ _ _ => True⟩

/-- The discipline of a call on instance `o`. -/
def calling (o : ℕ) : Discipline Action Answer Exiting := ⟨Exiting.upd₀, Exiting.req₀ inst o, fun _ _ _ => True⟩

variable {inst} {o : ℕ} {g : Exiting}

theorem wp_job {c : Call} {Q : Unit → Exiting → Prop} (h : wp (calling inst o) c.body Q g) :
    wp (exiting inst) (c.job o) Q g := by
  refine wp_lift (fun g a hreq => ?_) h
  exact ⟨hreq, fun _ _ => ⟨trivial, rfl⟩⟩

/-- The actions that neither set a cell nor have to do with where a container is. -/
def Action.aside : Action → Bool
  | .exitSet _ _ | .spawnWatcher _ _ _ _ | .countAdd _ | .acquireSandbox _ _ | .addContainer _ _ _ _ _ => false
  | _ => true

theorem aside_step {a : Action} (ha : a.aside = true) (hg : g.job.of = o) :
    (calling inst o).req g a ∧ ∀ r, (calling inst o).upd g a r = g := by
  cases a with
  | exitSet id code => cases ha
  | spawnWatcher s v c p => cases ha
  | countAdd r => cases ha
  | acquireSandbox s r => cases ha
  | addContainer s v e i c => cases ha
  | _ => exact ⟨hg, fun _ => rfl⟩

theorem tell_aside {a : Action} {Q : Answer a → Exiting → Prop} {F : String → Exiting → Prop} (ha : a.aside = true)
    (hg : g.job.of = o) (hQ : ∀ r, Q r g) : wpx (calling inst o) (tell a) Q F g := by
  obtain ⟨hreq, hupd⟩ : (calling inst o).req g a ∧ ∀ r, (calling inst o).upd g a r = g := aside_step ha hg
  refine wpx_lift.mpr (wp_call.mpr ⟨hreq, fun r _ => ?_⟩)
  rw [hupd]
  exact hQ r

/-! ### The calls -/

variable {F : String → Exiting → Prop}

theorem cleanupTap_exit {st : SharedVmState} {Q : Unit → Exiting → Prop} (hg : g.job.of = o) (hQ : Q () g) :
    wpx (calling inst o) (cleanupTap st) Q F g := by
  unfold cleanupTap
  split
  · exact tell_aside rfl hg fun _ => hQ
  · exact hQ

theorem placeVm_exit {st : SharedVmState} {Q : Unit → Exiting → Prop} (hg : g.job.of = o) (hQ : Q () g) :
    wpx (calling inst o) (placeVm st) Q F g := by
  unfold placeVm
  split
  · exact wpx_bind.mpr (tell_aside rfl hg fun _ => hQ)
  · exact hQ

theorem erofsImage_exit {key : String} {Q : String → Exiting → Prop} (hg : g.job.of = o) (hQ : ∀ p, Q p g)
    (hF : ∀ e, F e g) : ∀ (left attempt : ℕ) (last : String),
      wpx (calling inst o) (CloudHvInstance.erofsImage key attempt left last) Q F g
  | 0, _, _ => hF _
  | left + 1, attempt, _ => by
    unfold CloudHvInstance.erofsImage
    refine wpx_bind.mpr (tell_aside rfl hg fun r => ?_)
    cases r with
    | ok path => exact hQ path
    | error e => exact wpx_bind.mpr (tell_aside rfl hg fun _ => erofsImage_exit hg hQ hF left (attempt + 1) e)

/-- A start leaves a watcher for the VM that its container runs in. -/
theorem startContainer_exit (hg : g.job = .start o) :
    wpx (calling inst o) (inst o).startContainer (fun _ g' => g'.job = .start o) (fun _ g' => g'.job = .start o) g := by
  have ho : g.job.of = o := by rw [hg]; rfl
  unfold CloudHvInstance.startContainer
  refine wpx_bind.mpr (tell_aside rfl ho fun r => ?_)
  cases r with
  | none => exact hg
  | some x =>
    obtain ⟨rec, st⟩ := x
    refine wpx_bind.mpr (tell_aside rfl ho fun key => ?_)
    refine wpx_bind.mpr (erofsImage_exit ho (fun path => ?_) (fun _ => hg) 3 0 "")
    refine wpx_bind.mpr (tell_aside rfl ho fun config => ?_)
    have hrest : ∀ (x : ℕ × SharedVmState × ℕ) (g : Exiting), g.job = .start o →
        g.placed = some (x.2.1.daemonSocket, x.2.1.daemonVmId) → wpx (calling inst o) (do
          tell (.spawnWatcher x.2.1.daemonSocket x.2.1.daemonVmId (inst o).id x.2.1.chPid)
          let _ ← tell (.countAdd x.1)
          pure x.2.2) (fun _ g' => g'.job = .start o) (fun _ g' => g'.job = .start o) g := by
      intro x g hg hplaced
      refine wpx_bind.mpr (wpx_lift.mpr (wp_call.mpr ⟨⟨hg, hplaced, rfl⟩, fun _ _ => ?_⟩))
      have ho : g.job.of = o := by rw [hg]; rfl
      exact wpx_bind.mpr (wpx_lift.mpr (wp_call.mpr ⟨⟨ho, rfl⟩, fun _ _ => hg⟩))
    refine wpx_bind.mpr ?_
    unfold CloudHvInstance.vmFor
    split
    · unfold CloudHvInstance.joinVm
      refine wpx_bind.mpr (wpx_lift.mpr (wp_call.mpr ⟨ho, fun r _ => ?_⟩))
      cases r with
      | error e => exact hg
      | ok pid =>
        refine hrest (rec, st, pid) _ ?_ ?_
        · exact hg
        · rfl
    · unfold CloudHvInstance.acquireVm
      refine wpx_bind.mpr (wpx_lift.mpr (wp_call.mpr ⟨ho, fun r _ => ?_⟩))
      cases r with
      | error e => exact hg
      | ok vm =>
        refine wpx_bind.mpr ?_
        refine wpx_bind.mpr (tell_aside rfl ho fun n => ?_)
        refine wpx_bind.mpr (tell_aside rfl ho fun rec' => ?_)
        refine wpx_bind.mpr (placeVm_exit ho ?_)
        refine hrest (rec', _, vm.containerPid) _ ?_ ?_
        · exact hg
        · rfl

theorem start_exit (hg : g.job = .start o) :
    wpx (calling inst o) (inst o).start (fun _ g' => g'.job = .start o) (fun _ g' => g'.job = .start o) g := by
  have ho : g.job.of = o := by rw [hg]; rfl
  unfold CloudHvInstance.start
  refine wpx_bind.mpr (tell_aside rfl ho fun r => ?_)
  refine wpx_bind.mpr ?_
  cases r with
  | error e => exact hg
  | ok u =>
    show wpx (calling inst o) (if (inst o).isSandbox then _ else _) _ _ g
    split
    · unfold CloudHvInstance.startSandbox
      refine wpx_bind.mpr (tell_aside rfl ho fun r => ?_)
      obtain ⟨netns, cgroups⟩ := r
      refine wpx_bind.mpr (tell_aside rfl ho fun r => ?_)
      refine wpx_bind.mpr ?_
      cases r with
      | error e => exact hg
      | ok socket => exact wpx_bind.mpr (tell_aside rfl ho fun _ => hg)
    · exact startContainer_exit hg

/-- What a kill or a delete sets. -/
theorem exitSet_exit {Q : Unit → Exiting → Prop} (hg : (∃ signal, g.job = .kill o signal) ∨ g.job = .delete o)
    (hQ : Q () { g with wrote := true }) : wpx (calling inst o) (tell (.exitSet (inst o).id 0)) Q F g :=
  wpx_lift.mpr (wp_call.mpr ⟨⟨rfl, rfl, hg⟩, fun _ _ => hQ⟩)

theorem releaseVm_exit {st : SharedVmState} {Q : Unit → Exiting → Prop} (hg : g.job.of = o) (hQ : Q () g) :
    wpx (calling inst o) ((inst o).releaseVm st) Q F g := by
  unfold CloudHvInstance.releaseVm
  refine wpx_bind.mpr (tell_aside rfl hg fun _ => ?_)
  refine wpx_bind.mpr (cleanupTap_exit hg ?_)
  exact tell_aside rfl hg fun _ => hQ

/-- A signal ends the sandbox. -/
def CloudHvInstance.endedBy (i : CloudHvInstance) (signal : ℕ) : Bool :=
  decide (i.id = i.sandboxId ∧ (signal = 9 ∨ signal = 15))

theorem kill_exit {signal : ℕ} (hg : g.job = .kill o signal) :
    wpx (calling inst o) ((inst o).kill signal)
      (fun _ g' => g'.job = g.job ∧ ((inst o).endedBy signal = true → g'.wrote = true)) (fun _ _ => False) g := by
  have ho : g.job.of = o := by rw [hg]; rfl
  have hsets : ∀ g' : Exiting, g' = g → wpx (calling inst o) (tell (.exitSet (inst o).id 0))
      (fun _ g' => g'.job = g.job ∧ ((inst o).endedBy signal = true → g'.wrote = true)) (fun _ _ => False) g' := by
    rintro _ rfl
    exact exitSet_exit (.inl ⟨signal, hg⟩) ⟨rfl, fun _ => rfl⟩
  unfold CloudHvInstance.kill
  refine wpx_bind.mpr (tell_aside rfl ho fun r => ?_)
  cases r with
  | none => exact hsets g rfl
  | some x =>
    obtain ⟨rec, st⟩ := x
    show wpx (calling inst o) (if _ then _ else _) _ _ g
    split
    · refine wpx_bind.mpr ?_
      unfold CloudHvInstance.killSandbox
      split
      · exact releaseVm_exit ho (hsets g rfl)
      · exact wpx_bind.mpr (cleanupTap_exit ho (tell_aside rfl ho fun _ => hsets g rfl))
    · next hk => exact wpx_bind.mpr (tell_aside rfl ho fun _ => ⟨rfl, fun he => absurd (of_decide_eq_true he) hk⟩)

theorem delete_exit (hg : g.job = .delete o) :
    wpx (calling inst o) (inst o).delete (fun _ g' => g'.job = g.job ∧ g'.wrote = true) (fun _ _ => False) g := by
  have ho : g.job.of = o := by rw [hg]; rfl
  have hsets : wpx (calling inst o) (tell (.exitSet (inst o).id 0))
      (fun _ g' => g'.job = g.job ∧ g'.wrote = true) (fun _ _ => False) g :=
    exitSet_exit (.inr hg) ⟨rfl, rfl⟩
  unfold CloudHvInstance.delete
  refine wpx_bind.mpr (tell_aside rfl ho fun r => ?_)
  cases r with
  | none => exact hsets
  | some x =>
    obtain ⟨rec, st⟩ := x
    refine wpx_bind.mpr (tell_aside rfl ho fun prev => ?_)
    split
    · exact wpx_bind.mpr (releaseVm_exit ho hsets)
    · exact wpx_bind.mpr (tell_aside rfl ho fun _ => hsets)

/-- The jobs that leave the cell of their instance set. -/
def Job.sets (inst : ℕ → CloudHvInstance) : Job → Bool
  | .kill o signal => (inst o).endedBy signal
  | .delete _ | .watcher _ _ _ _ _ => true
  | _ => false

/-- How a job ends. -/
def Exiting.Ended (inst : ℕ → CloudHvInstance) (g : Exiting) : Prop := g.job.sets inst = true → g.wrote = true

theorem job_exit (j : Job) : wp (exiting inst) (j.body inst) (fun _ g => g.Ended inst) (Exiting.init j) := by
  have hend : ∀ {c : Call} {Q : Unit → Exiting → Prop} {F : String → Exiting → Prop} {o : ℕ},
      wpx (calling inst o) c.run Q F (Exiting.init j) →
      (∀ g, Q () g → g.Ended inst) → (∀ e g, F e g → g.Ended inst) →
      wp (exiting inst) (c.job o) (fun _ g => g.Ended inst) (Exiting.init j) := by
    intro c Q F o h hQ hF
    refine wp_job (wp_bind.mpr (wp_mono h fun r g hr => ?_))
    cases r with
    | ok u => exact hQ g hr
    | error e => exact hF e g hr
  cases j with
  | start o =>
    have hrun : wpx (calling inst o) (Call.start (inst o)).run (fun _ g => g.job = .start o) (fun _ g => g.job = .start o)
        (Exiting.init (.start o)) := wpx_bind.mpr (start_exit rfl)
    have hnone : ∀ g : Exiting, g.job = .start o → g.Ended inst := fun g hg hs => by rw [hg] at hs; cases hs
    exact hend hrun hnone fun _ => hnone
  | kill o signal =>
    refine hend (kill_exit rfl) (fun g hg hs => ?_) fun _ _ h => h.elim
    rw [Job.sets.eq_def, hg.1] at hs
    exact hg.2 hs
  | delete o => exact hend (delete_exit rfl) (fun g hg _ => hg.2) fun _ _ h => h.elim
  | watcher o socket vmId containerId chPid =>
    exact ⟨⟨o, rfl⟩, fun w _ => ⟨⟨_, _, _, _, rfl, List.mem_singleton.mpr rfl⟩, fun _ _ _ => rfl⟩⟩
  | wait o => exact ⟨rfl, fun _ _ h => (by cases h)⟩

end Jobs

/-! ### The invariant -/

section Invariant

variable (inst : ℕ → CloudHvInstance)

/-- A thread, besides what was set, the VMs that containers were started in and the jobs that there are. -/
structure Exiting.Fits (H : List (ℕ × Reported)) (started : List (ℕ × String × String)) (jobs : List Job)
    (g : Exiting) : Prop where
  placed : ∀ o vm, g.job = .start o → g.placed = some vm → (o, vm) ∈ started
  watches : ∀ o s v c p, g.job = .watcher o s v c p → (o, s, v) ∈ started ∧ c = (inst o).id
  left : g.left = true → ∃ s v p, .watcher g.job.of s v (inst g.job.of).id p ∈ jobs
  counted : g.counted = true → g.left = true
  got : ∀ e ∈ g.got, (H.lookup e.1).map Reported.value = some e.2
  wrote : g.wrote = true → H.lookup g.job.of ≠ none

/-- Where a value comes from. -/
def Reported.From (gs : List Exiting) (o : ℕ) : Reported → Prop
  | .ended code _ => code = 0 ∧ ∃ g ∈ gs, (∃ signal, g.job = .kill o signal) ∨ g.job = .delete o
  | .watched w _ => ∃ g ∈ gs, ∃ s v c p, g.job = .watcher o s v c p ∧ (s, v, c, p, w) ∈ g.seen

structure ExitInv (H : List (ℕ × Reported)) (w : ExitWorld C) (gs : List Exiting) : Prop where
  cells : ∀ o, C.wait (w.cells o) = (H.lookup o).map Reported.value
  fits : ∀ g ∈ gs, g.Fits inst H w.started (gs.map Exiting.job)
  origin : ∀ o r, (o, r) ∈ H → r.From gs o

variable {inst} {H N : List (ℕ × Reported)} {w w' : ExitWorld C} {gs : List Exiting} {g g' : Exiting} {i o : ℕ}

theorem lookup_concat_of_ne {α β : Type} [DecidableEq α] {l l' : List (α × β)} {a : α} (h : l.lookup a ≠ none) :
    (l ++ l').lookup a = l.lookup a := by
  obtain ⟨b, hb⟩ := Option.ne_none_iff_exists'.mp h
  rw [List.lookup_append, hb, Option.some_or]

theorem Exiting.Fits.mono {started started' : List (ℕ × String × String)} {jobs jobs' : List Job}
    (h : g.Fits inst H started jobs) (hs : started ⊆ started') (hj : jobs ⊆ jobs') :
    g.Fits inst (H ++ N) started' jobs' where
  placed := fun o vm hg hp => hs (h.placed o vm hg hp)
  watches := fun o s v c p hg => ⟨hs (h.watches o s v c p hg).1, (h.watches o s v c p hg).2⟩
  left := fun hl => by
    obtain ⟨s, v, p, hm⟩ := h.left hl
    exact ⟨s, v, p, hj hm⟩
  counted := h.counted
  got := fun e he => by
    have hgot := h.got e he
    have hne : H.lookup e.1 ≠ none := fun hn => by rw [hn] at hgot; cases hgot
    rw [lookup_concat_of_ne hne, hgot]
  wrote := fun hw => by rw [lookup_concat_of_ne (h.wrote hw)]; exact h.wrote hw

/-- A thread that has done nothing yet. -/
theorem fits_init {j : Job} {started : List (ℕ × String × String)} {jobs : List Job}
    (h : ∀ o s v c p, j = .watcher o s v c p → (o, s, v) ∈ started ∧ c = (inst o).id) :
    (Exiting.init j).Fits inst H started jobs := by
  refine ⟨?_, h, ?_, ?_, ?_, ?_⟩
  · intro o vm hj hp
    cases hp
  · intro hl
    cases hl
  · intro hl
    cases hl
  · intro e he
    cases he
  · intro hl
    cases hl

theorem Reported.From.mono {gs' : List Exiting} {r : Reported} (h : r.From gs o)
    (hgs : ∀ g ∈ gs, ∃ g' ∈ gs', g'.job = g.job ∧ g.seen ⊆ g'.seen) : r.From gs' o := by
  cases r with
  | ended code now =>
    obtain ⟨hc, g, hg, hj⟩ := h
    obtain ⟨g', hg', hj', -⟩ := hgs g hg
    exact ⟨hc, g', hg', by rwa [hj']⟩
  | watched w now =>
    obtain ⟨g, hg, s, v, c, p, hj, hs⟩ := h
    obtain ⟨g', hg', hj', hs'⟩ := hgs g hg
    exact ⟨g', hg', s, v, c, p, by rwa [hj'], hs' hs⟩

theorem upd_seen (g : Exiting) (a : ExitAct) (r : ExitAnswer a) : g.seen ⊆ (g.upd a r).seen := by
  cases a with
  | of o a => cases a <;> exact fun _ h => h
  | watch s v c p => exact List.subset_append_left _ _
  | _ => exact fun _ h => h

/-- The rest of the invariant follows from what the thread that acts comes to. -/
theorem ExitInv.act (hI : ExitInv inst H w gs) (hi : gs[i]? = some g) {a : ExitAct} {r : ExitAnswer a}
    (hcells : ∀ o, C.wait (w'.cells o) = ((H ++ N).lookup o).map Reported.value) (hs : w.started ⊆ w'.started)
    (hg : (g.upd a r).Fits inst (H ++ N) w'.started (gs.map Exiting.job ++ watchers a r))
    (hnew : ∀ j ∈ watchers a r, ∀ o s v c p, j = .watcher o s v c p → (o, s, v) ∈ w'.started ∧ c = (inst o).id)
    (hN : ∀ o r', (o, r') ∈ N → r'.From (gs.set i (g.upd a r)) o) :
    ExitInv inst (H ++ N) w' (gs.set i (g.upd a r) ++ (watchers a r).map Exiting.init) := by
  have hjobs : (gs.set i (g.upd a r) ++ (watchers a r).map Exiting.init).map Exiting.job =
      gs.map Exiting.job ++ watchers a r := by
    rw [List.map_append, List.map_set, Exiting.upd_job, List.map_map, set_self]
    · exact congrArg _ (List.map_id _)
    · rw [List.getElem?_map, hi]
      rfl
  have hkeep : ∀ u ∈ gs, ∃ u' ∈ gs.set i (g.upd a r), u'.job = u.job ∧ u.seen ⊆ u'.seen := by
    intro u hu
    obtain ⟨j, hj⟩ := List.mem_iff_getElem?.mp hu
    by_cases hij : j = i
    · subst hij
      obtain rfl := Option.some.inj (hi.symm.trans hj)
      exact ⟨_, mem_set_self hi, Exiting.upd_job g a r, upd_seen g a r⟩
    · exact ⟨u, mem_set_of_ne hij hj, rfl, List.Subset.refl _⟩
  have hall : ∀ u ∈ gs.set i (g.upd a r), ∃ u' ∈ gs.set i (g.upd a r) ++ (watchers a r).map Exiting.init,
      u'.job = u.job ∧ u.seen ⊆ u'.seen := fun u hu => ⟨u, List.mem_append_left _ hu, rfl, List.Subset.refl _⟩
  refine ⟨hcells, fun u hu => ?_, fun o r' hr => ?_⟩
  · rw [hjobs]
    rcases List.mem_append.mp hu with hu | hu
    · rcases mem_set_cases hu with rfl | ⟨j, -, hj⟩
      · exact hg
      · exact (hI.fits u (List.mem_of_getElem? hj)).mono hs (List.subset_append_left _ _)
    · obtain ⟨j, hj, rfl⟩ := List.mem_map.mp hu
      exact fits_init (hnew j hj)
  · rcases List.mem_append.mp hr with hr | hr
    · exact ((hI.origin o r' hr).mono hkeep).mono hall
    · exact (hN o r' hr).mono hall

/-- A value is set: the cell keeps what it had, and else has the value. -/
theorem wait_setCell (hC : C.Laws) (w : ExitWorld C) (o k : ℕ) (v : ℕ × String) :
    C.wait (w.setCell o v k) = (C.wait (w.cells k)).or (if k = o then some v else none) := by
  unfold ExitWorld.setCell
  by_cases hk : k = o
  · subst hk
    rw [Function.update_self, if_pos rfl]
    cases hc : C.wait (w.cells k) with
    | none => rw [hC.set_empty hc, Option.none_or]
    | some u => rw [hC.set_full hc, Option.some_or]
  · rw [Function.update_of_ne hk, if_neg hk, Option.or_none]

/-- A cell takes what is set only if nothing was set before. -/
theorem cells_report (hC : C.Laws) (hI : ExitInv inst H w gs) (r : Reported) (k : ℕ) :
    C.wait (w.setCell o r.value k) = ((H ++ [(o, r)]).lookup k).map Reported.value := by
  rw [wait_setCell hC, hI.cells, List.lookup_append, Option.map_or]
  congr 1
  by_cases hk : k = o
  · subst hk
    rw [if_pos rfl, List.lookup_cons_self]
    rfl
  · rw [if_neg hk, List.lookup_cons, beq_false_of_ne hk]
    rfl

theorem lookup_report (H : List (ℕ × Reported)) (o : ℕ) (r : Reported) : (H ++ [(o, r)]).lookup o ≠ none := by
  rw [List.lookup_append, List.lookup_cons_self]
  cases H.lookup o <;> exact Option.some_ne_none _

theorem Exiting.Fits.reports {started : List (ℕ × String × String)} {jobs jobs' : List Job} {r : Reported}
    (h : g.Fits inst H started jobs) (ho : g.job.of = o) (hj : jobs ⊆ jobs') :
    Exiting.Fits inst (H ++ [(o, r)]) started jobs' { g with wrote := true } := by
  have hm : g.Fits inst (H ++ [(o, r)]) started jobs' := h.mono (List.Subset.refl _) hj
  exact ⟨hm.placed, hm.watches, hm.left, hm.counted, hm.got, fun _ => by rw [ho]; exact lookup_report H o r⟩

theorem cells_keep (hI : ExitInv inst H w gs) (k : ℕ) :
    C.wait (w.cells k) = ((H ++ []).lookup k).map Reported.value := by
  rw [List.append_nil]
  exact hI.cells k

/-- A place of a container is one that it was started in. -/
theorem startedIn_mem {a : Action} {r : Answer a} {started : List (ℕ × String × String)} {vm : String × String}
    (hg : ∀ vm, g.placed = some vm → (o, vm) ∈ started) (hp : (startedIn a r).or g.placed = some vm) :
    (o, vm) ∈ started ++ ((startedIn a r).map fun vm => (o, vm)).toList := by
  cases hv : startedIn a r with
  | none =>
    rw [hv, Option.none_or] at hp
    exact List.mem_append_left _ (hg vm hp)
  | some u =>
    rw [hv, Option.some_or] at hp
    rw [Option.some.inj hp]
    exact List.mem_append_right _ (List.mem_singleton.mpr rfl)

theorem exitInv_of (hC : C.Laws) {a : Action} {r : Answer a × String} {c : ExitChoice} (hI : ExitInv inst H w gs)
    (hi : gs[i]? = some g) (hreq : g.req₀ inst o a) (hp : performExit w (.of o a) c = some (r, w')) :
    ExitInv inst (H ++ (reported (.act i (.of o a) r : Event ExitAct ExitAnswer Job)).toList) w'
      (gs.set i (g.upd (.of o a) r) ++ (watchers (.of o a) r).map Exiting.init) := by
  have hfits := hI.fits g (List.mem_of_getElem? hi)
  have hcells := cells_keep hI
  obtain ⟨⟨q, s'⟩, -, hq⟩ := Option.map_eq_some_iff.mp hp
  obtain ⟨rfl, rfl⟩ := Prod.mk.inj hq
  cases a with
  | exitSet id code =>
    obtain ⟨-, rfl, hj⟩ := hreq
    have ho : g.job.of = o := by
      rcases hj with ⟨signal, hj⟩ | hj <;> rw [hj] <;> rfl
    refine hI.act hi (cells_report hC hI (.ended 0 c.now)) (List.subset_append_left _ _) ?_ (fun j hj => by cases hj) ?_
    · show Exiting.Fits inst _ (w.started ++ []) (gs.map Exiting.job ++ []) { g with wrote := true }
      rw [List.append_nil w.started]
      exact hfits.reports ho (List.subset_append_left _ _)
    · intro o' r' hr
      obtain ⟨rfl, rfl⟩ := Prod.mk.inj (List.mem_singleton.mp hr)
      exact ⟨rfl, _, mem_set_self hi, hj⟩
  | spawnWatcher s v ctr p =>
    obtain ⟨hj, hplaced, rfl⟩ := hreq
    have hmem : (o, s, v) ∈ w.started ++ [] := List.mem_append_left _ (hfits.placed o (s, v) hj hplaced)
    have hm := hfits.mono (N := []) (List.subset_append_left w.started [])
      (List.subset_append_left (gs.map Exiting.job) [Job.watcher o s v (inst o).id p])
    refine hI.act hi hcells (List.subset_append_left _ _) ?_ ?_ fun o' r' hr => (by cases hr)
    · refine ⟨hm.placed, hm.watches, fun _ => ⟨s, v, p, ?_⟩, fun _ => rfl, hm.got, hm.wrote⟩
      show Job.watcher g.job.of s v (inst g.job.of).id p ∈ _
      rw [hj]
      exact List.mem_append_right _ (List.mem_singleton.mpr rfl)
    · intro j hjm o' s' v' c' p' he
      rw [List.mem_singleton.mp hjm] at he
      cases he
      exact ⟨hmem, rfl⟩
  | countAdd rec =>
    have hm := hfits.mono (N := []) (List.subset_append_left w.started [])
      (List.subset_append_left (gs.map Exiting.job) [])
    refine hI.act hi hcells (List.subset_append_left _ _) ?_ (fun j hj => by cases hj) fun o' r' hr => (by cases hr)
    · exact ⟨hm.placed, hm.watches, hm.left, fun _ => hreq.2, hm.got, hm.wrote⟩
  | _ =>
    have hm := hfits.mono (N := []) (List.subset_append_left w.started ((startedIn _ q).map fun vm => (o, vm)).toList)
      (List.subset_append_left (gs.map Exiting.job) [])
    refine hI.act hi hcells (List.subset_append_left _ _) ?_ (fun j hj => by cases hj) fun o' r' hr => (by cases hr)
    · refine ⟨fun o' vm hj hv => ?_, hm.watches, hm.left, hm.counted, hm.got, hm.wrote⟩
      obtain rfl : o' = o := by
        have ho : g.job.of = o := hreq
        rw [show g.job = .start o' from hj] at ho
        exact ho
      exact startedIn_mem (fun vm hp => hfits.placed o' vm hj hp) hv

theorem exitInv_act (hC : C.Laws) {a : ExitAct} {r : ExitAnswer a} {c : ExitChoice} (hI : ExitInv inst H w gs)
    (hi : gs[i]? = some g) (hreq : g.req inst a) (hp : performExit w a c = some (r, w')) :
    ExitInv inst (H ++ (reported (.act i a r : Event ExitAct ExitAnswer Job)).toList) w'
      (gs.set i (g.upd a r) ++ (watchers a r).map Exiting.init) := by
  have hfits := hI.fits g (List.mem_of_getElem? hi)
  have hcells := cells_keep hI
  have hm := hfits.mono (N := []) (List.Subset.refl w.started) (List.subset_append_left (gs.map Exiting.job) [])
  cases a with
  | of o a => exact exitInv_of hC hI hi hreq hp
  | watch s v ctr p =>
    obtain ⟨-, rfl⟩ := Prod.mk.inj (Option.some.inj hp)
    refine hI.act hi hcells (List.Subset.refl _) ?_ (fun j hj => by cases hj) fun o' r' hr => (by cases hr)
    exact ⟨hm.placed, hm.watches, hm.left, hm.counted, hm.got, hm.wrote⟩
  | report o ans =>
    obtain ⟨rfl, rfl⟩ := Prod.mk.inj (Option.some.inj hp)
    obtain ⟨s, v, ctr, p, hj, hseen⟩ := hreq
    have ho : g.job.of = o := by rw [hj]; rfl
    refine hI.act hi (cells_report hC hI (.watched ans c.now)) (List.Subset.refl _)
      (hfits.reports ho (List.subset_append_left _ _)) (fun j hj => by cases hj) fun o' r' hr => ?_
    obtain ⟨rfl, rfl⟩ := Prod.mk.inj (List.mem_singleton.mp hr)
    exact ⟨_, mem_set_self hi, s, v, ctr, p, hj, hseen⟩
  | wait o =>
    obtain ⟨v, hv, hq⟩ := Option.map_eq_some_iff.mp hp
    obtain ⟨rfl, rfl⟩ := Prod.mk.inj hq
    refine hI.act hi hcells (List.Subset.refl _) ?_ (fun j hj => by cases hj) fun o' r' hr => (by cases hr)
    refine ⟨hm.placed, hm.watches, hm.left, hm.counted, fun e he => ?_, hm.wrote⟩
    rcases List.mem_append.mp he with he | he
    · exact hm.got e he
    · rw [List.mem_singleton.mp he]
      exact (hcells o).symm.trans hv

end Invariant

/-! ### Runs -/

section Runs

variable {inst : ℕ → CloudHvInstance} {H : List (ℕ × Reported)} {w : World} {x : ExitConf C}
  {ok : List (ℕ × Reported) → ExitConf C → Event ExitAct ExitAnswer Job → Prop}

theorem exit_inv (hC : C.Laws) (hx : (exits C inst).Hist noteReport ok [] ⟨.new C w, []⟩ H x) :
    ExitInv inst H x.shared (x.threads.map (System.ghost (exiting inst) Exiting.init)) ∧
      ∀ t ∈ x.threads, wp (exiting inst) t.prog (fun _ g => g.Ended inst)
        (System.ghost (exiting inst) Exiting.init t) := by
  refine System.Hist.invOn (fun _ => True) (ExitInv inst) (Exiting.Ended inst) (fun j _ => job_exit j)
    (fun _ _ _ _ => trivial) ?_ (fun t ht => (by cases ht)) ?_ ?_ hx
  · exact ⟨fun o => hC.wait_new, fun g hg => (by cases hg), fun o r hr => (by cases hr)⟩
  · intro n y j hI hout _
    refine ⟨trivial, ?_⟩
    show ExitInv inst (n ++ []) _ _
    have hjobs : (y.threads.map (System.ghost (exiting inst) Exiting.init)).map Exiting.job ⊆
        (y.threads.map (System.ghost (exiting inst) Exiting.init) ++ [Exiting.init j]).map Exiting.job := by
      rw [List.map_append]
      exact List.subset_append_left _ _
    refine ⟨cells_keep hI, fun g hg => ?_, fun o r hr => ?_⟩
    · rcases List.mem_append.mp hg with hg | hg
      · exact (hI.fits g hg).mono (List.Subset.refl _) hjobs
      · rw [List.mem_singleton.mp hg]
        refine fits_init fun o s v c p hj => ?_
        rw [hj] at hout
        cases hout
    · rw [List.append_nil] at hr
      exact (hI.origin o r hr).mono fun g hg => ⟨g, List.mem_append_left _ hg, rfl, List.Subset.refl _⟩
  · intro n y i g a c r s' hI hi hreq hp _
    exact ⟨trivial, exitInv_act hC hI hi hreq hp⟩

variable (inst) in
theorem ghost_job (t : Thread ExitAct ExitAnswer Job) : (System.ghost (exiting inst) Exiting.init t).job = t.task :=
  System.ghost_reading (f := Exiting.job) (fun g a r => Exiting.upd_job g a r) t

variable (inst) in
/-- Where a value that was set for instance `o` comes from: a kill or a delete of it, or what one of its watchers
heard of the VM that its container was started in. -/
def Reported.Source (x : ExitConf C) (o : ℕ) : Reported → Prop
  | .ended code _ => code = 0 ∧ ∃ t ∈ x.threads, (∃ signal, t.task = .kill o signal) ∨ t.task = .delete o
  | .watched w _ => ∃ t ∈ x.threads, ∃ s v p, t.task = .watcher o s v (inst o).id p ∧ (o, s, v) ∈ x.shared.started ∧
    ⟨.watch s v (inst o).id p, w⟩ ∈ t.log

theorem source_of_from (hI : ExitInv inst H x.shared (x.threads.map (System.ghost (exiting inst) Exiting.init)))
    {o : ℕ} {r : Reported} (h : r.From (x.threads.map (System.ghost (exiting inst) Exiting.init)) o) :
    r.Source inst x o := by
  cases r with
  | ended code now =>
    obtain ⟨hc, g, hg, hj⟩ := h
    obtain ⟨t, ht, rfl⟩ := List.mem_map.mp hg
    rw [ghost_job] at hj
    exact ⟨hc, t, ht, hj⟩
  | watched w now =>
    obtain ⟨g, hg, s, v, c, p, hj, hseen⟩ := h
    obtain ⟨hstarted, rfl⟩ := (hI.fits g hg).watches o s v c p hj
    obtain ⟨t, ht, rfl⟩ := List.mem_map.mp hg
    rw [ghost_job] at hj
    refine ⟨t, ht, s, v, p, hj, hstarted, ?_⟩
    obtain ⟨⟨a, q⟩, he, g, hnot, hin⟩ := System.mem_of_ghost
      (P := fun g : Exiting => (s, v, (inst o).id, p, w) ∈ g.seen) List.not_mem_nil hseen
    cases a with
    | watch s' v' c' p' =>
      rcases List.mem_append.mp hin with hin | hin
      · exact absurd hin hnot
      · cases List.mem_singleton.mp hin
        exact he
    | of o' b => cases b <;> exact absurd hin hnot
    | _ => exact absurd hin hnot

/-- **The exit status of an instance is the first one that is set.**  Its cell has what the first of the watchers,
kills and deletes set, and every wait for the instance returns that; a value comes from a kill or a delete, which set
0, or from a watcher of the VM that the container was started in, which sets what it has heard.  A kill that ends a
sandbox, a delete and a watcher leave the cell set, and a start has left a watcher when it counts its container. -/
theorem exit_is_first_report (hC : C.Laws)
    (hx : (exits C inst).Hist noteReport (fun _ _ _ => True) [] ⟨.new C w, []⟩ H x) :
    (∀ o, C.wait (x.shared.cells o) = (H.lookup o).map Reported.value) ∧
      (∀ o r, (o, r) ∈ H → r.Source inst x o) ∧
      ∀ t ∈ x.threads, (∀ o v, ⟨.wait o, v⟩ ∈ t.log → (H.lookup o).map Reported.value = some v) ∧
        (t.prog.done = true → t.task.sets inst = true → H.lookup t.task.of ≠ none) ∧
        ∀ o n r, ⟨.of o (.countAdd n), r⟩ ∈ t.log →
          ∃ u ∈ x.threads, ∃ s v p, u.task = .watcher t.task.of s v (inst t.task.of).id p := by
  obtain ⟨hI, hW⟩ := exit_inv hC hx
  refine ⟨hI.cells, fun o r hr => source_of_from hI (hI.origin o r hr), fun t ht => ?_⟩
  have hfits := hI.fits _ (List.mem_map_of_mem ht)
  refine ⟨fun o v hv => ?_, fun hd hs => ?_, fun o n r hc => ?_⟩
  · refine hfits.got (o, v) (System.ghost_of_mem (P := fun g : Exiting => (o, v) ∈ g.got) hv (fun g => ?_) fun g a r hg => ?_)
    · exact List.mem_append_right _ (List.mem_singleton.mpr rfl)
    · cases a with
      | of o' b => cases b <;> exact hg
      | wait o' => exact List.mem_append_left _ hg
      | _ => exact hg
  · have hend : Exiting.Ended inst _ := System.fin_of_done hd (hW t ht)
    rw [← ghost_job inst t]
    exact hfits.wrote (hend (by rwa [ghost_job]))
  · have hcounted : (System.ghost (exiting inst) Exiting.init t).counted = true :=
      System.ghost_of_mem (P := fun g : Exiting => g.counted = true) hc (fun g => rfl) fun g a r hg => ?_
    · obtain ⟨s, v, p, hm⟩ := hfits.left (hfits.counted hcounted)
      rw [List.map_map, ghost_job] at hm
      obtain ⟨u, hu, hj⟩ := List.mem_map.mp hm
      exact ⟨u, hu, s, v, p, by rw [← ghost_job inst u]; exact hj⟩
    · cases a with
      | of o' b => cases b <;> first | exact hg | rfl
      | _ => exact hg

end Runs

/-- A cell as the library makes it: the first value, once there is one. -/
def onceCell : WaitableCell := ⟨Option (ℕ × String), none, fun c v => c.or (some v), id⟩

theorem onceCell_laws : onceCell.Laws where
  wait_new := rfl
  set_empty := fun h v => by
    cases h
    rfl
  set_full := fun h v => by
    cases h
    rfl

def schedAt (i n : ℕ) (w : Watched) (now : String) : List (Label ExitChoice Job) :=
  List.replicate n (.sched i ⟨.fine "vm", w, now⟩)

/-- A container ends with status 3; it is waited for and deleted afterwards. -/
def endsWithThree : List (Label ExitChoice Job) :=
  [.arrive (.start 0), .arrive (.wait 0)] ++ schedAt 0 10 .vmGone "" ++
    schedAt 2 2 (.answered (.ok (3, ""))) "12:00" ++ schedAt 1 1 .vmGone "" ++ [.arrive (.delete 0)] ++
    schedAt 3 4 .vmGone "12:01"

theorem exit_is_first_report_three : ∃ H x, (exits onceCell fun _ => ctr "web").Hist noteReport (fun _ _ _ => True) []
    ⟨.new onceCell (sandboxUp "pod" none none ""), []⟩ H x ∧ x.quiet = true ∧ H.length = 2 ∧
    onceCell.wait (x.shared.cells 0) = some (3, "12:00") := by
  have hrun : ((exits onceCell fun _ => ctr "web").execHist noteReport (fun _ _ _ => true) []
      ⟨.new onceCell (sandboxUp "pod" none none ""), []⟩ endsWithThree).any (fun q => decide (q.2.quiet = true ∧
        q.1 = [(0, .watched (.answered (.ok (3, ""))) "12:00"), (0, .ended 0 "12:01")])) = true := by
    decide +kernel
  obtain ⟨H, x, hx, hP⟩ := System.exists_hist hrun
  obtain ⟨hq, rfl⟩ : x.quiet = true ∧ H = _ := of_decide_eq_true hP
  have hx' : (exits onceCell fun _ => ctr "web").Hist noteReport (fun _ _ _ => True) [] _ _ x :=
    hx.mono fun _ _ _ _ => trivial
  obtain ⟨hcells, -, -⟩ := exit_is_first_report onceCell_laws hx'
  exact ⟨_, x, hx', hq, rfl, hcells 0⟩

end CloudHv.Shim
