import CloudHv.Daemon.CacheDirs

/-!
# Images — the image that a warm VM was made from

A shadow run hot-plugs an erofs image, lets the workload warm up, makes its snapshot, and reads the image's
modification time only then, for the entry in the table.  A request compares this time with the image's, looks the
entry up again, and restores what is in its directory.  An image that is replaced during the warmup is taken for the
one that was hot-plugged, and the entry or its directory can change between the comparison and the restore.

`Images` writes down along a run when the image of a run was hot-plugged, what a request compared, and whose snapshot
it restored.
-/

namespace CloudHv.Daemon

open Conc

/-! ### How far a task is -/

inductive Progress where
  | idle
  /-- A run has read the modification time of its image. -/
  | sampled (file : String) (mtime : Option ℕ)
  /-- `has_snapshot` found a snapshot for an image. -/
  | checked (file : String)
  | located (file : String) (dir : Path)
  /-- The snapshot that was located is restored. -/
  | prepared (file : String)
  deriving DecidableEq

structure Tracking where
  task : Task
  step : Progress
  deriving DecidableEq

/-- The image of an AcquireSandbox request. -/
def Task.image : Task → Option String
  | .request (.acquireSandbox req) => nonEmpty req.erofsPath
  | _ => none

/-- The image of a shadow run. -/
def Task.shadowImage : Task → Option String
  | .shadow _ erofs => some erofs
  | _ => none

namespace Tracking

def init (t : Task) : Tracking := ⟨t, .idle⟩

def next (s : Progress) : (a : Action) → Answer a → Progress
  | .host (.fileMtime f), r => .sampled f r
  | .snap (.hasSnapshot _ (some f)), r => if r.1 then .checked f else .idle
  | .snap (.hasSnapshot _ none), _ => .idle
  | .snap (.getSnapshotDir _), r =>
    match s, r with
    | .checked f, some d => .located f d
    | _, _ => .idle
  | .host (.prepareSnapshot base _ _ _), r =>
    match s with
    | .located f d => if d = base && !isError r then .prepared f else .idle
    | _ => .idle
  | _, _ => s

def upd (g : Tracking) (a : Action) (r : Answer a) : Tracking := ⟨g.task, next g.step a r⟩

/-- A shadow run enters the time it has read, and a request with an image answers from a snapshot only after it
has restored the one it has located. -/
def req (g : Tracking) : Action → Prop
  | .snap (.cacheSnapshot _ _ m) => ∃ f, g.task.shadowImage = some f ∧ g.step = .sampled f m
  | .reply (.acquired a) => a.fromSnapshot = true → ∀ f, g.task.image = some f → g.step = .prepared f
  | _ => True

end Tracking

def tracking : Discipline Action Answer Tracking := ⟨Tracking.upd, Tracking.req, fun _ _ _ => True⟩

section Tasks

variable {E : Env} {t : Task} {α : Type}

theorem tracking_other {a : Action} (hcache : ∀ key d m, a ≠ .snap (.cacheSnapshot key d m))
    (hreply : ∀ resp, a = .reply resp → t.image = none) : Keeps tracking (fun g => g.task = t) (tell a) := by
  refine .tell fun g hg => ⟨?_, fun _ _ => hg⟩
  show Tracking.req g a
  unfold Tracking.req
  split
  · next key d m => exact absurd rfl (hcache key d m)
  · next acq =>
    intro _ f hf
    rw [hg, hreply _ rfl] at hf
    cases hf
  · trivial

/-- Code that neither enters snapshots nor answers. -/
theorem tracking_uses {ks : List Kind} {m : M α} (h : Uses ks m)
    (hks : ks.all (fun k => !([Kind.cache, .reply].elem k)) = true) : Keeps tracking (fun g => g.task = t) m := by
  refine .kinds h hks fun a ha => tracking_other (fun key d m he => ?_) fun resp he => ?_
  · subst he
    exact absurd (List.elem_iff.mp rfl) ha
  · subst he
    exact absurd (List.elem_iff.mp rfl) ha

theorem trigger_tracking (key erofs : String) : Keeps tracking (fun g => g.task = t) (triggerShadow key erofs) :=
  .bind (tracking_other (by simp) (by simp)) fun _ => .ite (.pure _) (.bind (tracking_other (by simp) (by simp))
    fun _ => .ite (.pure _) (.bind (tracking_other (by simp) (by simp)) fun _ => tracking_other (by simp) (by simp)))

theorem tracking_parts (ht : t.image = none) : PlainParts tracking (fun g => g.task = t) E :=
  plainParts_of_actions
    (fun a ha => tracking_other (fun key d m he => by rw [he] at ha; cases ha) fun _ _ => ht)
    (tracking_uses (restoreOne_strict E).uses rfl) (fun vm => tracking_uses (registerActive_uses vm) rfl)
    (fun id => tracking_uses (release_uses E id) rfl) trigger_tracking

theorem runShadow_tracking (key erofs : String) :
    Keeps tracking (fun g => g.task = .shadow key erofs) (runShadow E key erofs) := by
  have hlater : ∀ e g, (fun g : Tracking => g.task = .shadow key erofs) g →
      (fun (_ : Fail) (g : Tracking) => g.task = .shadow key erofs) e g := fun _ _ h => h
  unfold runShadow
  refine Keeps.seq (tracking_uses (createDirAll_strict _).uses rfl) hlater fun _ => ?_
  refine Keeps.seq (tracking_uses (Uses.context (acquire_uses E)) rfl) hlater fun vm => ?_
  refine Keeps.seq (.context (.ask (tracking_other (by simp) (by simp)))) hlater fun _ => ?_
  refine Keeps.seq (tracking_uses (connectAgent_strict _).uses rfl) hlater fun _ => ?_
  refine Keeps.seq (tracking_uses (runContainerRpc_strict _ _ _).uses rfl) hlater fun _ => ?_
  refine Keeps.seq (tracking_other (by simp) (by simp)) hlater fun _ => ?_
  refine Keeps.seq (tracking_uses (createDirAll_strict _).uses rfl) hlater fun _ => ?_
  refine Keeps.seq (tracking_uses (apiRequest_strict _ _).uses rfl) hlater fun _ => ?_
  refine Keeps.seq (tracking_uses (apiRequest_strict _ _).uses rfl) hlater fun _ => ?_
  refine Keeps.seq (.ask (tracking_other (by simp) (by simp))) hlater fun _ g hg => ?_
  -- the time is read and entered
  rw [wpx_bind, wpx_host]
  refine ⟨trivial, fun mtime _ => ?_⟩
  rw [wpx_bind, wpx_snap]
  have hg' : (tracking.upd g (.host (.fileMtime erofs)) mtime).task = .shadow key erofs := hg
  refine ⟨⟨erofs, by rw [hg']; rfl, rfl⟩, fun _ _ => ?_⟩
  exact tracking_uses (release_uses E _) rfl _ hg

/-- An action that does not bring the task any further. -/
theorem still_tell {a : Action} {g₀ : Tracking} (hreq : Tracking.req g₀ a)
    (hnext : ∀ r, Tracking.next g₀.step a r = g₀.step) : Keeps tracking (fun g => g = g₀) (tell a) := by
  refine .tell fun g hg => ?_
  subst hg
  refine ⟨hreq, fun r _ => ?_⟩
  show (⟨g.task, Tracking.next g.step a r⟩ : Tracking) = g
  rw [hnext r]

theorem still_uses {ks : List Kind} {m : M α} {g₀ : Tracking} (h : Uses ks m)
    (hks : ks.all (fun k => !([Kind.cache, .file, .reply].elem k)) = true) : Keeps tracking (fun g => g = g₀) m := by
  refine .kinds h hks fun a ha => ?_
  cases a with
  | snap b => exact absurd (List.elem_iff.mp rfl) ha
  | reply resp => exact absurd (List.elem_iff.mp rfl) ha
  | host b => cases b <;> first | exact still_tell trivial fun _ => rfl | exact absurd (List.elem_iff.mp rfl) ha
  | _ => exact still_tell trivial fun _ => rfl

/-- The restore of a snapshot that `has_snapshot` has found. -/
theorem restoreFromSnapshot_tracking (key f : String) (cid : ℕ) (dir : Path) :
    wpx tracking (restoreFromSnapshot key cid dir) (fun _ g => g = ⟨t, .prepared f⟩) (fun _ g => g.task = t)
      ⟨t, .checked f⟩ := by
  unfold restoreFromSnapshot
  rw [wpx_bind, wpx_snap]
  refine ⟨trivial, fun r _ => ?_⟩
  cases r with
  | none => exact rfl
  | some snapDir =>
    show wpx tracking _ _ _ ⟨t, .located f snapDir⟩
    rw [wpx_bind, prepareSnapshot, wpx_ask, wp_onHost]
    refine ⟨trivial, fun r _ => ?_⟩
    cases r with
    | error e => exact rfl
    | ok prepared =>
      have hprep : tracking.upd ⟨t, .located f snapDir⟩
          (.host (.prepareSnapshot snapDir dir cid (dir ++ ["vsock.sock"]))) (.ok prepared) = ⟨t, .prepared f⟩ := by
        show (⟨t, if snapDir = snapDir && !isError (.ok prepared : Except Agent.Err Prepared) then .prepared f
          else .idle⟩ : Tracking) = _
        simp [isError]
      show wpx tracking _ _ _ (tracking.upd _ _ _)
      rw [hprep]
      have htask : ∀ (e : Fail) (g : Tracking), g = ⟨t, .prepared f⟩ → g.task = t := by
        rintro e g rfl
        rfl
      refine Keeps.seq (still_uses (spawnCh_strict _).uses rfl) htask (fun _ => ?_) _ rfl
      refine Keeps.seq (still_uses (waitChReady_strict _).uses rfl) htask fun _ => ?_
      refine Keeps.seq (still_uses (apiRequest_strict _ _).uses rfl) htask fun _ => ?_
      refine Keeps.seq (still_uses (apiRequest_strict _ _).uses rfl) htask fun _ g hg => ?_
      exact hg

/-- A warm answer comes after the restore. -/
theorem acquireWarm_tracking (req : AcquireRequest) (f : String) :
    wpx tracking (acquireWarm E req)
      (fun r g => g.task = t ∧ ∀ a, r = some (.acquired a) → g.step = .prepared f) (fun _ g => g.task = t)
      ⟨t, .checked f⟩ := by
  have htask : ∀ (s : Progress) (e : Fail) (g : Tracking), g = ⟨t, s⟩ → g.task = t := by
    rintro s e g rfl
    rfl
  have hdir : ∀ p, Keeps tracking (fun g => g = ⟨t, .checked f⟩) (createDirAll p) := fun p =>
    .ask (still_tell (a := .host (.createDirAll p)) trivial fun _ => rfl)
  unfold acquireWarm
  refine Keeps.seq (still_tell (a := .warmFetchAdd) trivial fun _ => rfl) (htask _) (fun seq => ?_) _ rfl
  refine Keeps.seq (.attempt (hdir _)) (htask _) fun r g hg => ?_
  cases r with
  | error e =>
    subst hg
    exact ⟨rfl, fun a ha => by cases ha⟩
  | ok u =>
    have hcid : Keeps tracking (fun g => g = ⟨t, .checked f⟩) (pool .cidFetchAdd) :=
      still_tell (a := .pool .cidFetchAdd) trivial fun _ => rfl
    refine hcid.seq (htask _) (fun cid g hg => ?_) g hg
    subst hg
    rw [wpx_bind, wpx_attempt]
    refine wpx_mono (restoreFromSnapshot_tracking req.imageKey f cid _) (fun r g hg => ?_) fun e g hg => ?_
    · subst hg
      obtain ⟨chPid, api, vsock⟩ := r
      refine Keeps.seq (K := fun g => g = ⟨t, .prepared f⟩) (still_uses (warmNetwork_uses req _ api vsock) rfl) (htask _)
        (fun r g hg => ?_) _ rfl
      cases r with
      | error msg =>
        subst hg
        exact ⟨rfl, fun a ha => by cases ha⟩
      | ok tap =>
        refine Keeps.seq (K := fun g => g = ⟨t, .prepared f⟩) (still_uses (registerActive_uses _) rfl) (htask _)
          (fun _ g hg => ?_) g hg
        subst hg
        exact ⟨rfl, fun a _ => rfl⟩
    · cases e with
      | err e => exact ⟨hg, fun a ha => by cases ha⟩
      | panic => exact hg

/-- The pool path never answers from a snapshot. -/
theorem acquirePool_tracking (req : AcquireRequest) (g : Tracking) (hg : g.task = t) :
    wpx tracking (acquirePool E req)
      (fun r g => g.task = t ∧ ∀ a, r = .acquired a → a.fromSnapshot = false) (fun _ g => g.task = t) g := by
  have hlater : ∀ (e : Fail) (g : Tracking), g.task = t → g.task = t := fun _ _ h => h
  unfold acquirePool
  refine Keeps.seq (.attempt (tracking_uses (acquire_uses E) rfl)) hlater (fun r g hg => ?_) g hg
  cases r with
  | error e => exact ⟨hg, fun a ha => by cases ha⟩
  | ok vm =>
    refine Keeps.seq (tracking_other (by simp) (by simp)) hlater (fun _ => ?_) g hg
    refine Keeps.seq (.ite (trigger_tracking _ _) (.pure _)) hlater fun _ => ?_
    refine Keeps.seq (.attempt (tracking_uses (acquireContainer_strict E req vm).uses rfl)) hlater fun r g hg => ?_
    rcases r with e | ⟨pid, tap⟩
    · exact ⟨hg, fun a ha => by cases ha⟩
    · refine ⟨hg, fun a ha => ?_⟩
      cases ha
      rfl

theorem handleAcquire_tracking {req : AcquireRequest} {f : String} (hf : nonEmpty req.erofsPath = some f) (s : Progress) :
    wpx tracking (handleAcquire E req)
      (fun r g => g.task = t ∧ ∀ a, r = .acquired a → a.fromSnapshot = true → g.step = .prepared f)
      (fun _ g => g.task = t) ⟨t, s⟩ := by
  have hpool : ∀ g : Tracking, g.task = t → wpx tracking (acquirePool E req)
      (fun r g => g.task = t ∧ ∀ a, r = .acquired a → a.fromSnapshot = true → g.step = .prepared f)
      (fun _ g => g.task = t) g := by
    intro g hg
    refine wpx_mono (acquirePool_tracking req g hg) (fun r g hr => ⟨hr.1, fun a ha hs => ?_⟩) fun _ _ h => h
    rw [hr.2 a ha] at hs
    cases hs
  unfold handleAcquire hasWarmSnapshot
  by_cases hkey : req.imageKey ≠ ""
  · rw [if_pos hkey, hf, wpx_bind, wpx_bind, wpx_snap]
    refine ⟨trivial, fun r _ => ?_⟩
    obtain ⟨found, read⟩ := r
    cases found with
    | false => exact hpool _ rfl
    | true =>
      show wpx tracking (acquireWarm E req >>= _) _ _ ⟨t, .checked f⟩
      rw [wpx_bind]
      refine wpx_mono (acquireWarm_tracking req f) (fun r g hr => ?_) fun _ _ h => h
      cases r with
      | none => exact hpool g hr.1
      | some resp =>
        refine ⟨hr.1, fun a ha _ => hr.2 a ?_⟩
        rw [ha]
  · rw [if_neg hkey]
    exact hpool _ rfl

theorem body_tracking (t : Task) : wp tracking (t.body E) (fun _ _ => True) (Tracking.init t) := by
  cases himg : t.image with
  | none =>
    by_cases ht : ∃ key erofs, t = .shadow key erofs
    · obtain ⟨key, erofs, rfl⟩ := ht
      exact wp_mono (Keeps.toTask (.bind (.attempt (runShadow_tracking key erofs)) fun _ =>
        tracking_other (by simp) (by simp)) rfl) fun _ _ _ => trivial
    · exact wp_mono ((tracking_parts himg).body_ne (fun key erofs he => ht ⟨key, erofs, he⟩) rfl) fun _ _ _ => trivial
  | some f =>
    have hreq : ∃ req, t = .request (.acquireSandbox req) ∧ nonEmpty req.erofsPath = some f := by
      unfold Task.image at himg
      split at himg
      · next req => exact ⟨req, rfl, himg⟩
      · cases himg
    obtain ⟨req, rfl, hf⟩ := hreq
    refine wp_toTask ?_
    show wpx tracking (handleAcquire E req >>= fun resp => tell (.reply resp)) _ _ _
    rw [wpx_bind]
    refine wpx_mono (handleAcquire_tracking hf .idle) (fun r g hr => ?_) fun _ _ _ => trivial
    rw [wpx_tell]
    refine ⟨?_, fun _ _ => trivial⟩
    cases r with
    | plain p => exact trivial
    | acquired a =>
      intro hs f' hf'
      rw [hr.1] at hf'
      obtain rfl : f = f' := Option.some.inj (himg.symm.trans hf')
      exact hr.2 a rfl hs

end Tasks

/-! ### What is written down -/

/-- A warm answer to a request with an image: the image, what `has_snapshot` read for the request, and the run whose
snapshot was restored. -/
structure WarmAnswer where
  image : String
  seen : Option (String × Option ℕ)
  source : Option ℕ

structure Images where
  /-- The images that a shadow run has hot-plugged, with the modification times they had then. -/
  plugged : ℕ → List (String × Option ℕ)
  /-- The run that wrote the snapshot in a directory. -/
  writer : Path → Option ℕ
  /-- The run that entered a key last, and its image. -/
  entered : String → Option (ℕ × String)
  /-- The image that `has_snapshot` was asked about for a request, with the modification time that it read. -/
  seen : ℕ → Option (String × Option ℕ)
  /-- The modification time of the entry that `has_snapshot` has looked at for a request. -/
  compared : ℕ → Option ℕ
  /-- The run that entered the snapshot which a request with an image is about to restore. -/
  located : ℕ → Option ℕ
  /-- The run that wrote the snapshot which a request has restored. -/
  source : ℕ → Option ℕ
  answers : List WarmAnswer

def Images.unknown : Images :=
  ⟨fun _ => [], fun _ => none, fun _ => none, fun _ => none, fun _ => none, fun _ => none, fun _ => none, []⟩

def taskOf (x : DaemonConf) (i : ℕ) : Option Task := (x.threads[i]?).map (·.task)

namespace Images

variable (p : Images) (x : DaemonConf)

def notePlugged : Event Action Answer Task → ℕ → List (String × Option ℕ)
  | .act i (.host (.addDisk _ disk)) r =>
    if !isError r && ((taskOf x i).bind Task.shadowImage).isSome then
      Function.update p.plugged i ((disk.path, x.shared.host.mtimes.lookup disk.path) :: p.plugged i)
    else p.plugged
  | _ => p.plugged

/-- A snapshot that is prepared for a restore is a copy. -/
def noteWriter : Event Action Answer Task → Path → Option ℕ
  | .act i (.host (.api _ (.snapshot d))) r => Function.update p.writer d (if isError r then none else some i)
  | .act _ (.host (.prepareSnapshot base dir _ _)) r =>
    if isError r then p.writer else Function.update p.writer (dir ++ ["snapshot"]) (p.writer base)
  | _ => p.writer

def noteEntered : Event Action Answer Task → String → Option (ℕ × String)
  | .act i (.snap (.cacheSnapshot key _ _)) _ =>
    Function.update p.entered key (((taskOf x i).bind Task.shadowImage).map (i, ·))
  | _ => p.entered

def noteSeen : Event Action Answer Task → ℕ → Option (String × Option ℕ)
  | .act i (.snap (.hasSnapshot _ (some f))) r => Function.update p.seen i (some (f, r.2))
  | _ => p.seen

def noteCompared : Event Action Answer Task → ℕ → Option ℕ
  | .act i (.snap (.hasSnapshot key (some _))) _ =>
    Function.update p.compared i ((x.shared.snapshots.entries.lookup key).bind (·.erofsMtime))
  | _ => p.compared

def noteLocated : Event Action Answer Task → ℕ → Option ℕ
  | .act i (.snap (.getSnapshotDir key)) r =>
    Function.update p.located i (if r.isSome && (p.seen i).isSome then (p.entered key).map Prod.fst else none)
  | .act i (.host (.prepareSnapshot _ _ _ _)) _ => Function.update p.located i none
  | _ => p.located

def noteSource : Event Action Answer Task → ℕ → Option ℕ
  | .act i (.host (.prepareSnapshot base _ _ _)) r => Function.update p.source i (if isError r then none else p.writer base)
  | _ => p.source

def noteAnswers : Event Action Answer Task → List WarmAnswer
  | .act i (.reply (.acquired a)) _ =>
    match a.fromSnapshot, (taskOf x i).bind Task.image with
    | true, some f => ⟨f, p.seen i, p.source i⟩ :: p.answers
    | _, _ => p.answers
  | _ => p.answers

end Images

def noteImages (p : Images) (x : DaemonConf) (e : Event Action Answer Task) (_ : World) : Images where
  plugged := p.notePlugged x e
  writer := p.noteWriter e
  entered := p.noteEntered x e
  seen := p.noteSeen e
  compared := p.noteCompared x e
  located := p.noteLocated e
  source := p.noteSource e
  answers := p.noteAnswers x e

/-- The warm answers are from snapshots of the image that was looked at: the run that made the snapshot hot-plugged
the image of the request while it had the modification time that `has_snapshot` read. -/
def NeverStale (p : Images) : Prop :=
  ∀ a ∈ p.answers, ∃ s m, a.source = some s ∧ a.seen = some (a.image, some m) ∧ (a.image, some m) ∈ p.plugged s

/-- A modification time that a run reads is the one that the image had when the run hot-plugged it.
`has_snapshot` could read the image's time for a request that locates an entry; the entry is of the request's
image, and none with another time has replaced it since `has_snapshot` looked at it.  The directory that is
restored has the snapshot of the run that made the entry. -/
def unchanged (p : Images) (x : DaemonConf) : Event Action Answer Task → Bool
  | .act i (.host (.fileMtime f)) r => r.isNone || decide ((f, r) ∈ p.plugged i)
  | .act i (.snap (.getSnapshotDir key)) _ =>
    (p.seen i).all fun q => (x.shared.snapshots.entries.lookup key).all fun e =>
      q.2.isSome && decide ((p.entered key).map Prod.snd = some q.1) && decide (e.erofsMtime = p.compared i)
  | .act i (.host (.prepareSnapshot base _ _ _)) _ => (p.located i).all fun s => decide (p.writer base = some s)
  | _ => true

/-! ### The invariant -/

/-- What is known of a task that is so far.  `has_snapshot` finds no snapshot where it reads another time
than that of the entry. -/
def Images.Knows (p : Images) (i : ℕ) : Progress → Prop
  | .idle => True
  | .sampled f m => m.isSome = true → (f, m) ∈ p.plugged i
  | .checked f => ∃ m, p.seen i = some (f, m) ∧ (m.isSome = true → p.compared i = m)
  | .located f _ => ∃ s m, p.located i = some s ∧ p.seen i = some (f, some m) ∧ (f, some m) ∈ p.plugged s
  | .prepared f => ∃ s m, p.source i = some s ∧ p.seen i = some (f, some m) ∧ (f, some m) ∈ p.plugged s

/-- An entry with a modification time has the one that the image of its run had when it was hot-plugged. -/
structure ImagesInv (p : Images) (w : World) (gs : List Tracking) : Prop where
  entry : ∀ key e, w.snapshots.entries.lookup key = some e →
    ∃ s f, p.entered key = some (s, f) ∧ (e.erofsMtime.isSome = true → (f, e.erofsMtime) ∈ p.plugged s)
  knows : ∀ (i : ℕ) g, gs[i]? = some g → p.Knows i g.step
  answers : NeverStale p

section Step

variable {E : Env} {p p' : Images} {x : DaemonConf} {w' : World} {gs : List Tracking} {i j : ℕ} {g : Tracking}
  {c : Choice}

theorem plugged_mono (e : Event Action Answer Task) {q : String × Option ℕ} (h : q ∈ p.plugged j) :
    q ∈ p.notePlugged x e j := by
  unfold Images.notePlugged
  split
  · next k sock disk r =>
    split
    · by_cases hj : j = k
      · subst hj
        rw [Function.update_self]
        exact List.mem_cons_of_mem _ h
      · rw [Function.update_of_ne hj]
        exact h
    · exact h
  · exact h

/-- What is known stays known when it is not written anew. -/
theorem Images.Knows.mono {s : Progress} (h : p.Knows j s) (hplug : ∀ k q, q ∈ p.plugged k → q ∈ p'.plugged k)
    (hseen : p'.seen j = p.seen j) (hcompared : p'.compared j = p.compared j)
    (hlocated : p'.located j = p.located j) (hsource : p'.source j = p.source j) : p'.Knows j s := by
  cases s with
  | idle => trivial
  | sampled f m => exact fun hsome => hplug _ _ (h hsome)
  | checked f =>
    obtain ⟨m, hm, hc⟩ := h
    exact ⟨m, hseen.trans hm, fun hsome => hcompared.trans (hc hsome)⟩
  | located f d =>
    obtain ⟨s, m, hs, hm, hin⟩ := h
    exact ⟨s, m, hlocated.trans hs, hseen.trans hm, hplug _ _ hin⟩
  | prepared f =>
    obtain ⟨s, m, hs, hm, hin⟩ := h
    exact ⟨s, m, hsource.trans hs, hseen.trans hm, hplug _ _ hin⟩

/-- What is written down of a task is by its own actions. -/
theorem noteImages_other {e : Event Action Answer Task} (h : ∀ a r, e ≠ .act j a r) :
    (noteImages p x e w').seen j = p.seen j ∧ (noteImages p x e w').compared j = p.compared j ∧
      (noteImages p x e w').located j = p.located j ∧ (noteImages p x e w').source j = p.source j := by
  have hupd : ∀ {α : Type} (f : ℕ → α) (k : ℕ) (v : α) (a : Action) (r : Answer a), e = .act k a r →
      Function.update f k v j = f j := by
    intro α f k v a r he
    refine Function.update_of_ne ?_ _ _
    rintro rfl
    exact h a r he
  refine ⟨?_, ?_, ?_, ?_⟩
  · show p.noteSeen e j = _
    unfold Images.noteSeen
    split
    · exact hupd _ _ _ _ _ rfl
    · rfl
  · show p.noteCompared x e j = _
    unfold Images.noteCompared
    split
    · exact hupd _ _ _ _ _ rfl
    · rfl
  · show p.noteLocated e j = _
    unfold Images.noteLocated
    split
    · exact hupd _ _ _ _ _ rfl
    · exact hupd _ _ _ _ _ rfl
    · rfl
  · show p.noteSource e j = _
    unfold Images.noteSource
    split
    · exact hupd _ _ _ _ _ rfl
    · rfl

/-- The comparison of `has_snapshot`: a time that it has read is that of the entry it has found. -/
theorem knows_checked {key f : String} {r : Bool × Option ℕ} {s : Progress}
    (hp : perform E x.shared (.snap (.hasSnapshot key (some f))) c = some (r, w')) :
    (noteImages p x (.act i (.snap (.hasSnapshot key (some f))) r) w').Knows i
      (Tracking.next s (.snap (.hasSnapshot key (some f))) r) := by
  obtain ⟨found, read⟩ := r
  cases found with
  | false => trivial
  | true =>
    obtain ⟨sn, dirs, hsn, -⟩ := perform_snap hp
    simp only [Snapshots.perform] at hsn
    split at hsn
    · cases hsn
    next e he =>
    split at hsn
    · cases hsn
    next hfresh =>
    obtain ⟨-, hread⟩ := Prod.mk.inj (Prod.mk.inj (Option.some.inj hsn)).1
    refine ⟨read, Function.update_self _ _ _, fun hsome => ?_⟩
    show Function.update p.compared i _ i = read
    rw [Function.update_self, he, Option.bind_some]
    obtain ⟨m, rfl⟩ := Option.isSome_iff_exists.mp hsome
    rw [hread] at hfresh
    cases hm : e.erofsMtime with
    | none => simp [SnapshotEntry.currentMtime, hm] at hread
    | some m' =>
      simp only [SnapshotEntry.stale, hm, ne_eq, decide_not, Bool.not_eq_true', decide_eq_false_iff_not,
        Decidable.not_not] at hfresh
      rw [hfresh]

/-- A request locates an entry of its image, with the time that was read for it. -/
theorem knows_located {s : Progress} {key : String} {r : Option Path} (hI : ImagesInv p x.shared gs) (hs : p.Knows i s)
    (hp : perform E x.shared (.snap (.getSnapshotDir key)) c = some (r, w'))
    (hok : unchanged p x (.act i (.snap (.getSnapshotDir key)) r) = true) :
    (noteImages p x (.act i (.snap (.getSnapshotDir key)) r) w').Knows i
      (Tracking.next s (.snap (.getSnapshotDir key)) r) := by
  cases s with
  | checked f =>
    cases r with
    | none => trivial
    | some d =>
      obtain ⟨m, hm, hcompared⟩ := hs
      obtain ⟨sn, dirs, hsn, -⟩ := perform_snap hp
      obtain ⟨e, he⟩ : ∃ e, x.shared.snapshots.entries.lookup key = some e := by
        simp only [Snapshots.perform] at hsn
        split at hsn
        · cases hsn
        · next e he => exact ⟨e, he⟩
      obtain ⟨run, f', hentered, hin⟩ := hI.entry key e he
      simp only [unchanged, hm, he, hentered, Option.all_some, Option.map_some, Bool.and_eq_true,
        decide_eq_true_eq, Option.some.injEq] at hok
      obtain ⟨⟨hread, rfl⟩, hsame⟩ := hok
      rw [hsame, hcompared hread] at hin
      have hin := hin hread
      obtain ⟨m, rfl⟩ := Option.isSome_iff_exists.mp hread
      refine ⟨run, m, ?_, hm, hin⟩
      show Function.update p.located i _ i = some run
      rw [Function.update_self, hm, hentered]
      rfl
  | _ => trivial

/-- The directory that is restored has the snapshot of the run that made the entry. -/
theorem knows_prepared {s : Progress} {base dir : Path} {cid : ℕ} {vsock : Path} {r : Except Agent.Err Prepared}
    (hs : p.Knows i s) (hok : unchanged p x (.act i (.host (.prepareSnapshot base dir cid vsock)) r) = true) :
    (noteImages p x (.act i (.host (.prepareSnapshot base dir cid vsock)) r) w').Knows i
      (Tracking.next s (.host (.prepareSnapshot base dir cid vsock)) r) := by
  cases s with
  | located f d =>
    unfold Tracking.next
    dsimp only
    split
    · next hd =>
      obtain ⟨rfl, hr⟩ : d = base ∧ isError r = false := by simpa using hd
      obtain ⟨run, m, hrun, hm, hin⟩ := hs
      simp only [unchanged, hrun, Option.all_some, decide_eq_true_eq] at hok
      refine ⟨run, m, ?_, hm, hin⟩
      show Function.update p.source i (if isError r then none else p.writer d) i = some run
      rw [Function.update_self, hr, hok]
      rfl
    · trivial
  | _ => trivial

/-- What the task that moves knows after its action. -/
theorem knows_step {s : Progress} {a : Action} {r : Answer a} (hI : ImagesInv p x.shared gs) (hs : p.Knows i s)
    (hp : perform E x.shared a c = some (r, w')) (hok : unchanged p x (.act i a r) = true) :
    (noteImages p x (.act i a r) w').Knows i (Tracking.next s a r) := by
  have hplug : ∀ k q, q ∈ p.plugged k → q ∈ (noteImages p x (.act i a r) w').plugged k :=
    fun _ _ h => plugged_mono _ h
  cases a with
  | host b =>
    cases b with
    | fileMtime f =>
      intro hsome
      rcases Bool.or_eq_true_iff.mp hok with hnone | hin
      · rw [Option.isNone_iff_eq_none.mp hnone] at hsome
        cases hsome
      · exact hplug _ _ (of_decide_eq_true hin)
    | prepareSnapshot base dir cid vsock => exact knows_prepared hs hok
    | _ => exact hs.mono hplug rfl rfl rfl rfl
  | snap b =>
    cases b with
    | getSnapshotDir key => exact knows_located hI hs hp hok
    | hasSnapshot key erofs =>
      cases erofs with
      | none => trivial
      | some f => exact knows_checked hp
    | _ => exact hs.mono hplug rfl rfl rfl rfl
  | _ => exact hs.mono hplug rfl rfl rfl rfl

/-- A run enters its image with the time that the image had when it was hot-plugged. -/
theorem entry_cache {key : String} {dir : Path} {m : Option ℕ} {r : Unit} {f : String} (hI : ImagesInv p x.shared gs)
    (hg : p.Knows i (.sampled f m)) (hf : (taskOf x i).bind Task.shadowImage = some f)
    (hp : perform E x.shared (.snap (.cacheSnapshot key dir m)) c = some (r, w')) (k : String) (e' : SnapshotEntry)
    (he' : w'.snapshots.entries.lookup k = some e') :
    ∃ s f', p.noteEntered x (.act i (.snap (.cacheSnapshot key dir m)) r) k = some (s, f') ∧
      (e'.erofsMtime.isSome = true → (f', e'.erofsMtime) ∈ p.plugged s) := by
  obtain ⟨sn, dirs, hs, rfl⟩ := perform_snap hp
  simp only [Snapshots.perform] at hs
  split at hs
  · cases hs
  next m' dirs' hev =>
  obtain ⟨rfl, rfl⟩ := Prod.mk.inj (Prod.mk.inj (Option.some.inj hs)).2
  have hentered : p.noteEntered x (.act i (.snap (.cacheSnapshot key dir m)) r) =
      Function.update p.entered key (some (i, f)) := by
    show Function.update p.entered key (((taskOf x i).bind Task.shadowImage).map (i, ·)) = _
    rw [hf]
    rfl
  by_cases hk : k = key
  · subst hk
    have hnew : e' = ⟨dir, x.shared.snapshots.clock + c.tick, m⟩ :=
      (Option.some.inj ((Finmap.lookup_insert _).symm.trans he')).symm
    subst hnew
    exact ⟨i, f, by rw [hentered, Function.update_self], hg⟩
  · have hold : m'.lookup k = some e' := (Finmap.lookup_insert_of_ne _ hk).symm.trans he'
    obtain ⟨s, f', hs', hin⟩ := hI.entry k e' ((evict_takes hev).1 k e' hold)
    refine ⟨s, f', ?_, hin⟩
    rw [hentered, Function.update_of_ne hk]
    exact hs'

theorem entries_step {a : Action} {r : Answer a} (hI : ImagesInv p x.shared gs) (hg : p.Knows i g.step)
    (htask : taskOf x i = some g.task) (hreq : Tracking.req g a) (hp : perform E x.shared a c = some (r, w'))
    (key : String) (e' : SnapshotEntry) (he' : w'.snapshots.entries.lookup key = some e') :
    ∃ s f, (noteImages p x (.act i a r) w').entered key = some (s, f) ∧
      (e'.erofsMtime.isSome = true → (f, e'.erofsMtime) ∈ p.plugged s) := by
  by_cases hcache : ∃ k d m, a = .snap (.cacheSnapshot k d m)
  · obtain ⟨k, d, m, rfl⟩ := hcache
    obtain ⟨f, hf, hstep⟩ := hreq
    rw [hstep] at hg
    exact entry_cache hI hg (by rw [htask]; exact hf) hp key e' he'
  · -- the entry was there before, with the same time
    have hentered : (noteImages p x (.act i a r) w').entered = p.entered := by
      show p.noteEntered x (.act i a r) = p.entered
      generalize hev : Event.act i a r = ev
      unfold Images.noteEntered
      split
      · cases hev
        exact absurd ⟨_, _, _, rfl⟩ hcache
      · rfl
    have hold : ∃ e, x.shared.snapshots.entries.lookup key = some e ∧ e.erofsMtime = e'.erofsMtime := by
      by_cases hsnap : ∃ b, a = .snap b
      · obtain ⟨b, rfl⟩ := hsnap
        obtain ⟨sn, dirs, hs, rfl⟩ := perform_snap hp
        obtain ⟨e, he, -, hm⟩ := (snap_takes (fun k d m h => hcache ⟨k, d, m, by rw [h]⟩) hs).1 key e' he'
        exact ⟨e, he, hm⟩
      · rw [snapshots_frame hp fun b h => hsnap ⟨b, h⟩] at he'
        exact ⟨e', he', rfl⟩
    obtain ⟨e, he, hm⟩ := hold
    rw [hentered, ← hm]
    exact hI.entry key e he

theorem answers_step {a : Action} {r : Answer a} (hI : ImagesInv p x.shared gs) (hg : p.Knows i g.step)
    (htask : taskOf x i = some g.task) (hreq : Tracking.req g a) : NeverStale (noteImages p x (.act i a r) w') := by
  have hold : ∀ b ∈ p.answers, ∃ s m, b.source = some s ∧ b.seen = some (b.image, some m) ∧
      (b.image, some m) ∈ p.notePlugged x (.act i a r) s := by
    intro b hb
    obtain ⟨s, m, hs, hm, hin⟩ := hI.answers b hb
    exact ⟨s, m, hs, hm, plugged_mono _ hin⟩
  show ∀ b ∈ p.noteAnswers x (.act i a r), ∃ s m, b.source = some s ∧ b.seen = some (b.image, some m) ∧
    (b.image, some m) ∈ p.notePlugged x (.act i a r) s
  cases a with
  | reply resp =>
    cases resp with
    | plain q => exact hold
    | acquired acq =>
      unfold Images.noteAnswers
      dsimp only
      split
      · next f hwarm himage =>
        rw [htask] at himage
        intro b hb
        rcases List.mem_cons.mp hb with rfl | hb
        · rw [hreq hwarm f himage] at hg
          exact hg
        · exact hold b hb
      · exact hold
  | _ => exact hold

/-- **One action.** -/
theorem images_step {a : Action} {r : Answer a} {ts : List Task}
    (hgs : gs = x.threads.map (System.ghost tracking Tracking.init)) (hI : ImagesInv p x.shared gs)
    (hi : gs[i]? = some g) (hreq : Tracking.req g a) (hp : perform E x.shared a c = some (r, w'))
    (hok : unchanged p x (.act i a r) = true) :
    ImagesInv (noteImages p x (.act i a r) w') w' (gs.set i (Tracking.upd g a r) ++ ts.map Tracking.init) := by
  have hg := hI.knows i g hi
  have htask : taskOf x i = some g.task := by
    rw [hgs, List.getElem?_map] at hi
    obtain ⟨t, ht, rfl⟩ := Option.map_eq_some_iff.mp hi
    have hread : (System.ghost tracking Tracking.init t).task = t.task :=
      System.ghost_reading (f := Tracking.task) (fun _ _ _ => rfl) t
    rw [taskOf, ht, Option.map_some, hread]
  refine ⟨fun key e he => ?_, fun j u hj => ?_, answers_step hI hg htask hreq⟩
  · obtain ⟨s, f, hs, hin⟩ := entries_step hI hg htask hreq hp key e he
    exact ⟨s, f, hs, fun hsome => plugged_mono _ (hin hsome)⟩
  · rw [List.getElem?_append] at hj
    split at hj
    · rcases getElem?_set_cases hj with ⟨rfl, rfl⟩ | ⟨hne, hold⟩
      · exact knows_step hI hg hp hok
      · have hother : ∀ b q, (.act i a r : Event Action Answer Task) ≠ .act j b q := by
          rintro b q he
          cases he
          exact hne rfl
        obtain ⟨hseen, hcompared, hlocated, hsource⟩ := noteImages_other hother
        exact (hI.knows j u hold).mono (fun _ _ h => plugged_mono _ h) hseen hcompared hlocated hsource
    · -- a new task has done nothing
      obtain ⟨t, -, rfl⟩ := List.mem_map.mp (List.mem_of_getElem? hj)
      trivial

end Step

/-! ### Whole runs -/

theorem images_inv {E : Env} {h : Host} {p : Images} {x : DaemonConf}
    (hh : (daemon E).Hist noteImages (fun p x e => unchanged p x e = true) Images.unknown (boot E h) p x) :
    ImagesInv p x.shared (x.threads.map (System.ghost tracking Tracking.init)) := by
  refine (System.Hist.invOn (fun _ => True) ImagesInv (fun _ => True) (fun t _ => body_tracking t)
    (fun _ _ _ _ => trivial) ?_ ?_ (fun p x t hI _ _ => ⟨trivial, ?_⟩)
    (fun p x i g a c r w' hI hi hreq hp hok => ⟨trivial, images_step rfl hI hi hreq hp hok⟩) hh).1
  · refine ⟨fun key e he => ?_, fun i g hi => ?_, fun a ha => absurd ha List.not_mem_nil⟩
    · simp [boot, World.start, Snapshots.new, System.init] at he
    · cases i with
      | zero =>
        obtain rfl := Option.some.inj hi
        trivial
      | succ i => cases hi
  · intro t ht
    obtain rfl := List.mem_singleton.mp ht
    exact body_tracking .main
  · refine ⟨hI.entry, fun i g hi => ?_, hI.answers⟩
    rw [List.getElem?_append] at hi
    split at hi
    · exact hI.knows i g hi
    · obtain rfl := List.mem_singleton.mp (List.mem_of_getElem? hi)
      trivial

/-- **Warm snapshots are not stale.**  In every run in which no image changes between the moment a shadow run
hot-plugs it and the moment the run reads its modification time, `has_snapshot` can read the time of a request's
image, the entry that it has looked at is of this image and gives way to none with another time before the request
locates it, and the directory still has the snapshot of the entry's run, every warm answer is from a run that
hot-plugged the image at the time that `has_snapshot` read. -/
theorem warm_answers_current {E : Env} {h : Host} {p : Images} {x : DaemonConf}
    (hh : (daemon E).Hist noteImages (fun p x e => unchanged p x e = true) Images.unknown (boot E h) p x) :
    NeverStale p := (images_inv hh).answers

/-- A shadow run caches its image, and the image is not replaced before a second request comes in. -/
def cachedImage : List (Label Choice Task) :=
  fourReady ++ [.arrive (.touch "/img/web" 1)] ++ steps 1 1 0 ++ [.arrive (acquireKeyed "web")] ++ steps 2 10 0 ++
    steps 4 14 0 ++ [.arrive (acquireKeyed "web")] ++ steps 5 14 110

theorem warm_answers_current_web : ∃ p x, (daemon cacheOfOne).Hist noteImages (fun p x e => unchanged p x e = true)
    Images.unknown (boot cacheOfOne (Host.withBase cacheOfOne)) p x ∧ p.answers.length = 1 ∧ NeverStale p := by
  have hrun : ((daemon cacheOfOne).execHist noteImages unchanged Images.unknown
      (boot cacheOfOne (Host.withBase cacheOfOne)) cachedImage).any
        (fun q => decide (q.1.answers.length = 1)) = true := by
    decide +kernel
  obtain ⟨p, x, hx, hP⟩ := System.exists_hist hrun
  exact ⟨p, x, hx, of_decide_eq_true hP, warm_answers_current hx⟩

/-- The image is replaced during the warmup, after the run has hot-plugged it. -/
def replacedInWarmup : List (Label Choice Task) :=
  fourReady ++ [.arrive (.touch "/img/web" 1)] ++ steps 1 1 0 ++ [.arrive (acquireKeyed "web")] ++ steps 2 10 0 ++
    steps 4 7 0 ++ [.arrive (.touch "/img/web" 2)] ++ steps 5 1 0 ++ steps 4 7 0 ++ [.arrive (acquireKeyed "web")] ++
    steps 6 14 110

theorem warmup_unseen : ¬ ∀ (E : Env) (h : Host) (p : Images) (x : DaemonConf),
    (daemon E).Hist noteImages (fun _ _ _ => True) Images.unknown (boot E h) p x → NeverStale p := by
  intro hall
  have hrun : ((daemon cacheOfOne).execHist noteImages (fun _ _ _ => true) Images.unknown
      (boot cacheOfOne (Host.withBase cacheOfOne)) replacedInWarmup).any (fun q =>
        q.1.answers.any fun a => decide (a.source = some 4 ∧ q.1.plugged 4 = [("/img/web", some 1)] ∧
          a.seen = some ("/img/web", some 2))) = true := by
    decide +kernel
  obtain ⟨p, x, hx, hP⟩ := System.exists_hist hrun
  obtain ⟨a, ha, hP⟩ := List.any_eq_true.mp hP
  obtain ⟨hsource, hplugged, hseen⟩ := of_decide_eq_true hP
  obtain ⟨s, m, hs, hm, hin⟩ := hall _ _ p x (hx.mono fun _ _ _ _ => trivial) a ha
  rw [hsource] at hs
  obtain rfl := Option.some.inj hs
  rw [hseen] at hm
  obtain ⟨himage, rfl⟩ : "/img/web" = a.image ∧ 2 = m := by simpa using hm
  rw [hplugged, ← himage] at hin
  simp at hin

end CloudHv.Daemon
