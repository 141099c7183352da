import CloudHv.Daemon.Procs
import CloudHv.Daemon.Names

/-!
# Release — what ReleaseSandbox destroys

`handle_release` joins the id it is given to the state directory, tells the process named by the `ch.pid`
file there to terminate and removes the directory, whether or not the id is in `active`.  So it harms
nothing but a VM that was handed out exactly when that directory has nothing of anyone else's.
-/

namespace CloudHv.Daemon

open Conc

/-! ### Processes and files -/

/-- There is a file, a socket or a snapshot at `p`. -/
def Host.stored (h : Host) (p : Path) : Prop := h.listeners p ≠ none ∨ h.pidFiles p ≠ none ∨ h.snaps p ≠ none

/-- The process that the `ch.pid` file in `dir` names, when it was not told to terminate yet. -/
def Host.named (h : Host) (dir : Path) (pid : ℕ) : Prop :=
  h.pidFiles dir = some pid ∧ ∃ v, h.procs.lookup pid = some v ∧ v.told = false

/-- Everything at and below `d` is the same. -/
def Host.SameBelow (h h' : Host) (d : Path) : Prop := ∀ p, d <+: p →
  h'.listeners p = h.listeners p ∧ h'.pidFiles p = h.pidFiles p ∧ h'.snaps p = h.snaps p

/-- The directories of ready VMs, of the base snapshot and of cached snapshots. -/
def Guarded (E : Env) (w : World) (d : Path) : Prop :=
  (∃ vm ∈ w.pool.ready, d = E.cfg.vmDir vm.vmId) ∨ d = E.cfg.baseSnapshotDir ∨
    ∃ key e, w.snapshots.entries.lookup key = some e ∧ d = e.dir

/-- An answer to AcquireSandbox returned the id. -/
def HandedOut (x : DaemonConf) (id : String) : Prop :=
  ∃ t ∈ x.threads, ∃ a : Acquired, (⟨.reply (.acquired a), ()⟩ : Act Action Answer) ∈ t.log ∧ a.vmId = id

/-- From `x` to `w'`, nothing was terminated or deleted but a VM with the id, which had been handed out: the
ready VMs keep their processes, and no guarded directory has changed. -/
structure Harmless (E : Env) (x : DaemonConf) (id : String) (w' : World) : Prop where
  handed : ((∀ pid, w'.host.procs.lookup pid = x.shared.host.procs.lookup pid) ∧ x.shared.host.SameBelow w'.host []) ∨
    HandedOut x id
  ready : ∀ vm ∈ x.shared.pool.ready, w'.host.procs.lookup vm.chPid = x.shared.host.procs.lookup vm.chPid
  dirs : ∀ d, Guarded E x.shared d → x.shared.host.SameBelow w'.host d
  tables : w'.pool.ready = x.shared.pool.ready ∧ w'.snapshots.entries = x.shared.snapshots.entries

/-- ReleaseSandbox does no harm, whatever the environment decides. -/
def ReleaseHarmless (E : Env) (x : DaemonConf) (id : String) : Prop :=
  ∀ cs r w' rest, eval (perform E) (handleRelease E id).run cs x.shared = some (r, w', rest) → Harmless E x id w'

/-- The directory that the id names has nothing of anyone else's. -/
structure OwnDirectory (E : Env) (x : DaemonConf) (id : String) : Prop where
  handed : HandedOut x id ∨ (∀ pid, ¬ x.shared.host.named (E.cfg.vmDir id) pid) ∧
    ∀ p, E.cfg.vmDir id <+: p → ¬ x.shared.host.stored p
  ready : ∀ vm ∈ x.shared.pool.ready, ¬ x.shared.host.named (E.cfg.vmDir id) vm.chPid
  dirs : ∀ d, Guarded E x.shared d → ∀ p, E.cfg.vmDir id <+: p → d <+: p → ¬ x.shared.host.stored p

section Host

variable {h : Host} {pid q : ℕ} {d p : Path}

theorem lookup_tell : (h.tell pid).procs.lookup q =
    if q = pid then (h.procs.lookup q).map fun v => { v with told := true } else h.procs.lookup q := by
  cases hv : h.procs.lookup pid with
  | none =>
    have hsame : h.tell pid = h := by
      unfold Host.tell
      rw [hv]
    rw [hsame]
    by_cases he : q = pid
    · rw [if_pos he, he, hv]
      rfl
    · rw [if_neg he]
  | some v =>
    have htell : (h.tell pid).procs = h.procs.insert pid { v with told := true } := by
      unfold Host.tell
      rw [hv]
    rw [htell, Finmap.lookup_insert_eq]
    by_cases he : q = pid
    · rw [if_pos he, if_pos he, he, hv]
      rfl
    · rw [if_neg he, if_neg he]

/-- Telling a process changes it unless it was told before. -/
theorem lookup_tell_eq_iff : (h.tell pid).procs.lookup q = h.procs.lookup q ↔
    ¬ (q = pid ∧ ∃ v, h.procs.lookup q = some v ∧ v.told = false) := by
  rw [lookup_tell]
  by_cases he : q = pid
  · rw [if_pos he]
    cases hv : h.procs.lookup q with
    | none => simp
    | some v =>
      cases ht : v.told with
      | false =>
        have hne : ({ v with told := true } : Vmm) ≠ v := fun hv' => (by rw [← hv'] at ht; cases ht)
        simp [he, ht, hne]
      | true =>
        have hsame : ({ v with told := true } : Vmm) = v := by rw [← ht]
        simp [ht, hsame]
  · simp [he]

theorem sameBelow_tell : (h.tell pid).listeners = h.listeners ∧ (h.tell pid).pidFiles = h.pidFiles ∧
    (h.tell pid).snaps = h.snaps := by
  unfold Host.tell
  split <;> exact ⟨rfl, rfl, rfl⟩

end Host

/-! ### The outcomes of a release -/

section Outcome

variable {E : Env} {w : World} {id : String}

/-- What is left of the host: the process in the `ch.pid` file may have been told, and the directory may
have been removed. -/
def Host.Destroyed (h : Host) (dir : Path) (h' : Host) : Prop :=
  ∃ h₁, (h₁ = h ∨ ∃ pid, h.pidFiles dir = some pid ∧ h₁ = h.tell pid) ∧ (h' = h₁ ∨ h' = h₁.removeDir dir)

theorem removeDir_always {dir : Path} {Q : Unit → World → Prop} {F : Fail → World → Prop}
    (hkeep : Q () w) (hremove : Q () { w with host := w.host.removeDir dir }) :
    semx (always (perform E)) (host (.removeDirAll dir)) Q F w := by
  refine semx_tell.mpr fun c r w' hp => ?_
  obtain ⟨h', hh, rfl⟩ := perform_host hp
  obtain ⟨-, rfl⟩ := Prod.mk.inj (Option.some.inj hh)
  split
  · exact hkeep
  · exact hremove

theorem shutdownAndDestroy_always {pid : ℕ} {dir : Path} {Q : Unit → World → Prop} {F : Fail → World → Prop}
    (hkeep : Q () { w with host := w.host.tell pid })
    (hremove : Q () { w with host := (w.host.tell pid).removeDir dir }) :
    semx (always (perform E)) (shutdownAndDestroy pid dir) Q F w := by
  refine semx_bind.mpr (semx_tell.mpr fun c _ w₁ hp => ?_)
  obtain ⟨h₁, hh, rfl⟩ := perform_host hp
  obtain ⟨-, rfl⟩ := Prod.mk.inj (Option.some.inj hh)
  refine semx_bind.mpr (semx_tell.mpr fun c gone w₂ hp => ?_)
  obtain ⟨h₂, hh, rfl⟩ := perform_host hp
  obtain ⟨-, rfl⟩ := Prod.mk.inj (Option.some.inj hh)
  have hlast : semx (always (perform E)) (host (.removeDirAll dir)) Q F { w with host := w.host.tell pid } :=
    removeDir_always hkeep hremove
  split
  · exact hlast
  · refine semx_bind.mpr (semx_tell.mpr fun c _ w₃ hp => ?_)
    obtain ⟨h₃, hh, rfl⟩ := perform_host hp
    obtain ⟨-, rfl⟩ := Prod.mk.inj (Option.some.inj hh)
    refine semx_bind.mpr (semx_tell.mpr fun c _ w₄ hp => ?_)
    obtain ⟨-, rfl⟩ := Prod.mk.inj (Option.some.inj hp)
    exact hlast

theorem destroyVm_always {Q : Unit → World → Prop} {F : Fail → World → Prop}
    (hQ : ∀ h', w.host.Destroyed (E.cfg.vmDir id) h' → Q () { w with host := h' }) :
    semx (always (perform E)) (destroyVm E id) Q F w := by
  refine semx_bind.mpr (semx_tell.mpr fun c r w₁ hp => ?_)
  obtain ⟨h₁, hh, rfl⟩ := perform_host hp
  obtain ⟨hr, rfl⟩ := Prod.mk.inj (Option.some.inj hh)
  cases r with
  | none => exact removeDir_always (hQ _ ⟨_, .inl rfl, .inl rfl⟩) (hQ _ ⟨_, .inl rfl, .inr rfl⟩)
  | some pid =>
    have hpid : w.host.pidFiles (E.cfg.vmDir id) = some pid := by
      split at hr
      · cases hr
      · exact hr
    exact shutdownAndDestroy_always (hQ _ ⟨_, .inr ⟨pid, hpid, rfl⟩, .inl rfl⟩)
      (hQ _ ⟨_, .inr ⟨pid, hpid, rfl⟩, .inr rfl⟩)

/-- A release changes the host only in the directory that the id names and the process named there. -/
theorem handleRelease_always (hid : id ≠ "") : semx (always (perform E)) (handleRelease E id)
    (fun _ w' => w.host.Destroyed (E.cfg.vmDir id) w'.host ∧ w'.pool.ready = w.pool.ready ∧
      w'.snapshots.entries = w.snapshots.entries) (fun _ _ => False) w := by
  unfold handleRelease
  rw [if_neg hid]
  refine semx_bind.mpr (semx_tell.mpr fun c _ w₁ hp => ?_)
  obtain ⟨-, rfl⟩ := Prod.mk.inj (Option.some.inj hp)
  refine semx_bind.mpr (semx_attempt.mpr (semx_bind.mpr (semx_tell.mpr fun c r w₂ hp => ?_)))
  obtain ⟨-, rfl⟩ := perform_pool hp
  cases r with
  | none => exact destroyVm_always fun h' hd => ⟨hd, rfl, rfl⟩
  | some vm =>
    refine semx_bind.mpr (semx_tell.mpr fun c _ w₃ hp => ?_)
    obtain ⟨-, rfl⟩ := perform_pool hp
    exact destroyVm_always fun h' hd => ⟨hd, rfl, rfl⟩

/-- The host when every step of the release succeeds. -/
def Host.destroyed (h : Host) (dir : Path) : Host :=
  match h.pidFiles dir with
  | some pid => (h.tell pid).removeDir dir
  | none => h.removeDir dir

theorem destroyVm_possible {Q : Unit → World → Prop} {F : Fail → World → Prop}
    (hQ : Q () { w with host := w.host.destroyed (E.cfg.vmDir id) }) :
    semx (possible (perform E)) (destroyVm E id) Q F w := by
  refine semx_bind.mpr (semx_tell.mpr (host_possible (.readPid (E.cfg.vmDir id)) (Choice.fine 0)
    (w.host.pidFiles (E.cfg.vmDir id)) w.host rfl ?_))
  unfold Host.destroyed at hQ
  cases hf : w.host.pidFiles (E.cfg.vmDir id) with
  | none =>
    rw [hf] at hQ
    exact semx_tell.mpr (host_possible (.removeDirAll _) (Choice.fine 0) () _ rfl hQ)
  | some pid =>
    rw [hf] at hQ
    refine semx_bind.mpr (semx_tell.mpr (host_possible (.sigterm pid) (Choice.fine 0) () _ rfl ?_))
    refine semx_bind.mpr (semx_tell.mpr (host_possible (.awaitGone pid) (Choice.fine 0) true _ rfl ?_))
    exact semx_tell.mpr (host_possible (.removeDirAll _) (Choice.fine 0) () _ rfl hQ)

theorem handleRelease_possible (hid : id ≠ "") : semx (possible (perform E)) (handleRelease E id)
    (fun _ w' => w'.host = w.host.destroyed (E.cfg.vmDir id)) (fun _ _ => False) w := by
  unfold handleRelease
  rw [if_neg hid]
  refine semx_bind.mpr (semx_tell.mpr ⟨Choice.fine 0, (), _, rfl, ?_⟩)
  refine semx_bind.mpr (semx_attempt.mpr (semx_bind.mpr (semx_tell.mpr (pool_possible (.activeRemove id) ?_))))
  cases (World.pool { w with agents := w.agents.erase id }).perform (.activeRemove id) |>.1 with
  | none => exact destroyVm_possible rfl
  | some vm =>
    exact semx_bind.mpr (semx_tell.mpr (pool_possible .countSub (destroyVm_possible rfl)))

end Outcome

/-! ### Harm -/

section Harm

variable {E : Env} {x : DaemonConf} {id : String} {h h' : Host} {dir p : Path} {pid : ℕ}

theorem destroyed_lookup (hd : h.Destroyed dir h') (hn : ¬ h.named dir pid) :
    h'.procs.lookup pid = h.procs.lookup pid := by
  obtain ⟨h₁, htell, hremove⟩ := hd
  have hprocs : h'.procs = h₁.procs := by
    rcases hremove with rfl | rfl <;> rfl
  rw [hprocs]
  rcases htell with rfl | ⟨q, hq, rfl⟩
  · rfl
  · refine lookup_tell_eq_iff.mpr ?_
    rintro ⟨rfl, hv⟩
    exact hn ⟨hq, hv⟩

/-- What is not stored below the directory is not lost. -/
theorem destroyed_files (hd : h.Destroyed dir h') (hn : dir <+: p → ¬ h.stored p) :
    h'.listeners p = h.listeners p ∧ h'.pidFiles p = h.pidFiles p ∧ h'.snaps p = h.snaps p := by
  obtain ⟨h₁, htell, hremove⟩ := hd
  have hfiles : h₁.listeners = h.listeners ∧ h₁.pidFiles = h.pidFiles ∧ h₁.snaps = h.snaps := by
    rcases htell with rfl | ⟨q, -, rfl⟩
    · exact ⟨rfl, rfl, rfl⟩
    · exact sameBelow_tell
  obtain ⟨h1, h2, h3⟩ := hfiles
  rcases hremove with rfl | rfl
  · rw [h1, h2, h3]
    exact ⟨rfl, rfl, rfl⟩
  · simp only [Host.removeDir, Host.outside, h1, h2, h3]
    by_cases hp : dir <+: p
    · have hnone := hn hp
      simp only [Host.stored, not_or, not_not] at hnone
      simp [hnone.1, hnone.2.1, hnone.2.2]
    · simp [hp]

theorem destroyed_of_named (hn : h.named dir pid) : (h.destroyed dir).procs.lookup pid ≠ h.procs.lookup pid := by
  obtain ⟨hf, hv⟩ := hn
  unfold Host.destroyed
  rw [hf]
  exact fun he => lookup_tell_eq_iff.mp he ⟨rfl, hv⟩

theorem destroyed_of_stored (hp : dir <+: p) (hs : h.stored p) :
    ¬ ((h.destroyed dir).listeners p = h.listeners p ∧ (h.destroyed dir).pidFiles p = h.pidFiles p ∧
      (h.destroyed dir).snaps p = h.snaps p) := by
  have hgone : (h.destroyed dir).listeners p = none ∧ (h.destroyed dir).pidFiles p = none ∧
      (h.destroyed dir).snaps p = none := by
    unfold Host.destroyed
    split <;> exact ⟨if_pos hp, if_pos hp, if_pos hp⟩
  rintro ⟨h1, h2, h3⟩
  rcases hs with h | h | h
  · exact h (h1.symm.trans hgone.1)
  · exact h (h2.symm.trans hgone.2.1)
  · exact h (h3.symm.trans hgone.2.2)

theorem harmless_refl : Harmless E x id x.shared :=
  ⟨.inl ⟨fun _ => rfl, fun _ _ => ⟨rfl, rfl, rfl⟩⟩, fun _ _ => rfl, fun _ _ _ _ => ⟨rfl, rfl, rfl⟩, rfl, rfl⟩

theorem harmless_of_own (hO : OwnDirectory E x id) {w' : World}
    (hd : x.shared.host.Destroyed (E.cfg.vmDir id) w'.host) (hready : w'.pool.ready = x.shared.pool.ready)
    (hentries : w'.snapshots.entries = x.shared.snapshots.entries) : Harmless E x id w' where
  handed := by
    rcases hO.handed with hh | ⟨hnamed, hstored⟩
    · exact .inr hh
    · exact .inl ⟨fun pid => destroyed_lookup hd (hnamed pid), fun p _ => destroyed_files hd (hstored p)⟩
  ready vm hvm := destroyed_lookup hd (hO.ready vm hvm)
  dirs d hg p hdp := destroyed_files hd fun hp => hO.dirs d hg p hp hdp
  tables := ⟨hready, hentries⟩

/-- A release that succeeds throughout shows what the directory has. -/
theorem own_of_harmless {w' : World} (hw : w'.host = x.shared.host.destroyed (E.cfg.vmDir id))
    (hH : Harmless E x id w') : OwnDirectory E x id where
  handed := by
    rcases hH.handed with ⟨hprocs, hfiles⟩ | hh
    · refine .inr ⟨fun pid hn => destroyed_of_named hn (hw ▸ hprocs pid), fun p hp hs => ?_⟩
      exact destroyed_of_stored hp hs (hw ▸ hfiles p List.nil_prefix)
    · exact .inl hh
  ready vm hvm hn := destroyed_of_named hn (hw ▸ hH.ready vm hvm)
  dirs d hg p hp hdp hs := destroyed_of_stored hp hs (hw ▸ hH.dirs d hg p hdp)

theorem own_of_release (hid : id ≠ "") (hH : ReleaseHarmless E x id) : OwnDirectory E x id := by
  obtain ⟨cs, r, w', he, hw⟩ := sem_possible (handleRelease_possible (E := E) (w := x.shared) hid)
  cases r with
  | error e => exact hw.elim
  | ok resp => exact own_of_harmless hw (hH cs (.ok resp) w' [] he)

/-- **When a release does no harm.**  For every state and every id: ReleaseSandbox terminates and deletes
nothing but a VM that had been handed out exactly when the id is empty, or the directory it names has
nothing of anyone else's. -/
theorem release_harmless_iff : ReleaseHarmless E x id ↔ id = "" ∨ OwnDirectory E x id := by
  by_cases hid : id = ""
  · refine iff_of_true (fun cs r w' rest he => ?_) (.inl hid)
    -- without an id nothing is done
    unfold handleRelease at he
    rw [if_pos hid] at he
    obtain ⟨-, hw⟩ := Prod.mk.inj (Option.some.inj he)
    obtain ⟨rfl, -⟩ := Prod.mk.inj hw
    exact harmless_refl
  · constructor
    · exact fun hH => .inr (own_of_release hid hH)
    · rintro (hempty | hO) cs r w' rest he
      · exact absurd hempty hid
      · have hw := sem_always (handleRelease_always (E := E) (w := x.shared) hid) he
        cases r with
        | error e => exact hw.elim
        | ok resp => exact harmless_of_own hO hw.1 hw.2.1 hw.2.2

end Harm

/-! ### A ready VM and the base snapshot -/

/-- The pool is filled, and nobody has acquired anything. -/
def filledOne : List (Label Choice Task) := steps 0 13 100

/-- The ids of a VM in the ready list and of the base snapshot's directory. -/
theorem release_harms : ∃ x, (daemon poolOfOne).Reach (fun _ _ => True) (boot poolOfOne (Host.withBase poolOfOne)) x ∧
    ¬ ReleaseHarmless poolOfOne x "pool-7-3" ∧ ¬ ReleaseHarmless poolOfOne x "base-snapshot" := by
  have hrun : ((daemon poolOfOne).exec (fun _ _ => true) (boot poolOfOne (Host.withBase poolOfOne)) filledOne).any
      (fun x => decide (x.shared.pool.ready.map (·.vmId) = ["pool-7-3"] ∧
        (x.shared.host.pidFiles (poolOfOne.cfg.vmDir "pool-7-3")).isSome = true ∧
        (x.shared.host.snaps poolOfOne.cfg.baseSnapshotDir).isSome = true)) = true := by
    decide +kernel
  obtain ⟨x, hx, hP⟩ := System.exists_reach hrun
  obtain ⟨hready, hfile, hbase⟩ := of_decide_eq_true hP
  refine ⟨x, hx.mono fun _ _ _ => trivial, fun hH => ?_, fun hH => ?_⟩
  · have hown := own_of_release (by decide) hH
    have hvm : "pool-7-3" ∈ x.shared.pool.ready.map (·.vmId) := by
      rw [hready]
      exact List.mem_singleton.mpr rfl
    obtain ⟨vm, hmem, hid⟩ := List.mem_map.mp hvm
    exact hown.dirs _ (.inl ⟨vm, hmem, rfl⟩) (poolOfOne.cfg.vmDir "pool-7-3") (List.prefix_refl _)
      (by rw [hid]) (.inr (.inl (Option.isSome_iff_ne_none.mp hfile)))
  · have hown := own_of_release (by decide) hH
    exact hown.dirs _ (.inr (.inl rfl)) poolOfOne.cfg.baseSnapshotDir (List.prefix_refl _) (List.prefix_refl _)
      (.inr (.inr (Option.isSome_iff_ne_none.mp hbase)))

end CloudHv.Daemon
