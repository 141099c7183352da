import CloudHv.Daemon.Evict
import CloudHv.Daemon.Frame
import CloudHv.Daemon.Parts

/-!
# CacheDirs — the directories of the snapshot cache

A shadow run writes its snapshot to a directory that is made of the image key, and enters the directory into the
table later.  Evictions and invalidations delete the directories of the entries they take out.  So the table and
the disk can disagree: a second run for a key writes over the directory of the first one's entry, and the eviction
that makes room for its own entry can delete what it has just written.

`Origins` writes down along a run who wrote a snapshot directory last, and who entered a key.
-/

namespace CloudHv.Daemon

open Conc

/-! ### Snapshots on their way into the table -/

/-- A shadow run's snapshot that is written and not yet entered. -/
structure Putting where
  shadow : Bool
  dir : Option Path
  deriving DecidableEq

namespace Putting

def init : Task → Putting
  | .shadow _ _ => ⟨true, none⟩
  | _ => ⟨false, none⟩

def upd (g : Putting) : (a : Action) → Answer a → Putting
  | .host (.api _ (.snapshot d)), r => if g.shadow && !isError r then ⟨true, some d⟩ else g
  | .host (.stripKernelIp _), r => if isError r then ⟨g.shadow, none⟩ else g
  | .snap (.cacheSnapshot _ _ _), _ => ⟨g.shadow, none⟩
  | _, _ => g

/-- What is entered is what the run has written. -/
def req (g : Putting) : Action → Prop
  | .snap (.cacheSnapshot _ d _) => g.dir = some d
  | _ => True

end Putting

def putting : Discipline Action Answer Putting := ⟨Putting.upd, Putting.req, fun _ _ _ => True⟩

/-- The directory that a task has written and not yet entered. -/
def pending (t : Thread Action Answer Task) : Option Path := (System.ghost putting Putting.init t).dir

section Tasks

variable {E : Env} {b : Bool}

/-- Whether a task is a shadow task does not change. -/
theorem putting_other {a : Action} (h : ∀ key d m, a ≠ .snap (.cacheSnapshot key d m)) :
    Keeps putting (fun g => g.shadow = b) (tell a) := by
  refine .tell fun g hg => ⟨?_, fun r _ => ?_⟩
  · cases a with
    | snap s =>
      cases s with
      | cacheSnapshot key d m => exact absurd rfl (h key d m)
      | _ => trivial
    | _ => trivial
  · show (Putting.upd g a r).shadow = b
    unfold Putting.upd
    split
    · split
      · next hs =>
        rw [Bool.and_eq_true] at hs
        exact hs.1.symm.trans hg
      · exact hg
    · split
      · exact hg
      · exact hg
    · exact hg
    · exact hg

theorem putting_plain (a : Action) (ha : a.inner = false) : Keeps putting (fun g => g.shadow = b) (tell a) := by
  refine putting_other fun key d m he => ?_
  rw [he] at ha
  cases ha

theorem release_putting (id : String) : Keeps putting (fun g => g.shadow = b) (release E id) := by
  refine .bind (putting_other (by simp)) fun r => ?_
  cases r with
  | some vm => exact .bind (putting_other (by simp)) fun _ => destroy_keeps putting_plain id
  | none => exact destroy_keeps putting_plain id

theorem registerActive_putting (vm : PoolVm) : Keeps putting (fun g => g.shadow = b) (registerActive vm) :=
  .bind (putting_other (by simp)) fun _ => putting_other (by simp)

theorem restoreOne_putting : Keeps putting (fun g => g.shadow = b) (restoreOne E) :=
  restore_keeps putting_plain (putting_other (by simp))

theorem putting_parts : PlainParts putting (fun g => g.shadow = b) E :=
  plainParts_of_actions putting_plain restoreOne_putting registerActive_putting release_putting
    fun key erofs => trigger_keeps putting_plain key erofs (putting_other (by simp)) (putting_other (by simp))
      (putting_other (by simp))

/-- A shadow run enters the directory it has written. -/
theorem runShadow_putting (key erofs : String) :
    Keeps putting (fun g => g.shadow = true) (runShadow E key erofs) := by
  have hkinds : ∀ {α : Type} {ks : List Kind} {m : M α}, Uses ks m → ks.all (fun k => !innerKinds.elem k) = true →
      Keeps putting (fun g => g.shadow = true) m := fun h hks => keeps_kinds putting_plain h hks
  have hlater : ∀ e g, (fun g : Putting => g.shadow = true) g → (fun (_ : Fail) (g : Putting) => g.shadow = true) e g :=
    fun _ _ h => h
  unfold runShadow
  refine Keeps.seq (hkinds (createDirAll_strict _).uses rfl) hlater fun _ => ?_
  refine Keeps.seq (.context (acquire_keeps (putting_plain _ rfl) restoreOne_putting registerActive_putting)) hlater
    fun vm => ?_
  refine Keeps.seq (.context (.ask (putting_plain _ rfl))) hlater fun _ => ?_
  refine Keeps.seq (hkinds (connectAgent_strict _).uses rfl) hlater fun _ => ?_
  refine Keeps.seq (hkinds (runContainerRpc_strict _ _ _).uses rfl) hlater fun _ => ?_
  refine Keeps.seq (putting_plain _ rfl) hlater fun _ => ?_
  refine Keeps.seq (hkinds (createDirAll_strict _).uses rfl) hlater fun _ => ?_
  refine Keeps.seq (hkinds (apiRequest_strict _ _).uses rfl) hlater fun _ g hg => ?_
  -- the snapshot and what follows it
  rw [wpx_bind, apiRequest, wpx_ask, wp_onHost]
  refine ⟨trivial, fun r _ => ?_⟩
  have hwritten : putting.upd g (.host (.api vm.apiSocket (.snapshot (E.cfg.snapshotCacheDir.join key)))) r =
      if g.shadow && !isError r then ⟨true, some (E.cfg.snapshotCacheDir.join key)⟩ else g := rfl
  rw [hwritten, hg]
  cases r with
  | error e => exact hg
  | ok u =>
    show wpx putting _ _ _ ⟨true, some (E.cfg.snapshotCacheDir.join key)⟩
    rw [wpx_bind, wpx_ask, wp_onHost]
    refine ⟨trivial, fun r _ => ?_⟩
    cases r with
    | error e => exact rfl
    | ok u =>
      show wpx putting _ _ _ ⟨true, some (E.cfg.snapshotCacheDir.join key)⟩
      rw [wpx_bind, wpx_host]
      refine ⟨trivial, fun mtime _ => ?_⟩
      show wpx putting _ _ _ ⟨true, some (E.cfg.snapshotCacheDir.join key)⟩
      rw [wpx_bind, wpx_snap]
      exact ⟨rfl, fun _ _ => release_putting _ _ rfl⟩

theorem body_putting (t : Task) : wp putting (t.body E) (fun _ _ => True) (Putting.init t) := by
  by_cases ht : ∃ key erofs, t = .shadow key erofs
  · obtain ⟨key, erofs, rfl⟩ := ht
    have hremove : Keeps putting (fun g => g.shadow = true) (snap (.shadowsRemove key)) := putting_other (by simp)
    exact wp_mono (Keeps.toTask (.bind (.attempt (runShadow_putting key erofs)) fun _ => hremove) rfl)
      fun _ _ _ => trivial
  · have hne : ∀ key erofs, t ≠ .shadow key erofs := fun key erofs he => ht ⟨key, erofs, he⟩
    have hinit : (Putting.init t).shadow = false := by
      cases t with
      | shadow key erofs => exact absurd rfl (hne key erofs)
      | _ => rfl
    exact wp_mono (putting_parts.body_ne hne hinit) fun _ _ _ => trivial

end Tasks

/-! ### What is left of the directories -/

section Files

variable {max : ℕ} {m m' : Cache}

/-- The loop only takes entries out, and deletes the directories of those. -/
theorem evict_takes {ks : List String} {dirs : List Path} (h : evict max ks m = some (m', dirs)) :
    (∀ k e, m'.lookup k = some e → m.lookup k = some e) ∧
      ∀ p ∈ dirs, ∃ k e, m.lookup k = some e ∧ e.dir = p ∧ m'.lookup k = none := by
  induction ks generalizing m dirs with
  | nil =>
    simp only [evict] at h
    split at h
    · obtain ⟨rfl, rfl⟩ := Prod.mk.inj (Option.some.inj h)
      exact ⟨fun _ _ hk => hk, fun p hp => absurd hp List.not_mem_nil⟩
    · cases h
  | cons k₀ ks ih =>
    simp only [evict] at h
    split at h
    · cases h
    split at h
    · split at h
      · next e₀ m'' dirs' he₀ hev =>
        obtain ⟨rfl, rfl⟩ := Prod.mk.inj (Option.some.inj h)
        obtain ⟨hsub, hgone⟩ := ih hev
        have hkeep : ∀ k e, (m.erase k₀).lookup k = some e → m.lookup k = some e :=
          fun k e hk => (Finmap.lookup_of_erase hk).2
        refine ⟨fun k e hk => hkeep k e (hsub k e hk), fun p hp => ?_⟩
        rcases List.mem_cons.mp hp with rfl | hp
        · refine ⟨k₀, e₀, he₀, rfl, ?_⟩
          -- what the rest of the loop leaves comes from the table without `k₀`
          by_contra hne
          obtain ⟨e, he⟩ := Option.ne_none_iff_exists'.mp hne
          exact (Finmap.lookup_of_erase (hsub k₀ e he)).1 rfl
        · obtain ⟨k, e, hk, rfl, hnone⟩ := hgone p hp
          exact ⟨k, e, hkeep k e hk, rfl, hnone⟩
      · cases h
    · cases h

theorem outside_elsewhere {ν : Type} {dir p : Path} {files : Path → Option ν} (h : ¬ dir <+: p) :
    Host.outside dir files p = files p := if_neg h

/-- Directories that are deleted elsewhere. -/
theorem snaps_removeDirs {dirs : List Path} {d : Path} (h : Host) (hd : ∀ p ∈ dirs, ¬ p <+: d) :
    (dirs.foldl Host.removeDir h).snaps d = h.snaps d := by
  induction dirs generalizing h with
  | nil => rfl
  | cons p dirs ih =>
    rw [List.foldl_cons, ih _ fun q hq => hd q (List.mem_cons_of_mem _ hq)]
    exact outside_elsewhere (hd p List.mem_cons_self)

theorem setGuest_snaps (h : Host) (pid : ℕ) (g : Agent.Guest) : (h.setGuest pid g).snaps = h.snaps := by
  unfold Host.setGuest
  split
  · rfl
  · rfl

theorem tell_snaps (h : Host) (pid : ℕ) : (h.tell pid).snaps = h.snaps := by
  unfold Host.tell
  split
  · rfl
  · rfl

/-- A snapshot stays as it is unless a snapshot is written to its directory, or the directory is deleted. -/
theorem snaps_perform {h h' : Host} {a : HostAct} {c : Choice} {r : a.Answer} {d : Path} {g : Agent.Guest}
    (hp : h.perform a c = some (r, h')) (hd : h.snaps d = some g)
    (hwrite : ∀ sock dest, a = .api sock (.snapshot dest) → d ≠ dest)
    (hremove : ∀ p, a = .removeDirAll p → ¬ p <+: d) : h'.snaps d = some g := by
  have hframe : a.writes = false → a.kind ∉ [.spawn, .signal, .pidFile, .remove] → h'.snaps d = some g := by
    intro hw hk
    rw [perform_frame Host.snaps hp hk (fun _ => setGuest_snaps) (fun hw' => absurd (hw.symm.trans hw') nofun)
      (fun _ _ _ => rfl) (fun _ _ _ _ _ => rfl), hd]
  cases a with
  | prepareSnapshot base dir cid vsock =>
    simp only [Host.perform] at hp
    split at hp
    · obtain ⟨-, rfl⟩ := Prod.mk.inj (Option.some.inj hp)
      exact hd
    · next g' _ hfree =>
      obtain ⟨-, rfl⟩ := Prod.mk.inj (Option.some.inj hp)
      -- the work directory had no snapshot before
      have hne : d ≠ dir ++ ["snapshot"] := by
        rintro rfl
        rw [hfree] at hd
        cases hd
      exact (Function.update_of_ne hne _ _).trans hd
    · cases hp
  | api sock call =>
    cases call with
    | snapshot dest =>
      rcases request_cases hp with rfl | ⟨x, hx⟩
      · exact hd
      obtain ⟨pid, -, hx⟩ := Option.bind_eq_some_iff.mp hx
      obtain ⟨h₂, he, hq⟩ := Option.map_eq_some_iff.mp hx
      obtain ⟨-, rfl⟩ := Prod.mk.inj hq
      obtain ⟨g', -, rfl⟩ := Option.map_eq_some_iff.mp he
      exact (Function.update_of_ne (hwrite sock dest rfl) _ _).trans hd
    | _ => exact hframe rfl (by simp [HostAct.kind])
  | removeDirAll p =>
    obtain ⟨-, rfl⟩ := Prod.mk.inj (Option.some.inj hp)
    split
    · exact hd
    · exact (outside_elsewhere (hremove p rfl)).trans hd
  | writePid dir pid =>
    simp only [Host.perform] at hp
    split at hp <;> (obtain ⟨-, rfl⟩ := Prod.mk.inj (Option.some.inj hp); exact hd)
  | readPid dir =>
    obtain ⟨-, rfl⟩ := Prod.mk.inj (Option.some.inj hp)
    exact hd
  | spawnCh dir =>
    simp only [Host.perform] at hp
    split at hp
    · obtain ⟨-, rfl⟩ := Prod.mk.inj (Option.some.inj hp)
      exact hd
    · split at hp
      · cases hp
      · obtain ⟨-, rfl⟩ := Prod.mk.inj (Option.some.inj hp)
        exact hd
  | sigterm pid =>
    obtain ⟨-, rfl⟩ := Prod.mk.inj (Option.some.inj hp)
    rw [tell_snaps]
    exact hd
  | awaitGone pid | sigkill pid =>
    obtain ⟨-, rfl⟩ := Prod.mk.inj (Option.some.inj hp)
    exact hd
  | _ => exact hframe rfl (by simp [HostAct.kind])

/-- A snapshot that was answered is in its directory. -/
theorem snaps_written {h h' : Host} {sock dest : Path} {c : Choice}
    (hp : h.perform (.api sock (.snapshot dest)) c = some (.ok (), h')) : ∃ g, h'.snaps dest = some g := by
  obtain ⟨pid, -, hx⟩ := Option.bind_eq_some_iff.mp (request_ok hp)
  obtain ⟨h₂, he, hq⟩ := Option.map_eq_some_iff.mp hx
  obtain ⟨-, rfl⟩ := Prod.mk.inj hq
  obtain ⟨g, -, rfl⟩ := Option.map_eq_some_iff.mp he
  exact ⟨g, Function.update_self _ _ _⟩

end Files

/-! ### Who wrote, who entered -/

/-- Who wrote a snapshot directory last, with what is in it, and who entered a key last. -/
structure Origins where
  written : Path → Option (ℕ × Agent.Guest)
  inserter : String → Option ℕ

def Origins.unknown : Origins := ⟨fun _ => none, fun _ => none⟩

/-- Write down the snapshots that are made and the entries. -/
def noteDirs (o : Origins) (_ : DaemonConf) : Event Action Answer Task → World → Origins
  | .act i (.host (.api _ (.snapshot d))) r, w =>
    { o with written := Function.update o.written d (if isError r then none else (w.host.snaps d).map (i, ·)) }
  | .act i (.snap (.cacheSnapshot key _ _)) _, _ =>
    { o with inserter := Function.update o.inserter key (some i) }
  | _, _ => o

/-- What has a snapshot directory: an entry of the table, or a task that has not entered it yet. -/
abbrev Holder := String ⊕ ℕ

def holds (m : Cache) (gs : List Putting) : Holder → Option Path
  | .inl key => (m.lookup key).map (·.dir)
  | .inr i => (gs[i]?).bind (·.dir)

/-- The task that has to have written the directory. -/
def Origins.author (o : Origins) : Holder → Option ℕ
  | .inl key => o.inserter key
  | .inr i => some i

/-- Every directory that is held has what its author wrote there, and none is in or above another. -/
structure DirInv (o : Origins) (w : World) (gs : List Putting) : Prop where
  content : ∀ k d, holds w.snapshots.entries gs k = some d →
    ∃ i g, o.author k = some i ∧ o.written d = some (i, g) ∧ w.host.snaps d = some g
  apart : ∀ k k' d d', holds w.snapshots.entries gs k = some d → holds w.snapshots.entries gs k' = some d' →
    k ≠ k' → ¬ d <+: d'

section Holders

variable {m : Cache} {gs : List Putting} {o o' : Origins} {w w' : World} {gs' : List Putting}

/-- The holders after a task has gone on and others were started. -/
theorem holds_next {i : ℕ} {g' : Putting} {ts : List Task} {k : Holder} {d : Path}
    (h : holds m (gs.set i g' ++ ts.map Putting.init) k = some d) :
    (k = .inr i ∧ g'.dir = some d) ∨ (k ≠ .inr i ∧ holds m gs k = some d) := by
  cases k with
  | inl key => exact .inr ⟨nofun, h⟩
  | inr j =>
    obtain ⟨u, hu, hd⟩ := Option.bind_eq_some_iff.mp h
    rw [List.getElem?_append] at hu
    split at hu
    · rcases getElem?_set_cases hu with ⟨rfl, rfl⟩ | ⟨hne, hj⟩
      · exact .inl ⟨rfl, hd⟩
      · refine .inr ⟨fun he => hne (Sum.inr.inj he), ?_⟩
        exact Option.bind_eq_some_iff.mpr ⟨u, hj, hd⟩
    · -- a new task has written nothing
      obtain ⟨t, -, rfl⟩ := List.mem_map.mp (List.mem_of_getElem? hu)
      have hnone : (Putting.init t).dir = none := by cases t <;> rfl
      rw [hnone] at hd
      cases hd

/-- The invariant after a step in which every holder has its directory from one holder before. -/
theorem DirInv.carry (h : DirInv o w gs) (φ : Holder → Holder)
    (hφ : ∀ k d, holds w'.snapshots.entries gs' k = some d →
      holds w.snapshots.entries gs (φ k) = some d ∧ o'.author k = o.author (φ k))
    (hinj : ∀ k k' d, holds w'.snapshots.entries gs' k = some d → holds w'.snapshots.entries gs' k' = some d →
      φ k = φ k' → k = k')
    (hfiles : ∀ k d, holds w'.snapshots.entries gs' k = some d → ∀ g, w.host.snaps d = some g →
      o'.written d = o.written d ∧ w'.host.snaps d = some g) : DirInv o' w' gs' := by
  refine ⟨fun k d hk => ?_, fun k k' d d' hk hk' hne => ?_⟩
  · obtain ⟨hold, hauth⟩ := hφ k d hk
    obtain ⟨i, g, hi, hwr, hsn⟩ := h.content (φ k) d hold
    obtain ⟨hwr', hsn'⟩ := hfiles k d hk g hsn
    exact ⟨i, g, hauth.trans hi, hwr'.trans hwr, hsn'⟩
  · intro hpre
    obtain ⟨hold, -⟩ := hφ k d hk
    obtain ⟨hold', -⟩ := hφ k' d' hk'
    by_cases he : φ k = φ k'
    · rw [he] at hold
      obtain rfl := Option.some.inj (hold.symm.trans hold')
      exact hne (hinj k k' d hk hk' he)
    · exact h.apart (φ k) (φ k') d d' hold hold' he hpre

/-- The same for a step in which the holders stay who they are. -/
theorem DirInv.keep (h : DirInv o w gs)
    (hold : ∀ k d, holds w'.snapshots.entries gs' k = some d →
      holds w.snapshots.entries gs k = some d ∧ o'.author k = o.author k)
    (hfiles : ∀ k d, holds w'.snapshots.entries gs' k = some d → ∀ g, w.host.snaps d = some g →
      o'.written d = o.written d ∧ w'.host.snaps d = some g) : DirInv o' w' gs' :=
  h.carry id hold (fun _ _ _ _ _ he => he) hfiles

end Holders

/-! ### The steps -/

/-- Every directory of an entry, and of a snapshot on its way into the table, passes the test. -/
def allHeld (x : DaemonConf) (P : Path → Bool) : Bool :=
  decide (∀ k ∈ x.shared.snapshots.entries.keys,
    ((x.shared.snapshots.entries.lookup k).all fun e => P e.dir) = true) &&
      x.threads.all fun t => (pending t).all P

/-- A snapshot is written to no directory that is held, and to none in or above one; and none that is held is
deleted together with a VM. -/
def careful (_ : Origins) (x : DaemonConf) : Event Action Answer Task → Bool
  | .act _ (.host (.api _ (.snapshot dest))) _ => allHeld x fun d => !dest.isPrefixOf d && !d.isPrefixOf dest
  | .act _ (.host (.removeDirAll p)) _ => allHeld x fun d => !p.isPrefixOf d
  | _ => true

theorem allHeld_holds {x : DaemonConf} {P : Path → Bool} (h : allHeld x P = true) {k : Holder} {d : Path}
    (hk : holds x.shared.snapshots.entries (x.threads.map (System.ghost putting Putting.init)) k = some d) :
    P d = true := by
  obtain ⟨hent, hthr⟩ := Bool.and_eq_true_iff.mp h
  cases k with
  | inl key =>
    obtain ⟨e, he, rfl⟩ := Option.map_eq_some_iff.mp hk
    have := of_decide_eq_true hent key (Finmap.mem_keys.mpr (Finmap.mem_of_lookup he))
    rwa [he, Option.all_some] at this
  | inr i =>
    obtain ⟨g, hg, hd⟩ := Option.bind_eq_some_iff.mp hk
    rw [List.getElem?_map] at hg
    obtain ⟨t, ht, rfl⟩ := Option.map_eq_some_iff.mp hg
    have := List.all_eq_true.mp hthr t (List.mem_of_getElem? ht)
    rwa [pending, hd, Option.all_some] at this

/-- All operations but the caching one only take entries out, and delete the directories of those. -/
theorem snap_takes {cfg : DaemonConfig} {s s' : Snapshots} {mtimes : Finmap (fun _ : String => ℕ)} {b : SnapAct}
    {c : Choice} {r : b.Answer} {dirs : List Path} (hb : ∀ key d m, b ≠ .cacheSnapshot key d m)
    (hp : s.perform cfg mtimes b c = some (r, s', dirs)) :
    (∀ k e', s'.entries.lookup k = some e' → ∃ e, s.entries.lookup k = some e ∧ e.dir = e'.dir ∧
        e.erofsMtime = e'.erofsMtime) ∧
      ∀ p ∈ dirs, ∃ k e, s.entries.lookup k = some e ∧ e.dir = p ∧ s'.entries.lookup k = none := by
  have hsame : some (r, s, []) = some (r, s', dirs) →
      (∀ k e', s'.entries.lookup k = some e' → ∃ e, s.entries.lookup k = some e ∧ e.dir = e'.dir ∧
          e.erofsMtime = e'.erofsMtime) ∧
        ∀ p ∈ dirs, ∃ k e, s.entries.lookup k = some e ∧ e.dir = p ∧ s'.entries.lookup k = none := by
    intro he
    obtain ⟨rfl, rfl⟩ := Prod.mk.inj (Prod.mk.inj (Option.some.inj he)).2
    exact ⟨fun k e hk => ⟨e, hk, rfl, rfl⟩, fun p hp => absurd hp List.not_mem_nil⟩
  cases b with
  | cacheSnapshot key d m => exact absurd rfl (hb key d m)
  | hasSnapshot key erofs =>
    simp only [Snapshots.perform] at hp
    split at hp
    · obtain ⟨rfl, -⟩ := Prod.mk.inj (Option.some.inj hp)
      exact hsame hp
    · next e he =>
      split at hp
      · obtain ⟨rfl, rfl⟩ := Prod.mk.inj (Prod.mk.inj (Option.some.inj hp)).2
        refine ⟨fun k e' hk => ?_, fun p hp => ?_⟩
        · exact ⟨e', (Finmap.lookup_of_erase hk).2, rfl, rfl⟩
        · obtain rfl := List.mem_singleton.mp hp
          refine ⟨key, e, he, rfl, ?_⟩
          rw [Finmap.lookup_erase_eq, if_pos rfl]
      · obtain ⟨rfl, -⟩ := Prod.mk.inj (Option.some.inj hp)
        exact hsame hp
  | getSnapshotDir key =>
    simp only [Snapshots.perform] at hp
    split at hp
    · obtain ⟨rfl, -⟩ := Prod.mk.inj (Option.some.inj hp)
      exact hsame hp
    · next e he =>
      obtain ⟨rfl, rfl⟩ := Prod.mk.inj (Prod.mk.inj (Option.some.inj hp)).2
      refine ⟨fun k e' hk => ?_, fun p hp => absurd hp List.not_mem_nil⟩
      rw [Finmap.lookup_insert_eq] at hk
      split at hk
      · next hkey =>
        rw [hkey, ← Option.some.inj hk]
        exact ⟨e, he, rfl, rfl⟩
      · exact ⟨e', hk, rfl, rfl⟩
  | shadowsContains key | shadowsInsert key | shadowsRemove key | shadowCount | snapshotKeys =>
    obtain ⟨rfl, rfl⟩ := Prod.mk.inj (Prod.mk.inj (Option.some.inj hp)).2
    exact ⟨fun k e hk => ⟨e, hk, rfl, rfl⟩, fun p hp => absurd hp List.not_mem_nil⟩

section Step

variable {E : Env} {o : Origins} {x : DaemonConf} {w' : World} {gs : List Putting} {i : ℕ} {g : Putting}
  {ts : List Task} {c : Choice}

/-- A task that at most gives its directory up. -/
theorem holds_back {m : Cache} {g' : Putting} (hi : gs[i]? = some g) (hg : ∀ d, g'.dir = some d → g.dir = some d)
    {k : Holder} {d : Path} (h : holds m (gs.set i g' ++ ts.map Putting.init) k = some d) :
    holds m gs k = some d := by
  rcases holds_next h with ⟨rfl, hd⟩ | ⟨-, hk⟩
  · exact Option.bind_eq_some_iff.mpr ⟨g, hi, hg d hd⟩
  · exact hk

/-- Entries that were there before, in a smaller table. -/
theorem holds_sub {m m' : Cache} (hm : ∀ k e', m'.lookup k = some e' → ∃ e, m.lookup k = some e ∧ e.dir = e'.dir)
    {k : Holder} {d : Path} (h : holds m' gs k = some d) : holds m gs k = some d := by
  cases k with
  | inl key =>
    obtain ⟨e', he', rfl⟩ := Option.map_eq_some_iff.mp h
    obtain ⟨e, he, hdir⟩ := hm key e' he'
    exact Option.map_eq_some_iff.mpr ⟨e, he, hdir⟩
  | inr j => exact h

/-- A directory that is deleted is in no other directory's way. -/
theorem DirInv.elsewhere {w : World} (h : DirInv o w gs) {key : String} {e : SnapshotEntry}
    (he : w.snapshots.entries.lookup key = some e) {k : Holder} {d : Path}
    (hk : holds w.snapshots.entries gs k = some d) (hne : k ≠ .inl key) : ¬ e.dir <+: d :=
  h.apart (.inl key) k e.dir d (Option.map_eq_some_iff.mpr ⟨e, he, rfl⟩) hk (Ne.symm hne)

theorem dirInv_snap {w : World} {b : SnapAct} {r : b.Answer} {g' : Putting} (hI : DirInv o w gs)
    (hi : gs[i]? = some g) (hg : ∀ d, g'.dir = some d → g.dir = some d)
    (hb : ∀ key d m, b ≠ .cacheSnapshot key d m) (hp : perform E w (.snap b) c = some (r, w')) :
    DirInv o w' (gs.set i g' ++ ts.map Putting.init) := by
  obtain ⟨s, dirs, hs, rfl⟩ := perform_snap hp
  obtain ⟨hent, hgone⟩ := snap_takes hb hs
  have hold : ∀ k d, holds s.entries (gs.set i g' ++ ts.map Putting.init) k = some d →
      holds w.snapshots.entries gs k = some d := by
    intro k d hk
    refine holds_sub (fun k' e' he' => ?_) (holds_back hi hg hk)
    obtain ⟨e, he, hdir, -⟩ := hent k' e' he'
    exact ⟨e, he, hdir⟩
  refine hI.keep (fun k d hk => ⟨hold k d hk, rfl⟩) fun k d hk u hu => ⟨rfl, ?_⟩
  refine (snaps_removeDirs w.host fun p hp => ?_).trans hu
  obtain ⟨key, e, he, rfl, hnone⟩ := hgone p hp
  refine hI.elsewhere he (hold k d hk) ?_
  rintro rfl
  obtain ⟨e', he', -⟩ := Option.map_eq_some_iff.mp hk
  rw [hnone] at he'
  cases he'

/-- The run's directory becomes the entry's. -/
theorem dirInv_cache {w : World} {key : String} {dir : Path} {mtime : Option ℕ} {r : Unit} (hI : DirInv o w gs)
    (hi : gs[i]? = some g) (hg : g.dir = some dir)
    (hp : perform E w (.snap (.cacheSnapshot key dir mtime)) c = some (r, w')) :
    DirInv { o with inserter := Function.update o.inserter key (some i) } w'
      (gs.set i ⟨g.shadow, none⟩ ++ ts.map Putting.init) := by
  obtain ⟨s, dirs, hs, rfl⟩ := perform_snap hp
  simp only [Snapshots.perform] at hs
  split at hs
  · cases hs
  next m' dirs' hev =>
  obtain ⟨rfl, rfl⟩ := Prod.mk.inj (Prod.mk.inj (Option.some.inj hs)).2
  obtain ⟨hent, hgone⟩ := evict_takes hev
  have hmine : holds w.snapshots.entries gs (.inr i) = some dir := Option.bind_eq_some_iff.mpr ⟨g, hi, hg⟩
  -- a holder has its directory from itself, but the new entry has it from the run
  let φ : Holder → Holder := fun k => if k = .inl key then .inr i else k
  have hφkey : φ (.inl key) = .inr i := if_pos rfl
  have hφ : ∀ {k}, k ≠ .inl key → φ k = k := fun hk => if_neg hk
  have hcases : ∀ k d, holds (m'.insert key ⟨dir, w.snapshots.clock + c.tick, mtime⟩)
      (gs.set i ⟨g.shadow, none⟩ ++ ts.map Putting.init) k = some d →
        (k = .inl key ∧ d = dir) ∨ (k ≠ .inl key ∧ k ≠ .inr i ∧ holds m' gs k = some d) := by
    intro k d hk
    rcases holds_next hk with ⟨-, hd⟩ | ⟨hne, hk⟩
    · cases hd
    cases k with
    | inr j => exact .inr ⟨Sum.inr_ne_inl, hne, hk⟩
    | inl k' =>
      obtain ⟨e, he, rfl⟩ := Option.map_eq_some_iff.mp hk
      rw [Finmap.lookup_insert_eq] at he
      by_cases hkey : k' = key
      · rw [if_pos hkey] at he
        exact .inl ⟨congrArg Sum.inl hkey, by rw [← Option.some.inj he]⟩
      · rw [if_neg hkey] at he
        exact .inr ⟨fun h => hkey (Sum.inl.inj h), Sum.inl_ne_inr, Option.map_eq_some_iff.mpr ⟨e, he, rfl⟩⟩
  have hsub : ∀ k d, holds m' gs k = some d → holds w.snapshots.entries gs k = some d :=
    fun k d hk => holds_sub (fun k' e he => ⟨e, hent k' e he, rfl⟩) hk
  refine hI.carry φ (fun k d hk => ?_) (fun k k' d hk hk' he => ?_) fun k d hk u hu => ⟨rfl, ?_⟩
  · rcases hcases k d hk with ⟨rfl, rfl⟩ | ⟨hkey, -, hk⟩
    · rw [hφkey]
      exact ⟨hmine, Function.update_self _ _ _⟩
    · rw [hφ hkey]
      refine ⟨hsub k d hk, ?_⟩
      cases k with
      | inl k' => exact Function.update_of_ne (fun h => hkey (congrArg Sum.inl h)) _ _
      | inr j => rfl
  · rcases hcases k d hk with ⟨rfl, -⟩ | ⟨hkey, hrun, -⟩
    · rcases hcases k' d hk' with ⟨rfl, -⟩ | ⟨hkey', hrun', -⟩
      · rfl
      · rw [hφkey, hφ hkey'] at he
        exact absurd he.symm hrun'
    · rcases hcases k' d hk' with ⟨rfl, -⟩ | ⟨hkey', -, -⟩
      · rw [hφkey, hφ hkey] at he
        exact absurd he hrun
      · rwa [hφ hkey, hφ hkey'] at he
  · refine (snaps_removeDirs w.host fun p hp => ?_).trans hu
    obtain ⟨key', e, he, rfl, hnone⟩ := hgone p hp
    rcases hcases k d hk with ⟨rfl, rfl⟩ | ⟨-, -, hk⟩
    · exact hI.elsewhere he hmine Sum.inr_ne_inl
    · refine hI.elsewhere he (hsub k d hk) ?_
      rintro rfl
      obtain ⟨e', he', -⟩ := Option.map_eq_some_iff.mp hk
      rw [hnone] at he'
      cases he'

/-- A snapshot is written away from all that are held; the run that wrote it may hold it now. -/
theorem dirInv_write {w : World} {sock dest : Path} {r : Except ApiFailure Unit} {g' : Putting} (hI : DirInv o w gs)
    (hi : gs[i]? = some g) (hg : ∀ d, g'.dir = some d → g.dir = some d ∨ (d = dest ∧ isError r = false))
    (hfar : ∀ k d, holds w.snapshots.entries gs k = some d → ¬ dest <+: d ∧ ¬ d <+: dest)
    (hp : perform E w (.host (.api sock (.snapshot dest))) c = some (r, w')) :
    DirInv (noteDirs o x (.act i (.host (.api sock (.snapshot dest))) r) w') w'
      (gs.set i g' ++ ts.map Putting.init) := by
  obtain ⟨h', hh, rfl⟩ := perform_host hp
  -- who held a directory still does, and the run may hold the new one
  have hcases : ∀ k d, holds w.snapshots.entries (gs.set i g' ++ ts.map Putting.init) k = some d →
      holds w.snapshots.entries gs k = some d ∨ (k = .inr i ∧ d = dest ∧ isError r = false) := by
    intro k d hk
    rcases holds_next hk with ⟨rfl, hd⟩ | ⟨-, hk⟩
    · rcases hg d hd with hd | ⟨rfl, hr⟩
      · exact .inl (Option.bind_eq_some_iff.mpr ⟨g, hi, hd⟩)
      · exact .inr ⟨rfl, rfl, hr⟩
    · exact .inl hk
  refine ⟨fun k d hk => ?_, fun k k' d d' hk hk' hne => ?_⟩
  · rcases hcases k d hk with hk | ⟨rfl, rfl, hr⟩
    · obtain ⟨j, u, hj, hwr, hsn⟩ := hI.content k d hk
      have hne : d ≠ dest := by
        rintro rfl
        exact (hfar k d hk).1 List.prefix_rfl
      refine ⟨j, u, hj, (Function.update_of_ne hne _ _).trans hwr, ?_⟩
      refine snaps_perform hh hsn (fun sock' dest' he => ?_) nofun
      cases he
      exact hne
    · cases r with
      | error e => cases hr
      | ok y =>
        obtain ⟨u, hu⟩ := snaps_written hh
        refine ⟨i, u, rfl, (Function.update_self _ _ _).trans ?_, hu⟩
        exact congrArg (Option.map (i, ·)) hu
  · rcases hcases k d hk with hk | ⟨rfl, rfl, -⟩
    · rcases hcases k' d' hk' with hk' | ⟨rfl, rfl, -⟩
      · exact hI.apart k k' d d' hk hk' hne
      · exact (hfar k d hk).2
    · rcases hcases k' d' hk' with hk' | ⟨rfl, -, -⟩
      · exact (hfar k' d' hk').1
      · exact absurd rfl hne

/-- The other calls of the host. -/
theorem dirInv_host {w : World} {b : HostAct} {r : b.Answer} {g' : Putting} (hI : DirInv o w gs)
    (hi : gs[i]? = some g) (hg : ∀ d, g'.dir = some d → g.dir = some d)
    (hb : ∀ sock dest, b ≠ .api sock (.snapshot dest))
    (hremove : ∀ p, b = .removeDirAll p → ∀ k d, holds w.snapshots.entries gs k = some d → ¬ p <+: d)
    (hp : perform E w (.host b) c = some (r, w')) : DirInv o w' (gs.set i g' ++ ts.map Putting.init) := by
  obtain ⟨h', hh, rfl⟩ := perform_host hp
  refine hI.keep (fun k d hk => ⟨holds_back hi hg hk, rfl⟩) fun k d hk u hu => ⟨rfl, ?_⟩
  exact snaps_perform hh hu (fun sock dest he => absurd he (hb sock dest))
    fun p he => hremove p he k d (holds_back hi hg hk)

/-- An action that is neither the manager's nor the host's. -/
theorem dirInv_frame {w : World} {g' : Putting} (hI : DirInv o w gs) (hi : gs[i]? = some g)
    (hg : ∀ d, g'.dir = some d → g.dir = some d) (hent : w'.snapshots = w.snapshots)
    (hsnaps : w'.host.snaps = w.host.snaps) : DirInv o w' (gs.set i g' ++ ts.map Putting.init) := by
  refine hI.keep (fun k d hk => ?_) fun k d hk u hu => ⟨rfl, hsnaps ▸ hu⟩
  rw [hent] at hk
  exact ⟨holds_back hi hg hk, rfl⟩

/-- Only the run that writes a snapshot comes to hold a directory. -/
theorem upd_dir {a : Action} (ha : ∀ sock dest, a ≠ .host (.api sock (.snapshot dest))) (r : Answer a) {d : Path}
    (h : (Putting.upd g a r).dir = some d) : g.dir = some d := by
  unfold Putting.upd at h
  split at h
  · next sock dest r => exact absurd rfl (ha sock dest)
  · split at h
    · cases h
    · exact h
  · cases h
  · exact h

theorem apart_of_careful {p d : Path} (h : (!p.isPrefixOf d) = true) : ¬ p <+: d := by
  intro hpre
  rw [List.isPrefixOf_iff_prefix.mpr hpre] at h
  cases h

theorem dirInv_step {a : Action} {r : Answer a} (hgs : gs = x.threads.map (System.ghost putting Putting.init))
    (hI : DirInv o x.shared gs) (hi : gs[i]? = some g) (hreq : Putting.req g a)
    (hp : perform E x.shared a c = some (r, w')) (hok : careful o x (.act i a r) = true) :
    DirInv (noteDirs o x (.act i a r) w') w' (gs.set i (Putting.upd g a r) ++ ts.map Putting.init) := by
  subst hgs
  cases a with
  | host b =>
    by_cases hb : ∃ sock dest, b = .api sock (.snapshot dest)
    · obtain ⟨sock, dest, rfl⟩ := hb
      refine dirInv_write hI hi (fun d hd => ?_) (fun k d hk => ?_) hp
      · have hupd : Putting.upd g (.host (.api sock (.snapshot dest))) r =
            if g.shadow && !isError r then ⟨true, some dest⟩ else g := rfl
        rw [hupd] at hd
        split at hd
        · next hsh =>
          obtain ⟨-, herr⟩ := Bool.and_eq_true_iff.mp hsh
          exact .inr ⟨(Option.some.inj hd).symm, by simpa using herr⟩
        · exact .inl hd
      · have hheld : allHeld x (fun d => !dest.isPrefixOf d && !d.isPrefixOf dest) = true := hok
        obtain ⟨h₁, h₂⟩ := Bool.and_eq_true_iff.mp (allHeld_holds hheld hk)
        exact ⟨apart_of_careful h₁, apart_of_careful h₂⟩
    · have hne : ∀ sock dest, b ≠ .api sock (.snapshot dest) := fun sock dest he => hb ⟨sock, dest, he⟩
      have hnote : noteDirs o x (.act i (.host b) r) w' = o := by
        unfold noteDirs
        split
        · next heq =>
          cases heq
          exact absurd rfl (hne _ _)
        · next heq => cases heq
        · rfl
      rw [hnote]
      refine dirInv_host hI hi (fun d => upd_dir (fun sock dest he => hne sock dest (Action.host.inj he)) r) hne
        (fun p he k d hk => ?_) hp
      subst he
      have hheld : allHeld x (fun d => !p.isPrefixOf d) = true := hok
      exact apart_of_careful (allHeld_holds hheld hk)
  | snap b =>
    by_cases hb : ∃ key d m, b = .cacheSnapshot key d m
    · obtain ⟨key, d, m, rfl⟩ := hb
      exact dirInv_cache hI hi hreq hp
    · have hne : ∀ key d m, b ≠ .cacheSnapshot key d m := fun key d m he => hb ⟨key, d, m, he⟩
      have hnote : noteDirs o x (.act i (.snap b) r) w' = o := by
        unfold noteDirs
        split
        · next heq => cases heq
        · next heq =>
          cases heq
          exact absurd rfl (hne _ _ _)
        · rfl
      rw [hnote]
      exact dirInv_snap hI hi (fun d => upd_dir (by simp) r) hne hp
  | pool b =>
    obtain ⟨-, rfl⟩ := perform_pool hp
    refine dirInv_frame hI hi (fun d => upd_dir (by simp) r) ?_ ?_
    · cases b <;> rfl
    · cases b <;> rfl
  | bindSocket =>
    rcases perform_bind hp with rfl | rfl
    · exact dirInv_frame hI hi (fun d => upd_dir (by simp) r) rfl rfl
    · exact dirInv_frame hI hi (fun d => upd_dir (by simp) r) rfl rfl
  | reply resp =>
    obtain ⟨-, rfl⟩ := Prod.mk.inj (Option.some.inj hp)
    refine dirInv_frame hI hi (fun d => upd_dir (by simp) r) ?_ ?_
    · cases resp <;> rfl
    · cases resp <;> rfl
  | _ =>
    obtain ⟨-, rfl⟩ := Prod.mk.inj (Option.some.inj hp)
    exact dirInv_frame hI hi (fun d => upd_dir (by simp) r) rfl rfl

end Step

/-! ### Whole runs -/

/-- A run of the daemon along which snapshots are written with care. -/
abbrev CarefulRun (E : Env) (h : Host) (o : Origins) (x : DaemonConf) : Prop :=
  (daemon E).Hist noteDirs (fun o x e => careful o x e = true) Origins.unknown (boot E h) o x

theorem dir_inv {E : Env} {h : Host} {o : Origins} {x : DaemonConf} (hh : CarefulRun E h o x) :
    DirInv o x.shared (x.threads.map (System.ghost putting Putting.init)) := by
  refine (System.Hist.invOn (fun _ => True) DirInv (fun _ => True) (fun t _ => body_putting t)
    (fun _ _ _ _ => trivial) ?_ ?_ (fun o x t hI _ _ => ⟨trivial, ?_⟩)
    (fun o x i g a c r w' hI hi hreq hp hok => ⟨trivial, dirInv_step rfl hI hi hreq hp hok⟩) hh).1
  · have hnone : ∀ k d, holds (World.start h).snapshots.entries
        ((boot E h).threads.map (System.ghost putting Putting.init)) k ≠ some d := by
      intro k d hk
      cases k with
      | inl key =>
        simp [holds, World.start, Snapshots.new] at hk
      | inr i =>
        obtain ⟨g, hg, hd⟩ := Option.bind_eq_some_iff.mp hk
        cases i with
        | zero =>
          obtain rfl := Option.some.inj hg
          cases hd
        | succ i => cases hg
    exact ⟨fun k d hk => absurd hk (hnone k d), fun k _ d _ hk => absurd hk (hnone k d)⟩
  · intro t ht
    obtain rfl := List.mem_singleton.mp ht
    exact body_putting .main
  · refine hI.keep (fun k d hk => ⟨?_, rfl⟩) fun _ _ _ _ hu => ⟨rfl, hu⟩
    cases k with
    | inl key => exact hk
    | inr j =>
      obtain ⟨g, hg, hd⟩ := Option.bind_eq_some_iff.mp hk
      rw [List.getElem?_append] at hg
      split at hg
      · exact Option.bind_eq_some_iff.mpr ⟨g, hg, hd⟩
      · obtain rfl := List.mem_singleton.mp (List.mem_of_getElem? hg)
        have hnone : (Putting.init t).dir = none := by cases t <;> rfl
        rw [hnone] at hd
        cases hd

/-- Every entry names a directory with the snapshot that the task wrote which entered it, and the directory of
every snapshot on its way into the table still has it. -/
structure DirsIntact (o : Origins) (x : DaemonConf) : Prop where
  entry : ∀ key e, x.shared.snapshots.entries.lookup key = some e →
    ∃ i g, o.inserter key = some i ∧ o.written e.dir = some (i, g) ∧ x.shared.host.snaps e.dir = some g
  onWay : ∀ (i : ℕ) t d, x.threads[i]? = some t → pending t = some d →
    ∃ g, o.written d = some (i, g) ∧ x.shared.host.snaps d = some g

theorem dirsIntact_of_run {E : Env} {h : Host} {o : Origins} {x : DaemonConf} (hh : CarefulRun E h o x) :
    DirsIntact o x := by
  have hI := dir_inv hh
  refine ⟨fun key e he => ?_, fun i t d ht hd => ?_⟩
  · exact hI.content (.inl key) e.dir (Option.map_eq_some_iff.mpr ⟨e, he, rfl⟩)
  · have hold : holds x.shared.snapshots.entries (x.threads.map (System.ghost putting Putting.init)) (.inr i) =
        some d := by
      refine Option.bind_eq_some_iff.mpr ⟨System.ghost putting Putting.init t, ?_, hd⟩
      rw [List.getElem?_map, ht, Option.map_some]
    obtain ⟨j, g, hj, hwr, hsn⟩ := hI.content (.inr i) d hold
    obtain rfl := Option.some.inj hj
    exact ⟨g, hwr, hsn⟩

/-- **The table and the disk agree.**  In every state of a run in which no snapshot is written to a directory that
an entry or a snapshot on its way has, nor in nor above one, and none of these is deleted together with a VM, every
entry's directory has the snapshot of the run that entered it, and evictions and invalidations delete no directory
of an entry that stays or is on its way. -/
theorem snapshot_dirs_intact {E : Env} {h : Host} {o : Origins} {x : DaemonConf}
    (hh : (daemon E).Hist noteDirs (fun o x e => careful o x e = true) Origins.unknown (boot E h) o x) :
    DirsIntact o x := dirsIntact_of_run hh

/-- A daemon with a pool of four and room for one snapshot. -/
def cacheOfOne : Env :=
  ⟨{ poolSize := 4, maxSnapshots := 1, rootfsPath := "/rootfs", stateDir := "/s" }, 7, fun _ => none⟩

def fourReady : List (Label Choice Task) :=
  steps 0 12 100 ++ steps 0 11 101 ++ steps 0 11 102 ++ steps 0 12 103

/-- A shadow run makes its snapshot and enters it. -/
def cachedOnce : List (Label Choice Task) :=
  fourReady ++ [.arrive (acquireKeyed "web")] ++ steps 1 10 0 ++ steps 3 14 0

theorem snapshot_dirs_intact_once : ∃ o x, CarefulRun cacheOfOne (Host.withBase cacheOfOne) o x ∧
    "web" ∈ x.shared.snapshots.entries ∧ DirsIntact o x := by
  have hrun : ((daemon cacheOfOne).execHist noteDirs careful Origins.unknown
      (boot cacheOfOne (Host.withBase cacheOfOne)) cachedOnce).any
        (fun q => decide ("web" ∈ q.2.shared.snapshots.entries)) = true := by
    decide +kernel
  obtain ⟨o, x, hx, hP⟩ := System.exists_hist hrun
  exact ⟨o, x, hx, of_decide_eq_true hP, snapshot_dirs_intact hx⟩

/-- Two requests for one image both start a shadow run, since both look for its key before either has entered it.
The second run writes over the snapshot of the first, and then evicts the first one's entry with the directory. -/
def cachedTwice : List (Label Choice Task) :=
  fourReady ++ [.arrive (acquireKeyed "web"), .arrive (acquireKeyed "web")] ++ steps 1 7 0 ++ steps 2 7 0 ++
    steps 1 1 0 ++ steps 2 1 0 ++ steps 5 14 0 ++ steps 6 13 0 ++ [.sched 6 { Choice.fine 0 with keys := ["web"] }]

theorem evicts_what_it_enters : ¬ ∀ (E : Env) (h : Host) (o : Origins) (x : DaemonConf),
    (daemon E).Hist noteDirs (fun _ _ _ => True) Origins.unknown (boot E h) o x → DirsIntact o x := by
  intro hall
  have hrun : ((daemon cacheOfOne).execHist noteDirs (fun _ _ _ => true) Origins.unknown
      (boot cacheOfOne (Host.withBase cacheOfOne)) cachedTwice).any (fun q =>
        (q.2.shared.snapshots.entries.lookup "web").any fun e => (q.2.shared.host.snaps e.dir).isNone) = true := by
    decide +kernel
  obtain ⟨o, x, hx, hP⟩ := System.exists_hist hrun
  obtain ⟨e, he, hnone⟩ := (Option.any_eq_true _ _).mp hP
  have hI := hall _ _ o x (hx.mono fun _ _ _ _ => trivial)
  obtain ⟨i, g, -, -, hsn⟩ := hI.entry "web" e he
  rw [hsn] at hnone
  cases hnone

end CloudHv.Daemon
