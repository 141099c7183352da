import CloudHv.Daemon.Ids

/-!
# ActiveCount — the counter beside the active table

`active_count` and the table `active` are changed in separate steps: a call that takes a VM in raises the
counter and then inserts, a release removes and then lowers the counter.  `Half` is what a call has done of
this.  The counter is the size of the table and the calls half done, for every interleaving in which no VM
goes in under an id that is in the table.
-/

namespace CloudHv.Daemon

open Conc

/-! ### Half-done calls -/

inductive Half where
  | idle
  /-- The counter is raised, the VM not inserted. -/
  | raised
  /-- The VM is removed, the counter not lowered. -/
  | removed
  deriving DecidableEq

namespace Half

def upd (g : Half) : (a : Action) → Answer a → Half
  | .pool .countAdd, _ => .raised
  | .pool (.activeInsert _), _ => .idle
  | .pool (.activeRemove _), r => if r.isSome then .removed else g
  | .pool .countSub, _ => .idle
  | _, _ => g

def req (g : Half) : Action → Prop
  | .pool .countAdd | .pool (.activeRemove _) => g = .idle
  | .pool (.activeInsert _) => g = .raised
  | .pool .countSub => g = .removed
  | _ => True

end Half

def halving : Discipline Action Answer Half := ⟨Half.upd, Half.req, fun _ _ _ => True⟩

def half (t : Thread Action Answer Task) : Half := System.ghost halving (fun _ => .idle) t

/-- The size of the active table, and the calls that have raised the counter and not inserted, or removed
and not lowered it. -/
def accounted (w : World) (gs : List Half) : ℕ :=
  w.pool.active.keys.card + gs.countP (fun g => decide (g = .raised)) + gs.countP (fun g => decide (g = .removed))

/-- A VM goes into the table under an id that is not there. -/
def insertsFresh (x : DaemonConf) : Event Action Answer Task → Bool
  | .act _ (.pool (.activeInsert vm)) _ => vm.vmId ∉ x.shared.pool.active
  | _ => true

/-- A VM that `restore_one` returns has an id that is neither in `ready` nor in `active`. -/
def restoresFresh (E : Env) (x : DaemonConf) : Event Action Answer Task → Bool
  | .act i (.host (.agentHealthy _)) b =>
    !b || match ((x.threads[i]?).map drawn).bind fun g => g.loads.head? with
      | some n => poolId E n ∉ x.shared.pool.ready.map (·.vmId) ∧ poolId E n ∉ x.shared.pool.active
      | none => true
  | _ => true

/-! ### The tasks -/

section Tasks

variable {E : Env}

def Half.settled (g : Half) : Prop := g = .idle

theorem halving_other {a : Action} (ha : a.kind ≠ .active) (hadd : a ≠ .pool .countAdd)
    (hsub : a ≠ .pool .countSub) : Keeps halving Half.settled (tell a) := by
  refine .tell fun g hg => ?_
  cases a with
  | pool b =>
    cases b <;> first | exact absurd rfl ha | exact absurd rfl hadd | exact absurd rfl hsub | exact ⟨trivial, fun _ _ => hg⟩
  | _ => exact ⟨trivial, fun _ _ => hg⟩

theorem halving_plain (a : Action) (ha : a.inner = false) : Keeps halving Half.settled (tell a) := by
  refine halving_other (fun hk => ?_) ?_ ?_
  · cases a with
    | pool b =>
      cases b with
      | activeInsert vm => cases ha
      | activeRemove id => cases ha
      | _ => cases hk
    | host b => cases b <;> cases hk
    | _ => cases hk
  · rintro rfl
    cases ha
  · rintro rfl
    cases ha

theorem registerActive_halving (vm : PoolVm) : Keeps halving Half.settled (registerActive vm) := by
  intro g hg
  unfold registerActive
  rw [wpx_bind, wpx_pool]
  exact ⟨hg, fun _ _ => wpx_pool.mpr ⟨rfl, fun _ _ => rfl⟩⟩

theorem release_halving (id : String) : Keeps halving Half.settled (release E id) := by
  intro g hg
  unfold release
  rw [wpx_bind, wpx_pool]
  refine ⟨hg, fun r _ => ?_⟩
  cases r with
  | some vm =>
    refine wpx_bind.mpr (wpx_pool.mpr ⟨rfl, fun _ _ => ?_⟩)
    exact destroy_keeps halving_plain id _ rfl
  | none => exact destroy_keeps halving_plain id g hg

theorem halving_parts : Parts halving Half.settled E := by
  have hother : ∀ a : Action, a.kind ≠ .active → a ≠ .pool .countAdd → a ≠ .pool .countSub →
      Keeps halving Half.settled (tell a) := fun _ => halving_other
  refine parts_of_actions halving_plain (restore_keeps halving_plain ?_) registerActive_halving release_halving
    (fun key erofs => trigger_keeps halving_plain key erofs ?_ ?_ ?_) (fun key dir mtime => ?_)
  · exact hother _ (fun hk => by cases hk) (by simp) (by simp)
  · exact hother _ (fun hk => by cases hk) (by simp) (by simp)
  · exact hother _ (fun hk => by cases hk) (by simp) (by simp)
  · exact hother _ (fun hk => by cases hk) (by simp) (by simp)
  · exact hother _ (fun hk => by cases hk) (by simp) (by simp)

end Tasks

/-! ### One step -/

section Step

variable {E : Env} {w w' : World} {gs : List Half} {i : ℕ} {g : Half} {c : Choice}

theorem increment_mod (n : ℕ) : increment (n % 18446744073709551616) = (n + 1) % 18446744073709551616 := by
  unfold increment
  split_ifs <;> omega

theorem decrement_mod {n : ℕ} (hn : 0 < n) : decrement (n % 18446744073709551616) = (n - 1) % 18446744073709551616 := by
  unfold decrement
  split_ifs <;> omega

def CountInv (w : World) (gs : List Half) : Prop := w.pool.activeCount = accounted w gs % 18446744073709551616

theorem card_insert {vm : PoolVm} {m : Finmap (fun _ : String => PoolVm)} (h : vm.vmId ∉ m) :
    (m.insert vm.vmId vm).keys.card = m.keys.card + 1 := by
  rw [Finmap.keys_insert, Finset.card_insert_of_notMem (fun hk => h (Finmap.mem_keys.mp hk))]

theorem card_erase {id : String} {m : Finmap (fun _ : String => PoolVm)} :
    (m.erase id).keys.card + (if (m.lookup id).isSome then 1 else 0) = m.keys.card := by
  have hkeys : (m.erase id).keys = m.keys.erase id := Finmap.keys_erase id m
  rw [hkeys]
  cases hl : m.lookup id with
  | some vm =>
    have hm : id ∈ m.keys := Finmap.mem_keys.mpr (Finmap.mem_of_lookup hl)
    have := Finset.card_erase_add_one hm
    simpa using this
  | none =>
    have hm : id ∉ m.keys := fun hk => Finmap.lookup_eq_none.mp hl (Finmap.mem_keys.mp hk)
    simp [Finset.erase_eq_of_notMem hm]

/-- Both counts after a step of task `i`. -/
theorem halves_set (hi : gs[i]? = some g) (g' : Half) :
    (gs.set i g').countP (fun g => decide (g = .raised)) + (if g = .raised then 1 else 0) =
        gs.countP (fun g => decide (g = .raised)) + (if g' = .raised then 1 else 0) ∧
      (gs.set i g').countP (fun g => decide (g = .removed)) + (if g = .removed then 1 else 0) =
        gs.countP (fun g => decide (g = .removed)) + (if g' = .removed then 1 else 0) := by
  have h1 := countP_set (fun g : Half => decide (g = .raised)) hi g'
  have h2 := countP_set (fun g : Half => decide (g = .removed)) hi g'
  simp only [decide_eq_true_eq] at h1 h2
  exact ⟨h1, h2⟩

/-- A call that is half done is accounted for. -/
theorem accounted_pos (hi : gs[i]? = some .removed) : 0 < accounted w gs := by
  have hpos : 0 < gs.countP (fun g => decide (g = .removed)) :=
    List.countP_pos_iff.mpr ⟨.removed, List.mem_of_getElem? hi, by decide⟩
  unfold accounted
  omega

theorem countAdd_inv (hI : CountInv w gs) (hi : gs[i]? = some .idle) :
    CountInv { w with pool := (w.pool.perform .countAdd).2 } (gs.set i .raised) := by
  obtain ⟨h1, h2⟩ := halves_set hi .raised
  simp only [reduceCtorEq, if_true, if_false] at h1 h2
  have hacc : accounted { w with pool := (w.pool.perform .countAdd).2 } (gs.set i .raised) = accounted w gs + 1 := by
    unfold accounted
    simp only [Pool.perform]
    omega
  show increment w.pool.activeCount = _
  rw [hacc, hI, increment_mod]

theorem activeInsert_inv (hI : CountInv w gs) (hi : gs[i]? = some .raised) {vm : PoolVm}
    (hfresh : vm.vmId ∉ w.pool.active) :
    CountInv { w with pool := (w.pool.perform (.activeInsert vm)).2 } (gs.set i .idle) := by
  obtain ⟨h1, h2⟩ := halves_set hi .idle
  have hcard := card_insert hfresh
  simp only [reduceCtorEq, if_true, if_false] at h1 h2
  have hacc : accounted { w with pool := (w.pool.perform (.activeInsert vm)).2 } (gs.set i .idle) = accounted w gs := by
    unfold accounted
    simp only [Pool.perform]
    omega
  show w.pool.activeCount = _
  rw [hacc, hI]

theorem activeRemove_inv (hI : CountInv w gs) (hi : gs[i]? = some .idle) (id : String) :
    CountInv { w.takeBack (.activeRemove id) with pool := (w.pool.perform (.activeRemove id)).2 }
      (gs.set i (if (w.pool.active.lookup id).isSome then .removed else .idle)) := by
  have hcard : (w.pool.active.erase id).keys.card + (if (w.pool.active.lookup id).isSome then 1 else 0) =
      w.pool.active.keys.card := card_erase
  have hacc : accounted { w.takeBack (.activeRemove id) with pool := (w.pool.perform (.activeRemove id)).2 }
      (gs.set i (if (w.pool.active.lookup id).isSome then .removed else .idle)) = accounted w gs := by
    unfold accounted
    simp only [Pool.perform]
    by_cases hsome : (w.pool.active.lookup id).isSome = true
    · obtain ⟨h1, h2⟩ := halves_set hi .removed
      simp only [reduceCtorEq, if_true, if_false] at h1 h2
      rw [if_pos hsome] at hcard ⊢
      omega
    · obtain ⟨h1, h2⟩ := halves_set hi .idle
      rw [if_neg hsome] at hcard ⊢
      omega
  show w.pool.activeCount = _
  rw [hacc, hI]

theorem countSub_inv (hI : CountInv w gs) (hi : gs[i]? = some .removed) :
    CountInv { w with pool := (w.pool.perform .countSub).2 } (gs.set i .idle) := by
  obtain ⟨h1, h2⟩ := halves_set hi .idle
  have hpos := accounted_pos (w := w) hi
  simp only [reduceCtorEq, if_true, if_false] at h1 h2
  have hacc : accounted { w with pool := (w.pool.perform .countSub).2 } (gs.set i .idle) = accounted w gs - 1 := by
    unfold accounted at *
    simp only [Pool.perform]
    omega
  show decrement w.pool.activeCount = _
  rw [hacc, hI, decrement_mod hpos]

/-- Only `countAdd` and `countSub` change the counter. -/
theorem count_frame {a : Action} {r : Answer a} (hp : perform E w a c = some (r, w')) (hadd : a ≠ .pool .countAdd)
    (hsub : a ≠ .pool .countSub) : w'.pool.activeCount = w.pool.activeCount := by
  by_cases hb : ∃ b, a = .pool b
  · obtain ⟨b, rfl⟩ := hb
    obtain ⟨-, rfl⟩ := perform_pool hp
    cases b <;> first | rfl | exact absurd rfl hadd | exact absurd rfl hsub
  · rw [pool_frame hp fun b he => hb ⟨b, he⟩]

theorem count_step (hI : CountInv w gs) (hi : gs[i]? = some g) {a : Action} {r : Answer a}
    (hreq : halving.req g a) (hp : perform E w a c = some (r, w'))
    (hok : ∀ vm, a = .pool (.activeInsert vm) → vm.vmId ∉ w.pool.active) :
    CountInv w' (gs.set i (halving.upd g a r)) := by
  by_cases hadd : a = .pool .countAdd
  · subst hadd
    obtain ⟨-, rfl⟩ := perform_pool hp
    obtain rfl : g = .idle := hreq
    exact countAdd_inv hI hi
  by_cases hsub : a = .pool .countSub
  · subst hsub
    obtain ⟨-, rfl⟩ := perform_pool hp
    obtain rfl : g = .removed := hreq
    exact countSub_inv hI hi
  by_cases ha : a.kind = .active
  · cases a with
    | pool b =>
      obtain ⟨rfl, rfl⟩ := perform_pool hp
      cases b with
      | activeInsert vm =>
        obtain rfl : g = .raised := hreq
        exact activeInsert_inv hI hi (hok vm rfl)
      | activeRemove id =>
        obtain rfl : g = .idle := hreq
        exact activeRemove_inv hI hi id
      | _ => cases ha
    | host b => cases b <;> cases ha
    | _ => cases ha
  · have hg : halving.upd g a r = g := by
      cases a with
      | pool b =>
        cases b <;> first | rfl | exact absurd rfl ha | exact absurd rfl hadd | exact absurd rfl hsub
      | _ => rfl
    have h1 := active_frame hp ha
    have h2 := count_frame hp hadd hsub
    rw [hg, set_self hi]
    unfold CountInv accounted
    rw [h1, h2]
    exact hI

end Step

/-! ### Runs -/

section Runs

variable {E : Env} {h : Host} {x : DaemonConf}

/-- A task that starts is not half done with anything. -/
theorem count_arrive {w : World} {gs new : List Half} (hI : CountInv w gs) (hnew : ∀ g ∈ new, g = .idle) :
    CountInv w (gs ++ new) := by
  have hzero : ∀ p : Half → Bool, p .idle = false → new.countP p = 0 := by
    intro p hp
    refine List.countP_eq_zero.mpr fun g hg => ?_
    rw [hnew g hg, hp]
    exact Bool.false_ne_true
  unfold CountInv accounted at *
  rw [List.countP_append, List.countP_append, hzero _ (by decide), hzero _ (by decide), Nat.add_zero, Nat.add_zero]
  exact hI

theorem count_inv (hx : (daemon E).Reach (fun x e => insertsFresh x e = true) (boot E h) x) :
    CountInv x.shared (x.threads.map half) ∧
      ∀ t ∈ x.threads, wp halving t.prog (fun _ g => g.settled) (half t) := by
  have hbody : ∀ t : Task, wp halving (t.body E) (fun _ g => g.settled) .idle := fun t =>
    halving_parts.body (fun _ => halving_other (fun hk => by cases hk) (by simp) (by simp)) t rfl
  refine System.Reach.inv CountInv Half.settled hbody ?_ ?_ ?_ ?_ hx
  · rfl
  · intro t ht
    obtain rfl := List.mem_singleton.mp ht
    exact hbody .main
  · intro x t hI _ _
    exact count_arrive hI fun g hg => List.mem_singleton.mp hg
  · intro x i g a c r w' hI hi hreq hp hok
    refine ⟨trivial, count_arrive (count_step hI hi hreq hp fun vm he => ?_) fun g hg => ?_⟩
    · subst he
      exact of_decide_eq_true hok
    · obtain ⟨t, -, rfl⟩ := List.mem_map.mp hg
      rfl

/-- What Status reports as `active_vms` is the counter. -/
theorem status_active (w : World) : semx (always (perform E)) handleStatus
    (fun p _ => ∃ ready shadows keys, p = .status ready w.pool.activeCount shadows keys) (fun _ _ => False) w := by
  unfold handleStatus
  refine semx_bind.mpr (semx_tell.mpr fun c n w₁ hp => ?_)
  obtain ⟨-, rfl⟩ := perform_pool hp
  refine semx_bind.mpr (semx_tell.mpr fun c m w₂ hp => ?_)
  obtain ⟨rfl, rfl⟩ := perform_pool hp
  refine semx_bind.mpr (semx_tell.mpr fun c k w₃ _ => ?_)
  refine semx_bind.mpr (semx_tell.mpr fun c keys w₄ _ => ?_)
  exact ⟨n, k, keys, rfl⟩

/-- **The counter and the active table.**  In every run in which no VM goes in under an id that is there:
the counter is the size of the table and the calls half done (in 64 bits), it is not lowered when there is
nothing to lower, and when no call is half done Status reports the size of the table. -/
theorem activeCount_eq (hx : (daemon E).Reach (fun x e => insertsFresh x e = true) (boot E h) x) :
    x.shared.pool.activeCount = accounted x.shared (x.threads.map half) % 18446744073709551616 ∧
    (∀ i r y, (daemon E).Step x (.act i (.pool .countSub) r) y →
      0 < accounted x.shared (x.threads.map half) ∧
        (accounted x.shared (x.threads.map half) < 18446744073709551616 → 0 < x.shared.pool.activeCount)) ∧
    (x.quiet = true → ∀ t ∈ x.threads, half t = .idle) ∧
    ((∀ t ∈ x.threads, half t = .idle) → ∀ cs p w',
      eval (perform E) handleStatus.run cs x.shared = some (.ok p, w', []) →
      ∃ ready shadows keys,
        p = .status ready (x.shared.pool.active.keys.card % 18446744073709551616) shadows keys) := by
  obtain ⟨hI, hW⟩ := count_inv hx
  refine ⟨hI, fun i r y hs => ?_, fun hq t ht => ?_, fun hidle cs p w' he => ?_⟩
  · generalize hev : Event.act (R := Answer) i (.pool .countSub) r = e at hs
    cases hs with
    | arrive => cases hev
    | @act j t a k l c r' s' hi hp =>
      obtain ⟨rfl, rfl, -⟩ := Event.act.inj hev
      have hreq : half ⟨t, .act _ k, l⟩ = .removed := (hW _ (List.mem_of_getElem? hi)).1
      have hpos : 0 < accounted x.shared (x.threads.map half) := by
        refine accounted_pos (i := i) ?_
        rw [List.getElem?_map, hi, Option.map_some, hreq]
      refine ⟨hpos, fun hlt => ?_⟩
      rw [hI, Nat.mod_eq_of_lt hlt]
      exact hpos
  · exact System.fin_of_quiet hq hW _ (List.mem_map_of_mem ht)
  · have hzero : accounted x.shared (x.threads.map half) = x.shared.pool.active.keys.card := by
      have hnone : ∀ q : Half → Bool, q .idle = false → (x.threads.map half).countP q = 0 := by
        intro q hq
        refine List.countP_eq_zero.mpr fun g hg => ?_
        obtain ⟨t, ht, rfl⟩ := List.mem_map.mp hg
        rw [hidle t ht, hq]
        exact Bool.false_ne_true
      unfold accounted
      rw [hnone _ (by decide), hnone _ (by decide), Nat.add_zero]
    obtain ⟨ready, shadows, keys, rfl⟩ := sem_always (status_active x.shared) he
    refine ⟨ready, shadows, keys, ?_⟩
    rw [hI, hzero]

end Runs

/-! ### Two runs -/

/-- A daemon that keeps no VMs ready. -/
def poolOfNone : Env := ⟨{ poolSize := 0, rootfsPath := "/rootfs", stateDir := "/s" }, 7, fun _ => none⟩

/-- Two acquires make the same id.  The first has its VM, and a release of that id clears the directory, so
that the second gets one too; then both put theirs in. -/
def sameIdTwice : List (Label Choice Task) :=
  steps 0 2 0 ++ [.arrive bareAcquire, .arrive bareAcquire, .arrive (.request (.releaseSandbox "pool-7-3"))] ++
    steps 1 2 0 ++ steps 2 2 0 ++ steps 1 9 101 ++ steps 3 6 0 ++ steps 2 9 102 ++ steps 1 2 0 ++ steps 2 2 0

/-- Neither restore yields an id that is in a table, and yet the counter goes wrong. -/
theorem same_id_twice_miscounts : ∃ x, (daemon poolOfNone).Reach (fun x e => restoresFresh poolOfNone x e = true)
    (boot poolOfNone (Host.withBase poolOfNone)) x ∧
    ¬ x.shared.pool.activeCount = accounted x.shared (x.threads.map half) := by
  have hrun : ((daemon poolOfNone).exec (restoresFresh poolOfNone) (boot poolOfNone (Host.withBase poolOfNone))
      sameIdTwice).any (fun x => decide (¬ x.shared.pool.activeCount = accounted x.shared (x.threads.map half))) =
      true := by
    decide +kernel
  obtain ⟨x, hx, hP⟩ := System.exists_reach hrun
  exact ⟨x, hx, of_decide_eq_true hP⟩

/-- An acquire that is released twice, while another one is half done. -/
def releasedTwice : List (Label Choice Task) :=
  steps 0 2 0 ++ [.arrive bareAcquire] ++ steps 1 15 101 ++ [.arrive bareAcquire,
    .arrive (.request (.releaseSandbox "pool-7-3")), .arrive (.request (.releaseSandbox "pool-7-3"))] ++
    steps 3 12 102 ++ steps 4 2 0 ++ steps 5 2 0

theorem activeCount_eq_releasedTwice : ∃ x, (daemon poolOfNone).Reach (fun x e => insertsFresh x e = true)
    (boot poolOfNone (Host.withBase poolOfNone)) x ∧ accounted x.shared (x.threads.map half) = 2 ∧
    x.shared.pool.activeCount = 2 := by
  have hrun : ((daemon poolOfNone).exec insertsFresh (boot poolOfNone (Host.withBase poolOfNone))
      releasedTwice).any (fun x => decide (accounted x.shared (x.threads.map half) = 2)) = true := by
    decide +kernel
  obtain ⟨x, hx, hP⟩ := System.exists_reach hrun
  have hacc := of_decide_eq_true hP
  refine ⟨x, hx, hacc, ?_⟩
  have hcount := (activeCount_eq hx).1
  rw [hacc] at hcount
  exact hcount

end CloudHv.Daemon
