import CloudHv.Daemon.Rules

/-!
# PoolBound — how many VMs the ready list holds

`replenish_one` looks at the length of the ready list, lets the lock go, restores a VM and then pushes
it.  A call that has looked and not yet pushed owes the list a VM.  The list keeps to `pool_size` as
long as a call passes its check only when the VMs in the list and those still owed leave room for one
more; the check itself sees only the list, so two calls that overlap can both pass it.
-/

namespace CloudHv.Daemon

open Conc

/-! ### Owed VMs -/

/-- The pushes a task may still make: one after a passed length check, and `pool_size` for the filling
loop at the start. -/
structure Owed where
  checks : Bool
  due : ℕ

def Owed.init (cfg : DaemonConfig) : Task → Owed
  | .main => ⟨false, cfg.poolSize⟩
  | .replenish => ⟨true, 0⟩
  | _ => ⟨false, 0⟩

/-- A replenish task that fails owes nothing any more; the filling loop is over once the daemon
listens. -/
def Owed.upd (cfg : DaemonConfig) (g : Owed) : (a : Action) → Answer a → Owed
  | .pool .readyLen, n => if g.checks ∧ n < cfg.poolSize then ⟨true, 1⟩ else g
  | .pool (.readyPush _), _ => ⟨g.checks, g.due - 1⟩
  | .bindSocket, _ => ⟨g.checks, 0⟩
  | a, r => if g.checks && failed a r then ⟨true, 0⟩ else g

def Owed.req (g : Owed) : Action → Prop
  | .pool (.readyPush _) => 0 < g.due
  | .pool .readyLen => g.checks → g.due = 0
  | _ => True

def owing (cfg : DaemonConfig) : Discipline Action Answer Owed := ⟨Owed.upd cfg, Owed.req, fun _ _ _ => True⟩

/-- What a task of the daemon owes the ready list. -/
def owed (cfg : DaemonConfig) (t : Thread Action Answer Task) : ℕ :=
  (System.ghost (owing cfg) (Owed.init cfg) t).due

/-- A replenish task passes its length check only when the list and what is owed to it leave room. -/
def roomAtCheck (cfg : DaemonConfig) (x : DaemonConf) : Event Action Answer Task → Bool
  | .act i (.pool .readyLen) n =>
    !((x.threads[i]?).map (·.task) = some .replenish && n < cfg.poolSize) ||
      x.shared.pool.ready.length + (x.threads.map (owed cfg)).sum < cfg.poolSize
  | _ => true

def BoundInv (cfg : DaemonConfig) (w : World) (gs : List Owed) : Prop :=
  w.pool.ready.length + (gs.map (·.due)).sum ≤ cfg.poolSize

/-! ### The tasks -/

section Tasks

variable {E : Env}

/-- A task that makes no length check pays no attention to anything but pushes and listening. -/
theorem owing_plain {n : ℕ} {a : Action} (h : a.kind ≠ .push) (hl : a.kind ≠ .listen) :
    (owing E.cfg).req ⟨false, n⟩ a ∧ ∀ r, (owing E.cfg).may ⟨false, n⟩ a r →
      (owing E.cfg).upd ⟨false, n⟩ a r = ⟨false, n⟩ := by
  cases a with
  | pool b =>
    cases b with
    | readyPush vm => exact absurd rfl h
    | readyLen => exact ⟨fun hc => (by cases hc), fun _ _ => rfl⟩
    | _ => exact ⟨trivial, fun _ _ => rfl⟩
  | bindSocket => exact absurd rfl hl
  | _ => exact ⟨trivial, fun _ _ => rfl⟩

/-- A replenish task between its check and its push keeps its debt while nothing fails. -/
theorem owing_restore {a : Action} {n : ℕ} (h : a.kind ∈ [.counter, .file, .spawn, .pidFile, .ch, .agent]) :
    (owing E.cfg).req ⟨true, n⟩ a ∧ ∀ r, (owing E.cfg).may ⟨true, n⟩ a r → failed a r = false →
      (owing E.cfg).upd ⟨true, n⟩ a r = ⟨true, n⟩ := by
  have hupd : ∀ r, failed a r = false → (if true && failed a r then ⟨true, 0⟩ else ⟨true, n⟩ : Owed) =
      ⟨true, n⟩ := by
    intro r hr
    rw [hr]
    rfl
  cases a with
  | pool b =>
    cases b with
    | readyPush vm => simp [Action.kind, PoolAct.kind] at h
    | readyLen => simp [Action.kind, PoolAct.kind] at h
    | _ => exact ⟨trivial, fun r _ hr => hupd r hr⟩
  | bindSocket => simp [Action.kind] at h
  | _ => exact ⟨trivial, fun r _ hr => hupd r hr⟩

theorem uses_plain {ks : List Kind} {m : M Unit} {n : ℕ} (h : Uses ks m) (hp : Kind.push ∉ ks)
    (hl : Kind.listen ∉ ks) : wp (owing E.cfg) m.toTask (fun _ _ => True) ⟨false, n⟩ :=
  wp_toTask (Only.wp h (fun a ha => owing_plain (fun he => hp (he ▸ ha)) (fun he => hl (he ▸ ha)))
    (fun r => by cases r <;> trivial))

/-- The filling loop makes at most one push a round. -/
theorem fillPool_owing : ∀ (k n : ℕ), k ≤ n →
    wpx (owing E.cfg) (fillPool E k) (fun _ _ => True) (fun _ _ => True) ⟨false, n⟩
  | 0, _, _ => trivial
  | k + 1, n, hk => by
    unfold fillPool
    rw [wpx_bind, wpx_attempt]
    have hP : ∀ a : Action, a.kind ∈ [.counter, .file, .spawn, .pidFile, .ch, .agent] →
        (owing E.cfg).req ⟨false, n⟩ a ∧ ∀ r, (owing E.cfg).may ⟨false, n⟩ a r →
          (owing E.cfg).upd ⟨false, n⟩ a r = ⟨false, n⟩ := fun a ha =>
      owing_plain (by rintro he; simp [he] at ha) (by rintro he; simp [he] at ha)
    refine FailFast.wpx (restoreOne_strict E) (fun a ha => ⟨(hP a ha).1, fun r hr _ => (hP a ha).2 r hr⟩)
      (fun vm => ?_) (fun a r e ha hr _ => ?_)
    · rw [wpx_bind, wpx_pool]
      refine ⟨by show 0 < n; omega, fun _ _ => ?_⟩
      exact fillPool_owing k (n - 1) (by omega)
    · rw [(hP a ha).2 r hr]
      cases e with
      | panic => trivial
      | err e => exact fillPool_owing k n (by omega)

theorem main_owing : wp (owing E.cfg) (mainTask E).toTask (fun _ _ => True) ⟨false, E.cfg.poolSize⟩ := by
  have hfill := fillPool_owing (E := E) E.cfg.poolSize E.cfg.poolSize le_rfl
  have hbind : ∀ g : Owed, wpx (owing E.cfg) (ask (Prog.call (R := Answer) .bindSocket) id)
      (fun _ _ => True) (fun _ _ => True) g := fun g =>
    wpx_ask.mpr ⟨trivial, fun r _ => by cases r <;> trivial⟩
  refine wp_toTask ?_
  unfold mainTask initializePool
  rw [wpx_bind, wpx_bind, wpx_host]
  refine ⟨trivial, fun b _ => ?_⟩
  cases b with
  | true => exact wpx_mono hfill (fun _ g _ => hbind g) (fun _ _ _ => trivial)
  | false =>
    refine wpx_bind.mpr (Only.wp (createBaseSnapshot_uses E _) (fun a ha => ?_) (fun r => ?_))
    · exact owing_plain (by rintro he; simp [he] at ha) (by rintro he; simp [he] at ha)
    · cases r with
      | ok u => exact wpx_mono hfill (fun _ g _ => hbind g) (fun _ _ _ => trivial)
      | error e => trivial

theorem replenish_owing : wp (owing E.cfg) (replenishTask E).toTask (fun _ _ => True) ⟨true, 0⟩ := by
  refine wp_toTask ?_
  unfold replenishTask replenishOne
  rw [wpx_bind, wpx_tell]
  refine ⟨trivial, fun _ _ => ?_⟩
  rw [wpx_bind, wpx_pool]
  refine ⟨fun _ => rfl, fun n _ => ?_⟩
  by_cases hn : E.cfg.poolSize ≤ n
  · rw [if_pos hn]
    trivial
  · rw [if_neg hn]
    have hg : (owing E.cfg).upd ⟨true, 0⟩ (.pool .readyLen) n = ⟨true, 1⟩ := if_pos ⟨rfl, Nat.lt_of_not_le hn⟩
    show wpx (owing E.cfg) _ _ _ ((owing E.cfg).upd ⟨true, 0⟩ (.pool .readyLen) n)
    rw [hg, wpx_bind, wpx_attempt]
    refine FailFast.wpx (restoreOne_strict E) (fun a ha => owing_restore ha) (fun vm => ?_)
      (fun a r e _ _ _ => ?_)
    · exact wpx_pool.mpr ⟨Nat.one_pos, fun _ _ => trivial⟩
    · cases e <;> trivial

theorem body_owing (t : Task) :
    wp (owing E.cfg) (t.body E) (fun _ _ => True) (Owed.init E.cfg t) := by
  cases t with
  | main => exact main_owing
  | request r => exact uses_plain (serve_uses E r) (by simp [requestKinds]) (by simp [requestKinds])
  | replenish => exact replenish_owing
  | shadow key erofs =>
    exact uses_plain (shadowTask_uses E key erofs) (by simp [shadowKinds]) (by simp [shadowKinds])
  | touch f t => exact ⟨trivial, fun _ _ => trivial⟩

end Tasks

/-! ### Runs -/

/-- Only pops and pushes change the length of the ready list. -/
theorem ready_step {E : Env} {w w' : World} {a : Action} {c : Choice} {r : Answer a}
    (h : perform E w a c = some (r, w')) (hpush : ∀ vm, a ≠ .pool (.readyPush vm)) :
    w'.pool.ready.length ≤ w.pool.ready.length := by
  by_cases hb : ∃ b, a = .pool b
  · obtain ⟨b, rfl⟩ := hb
    obtain ⟨-, rfl⟩ := perform_pool h
    cases b with
    | readyPush vm => exact absurd rfl (hpush vm)
    | readyPop => simp [Pool.perform]
    | _ => exact le_rfl
  · rw [pool_frame h fun b he => hb ⟨b, he⟩]

/-- What a task owes goes up only at a length check. -/
theorem due_upd (cfg : DaemonConfig) (g : Owed) (a : Action) (r : Answer a) (ha : a ≠ .pool .readyLen) :
    ((owing cfg).upd g a r).due ≤ g.due := by
  cases a with
  | pool b =>
    cases b with
    | readyLen => exact absurd rfl ha
    | readyPush vm => exact Nat.sub_le _ _
    | _ =>
      simp only [owing, Owed.upd]
      split <;> simp
  | bindSocket => exact Nat.zero_le _
  | _ =>
    simp only [owing, Owed.upd]
    split <;> simp

theorem checks_upd (cfg : DaemonConfig) (g : Owed) (a : Action) (r : Answer a) :
    ((owing cfg).upd g a r).checks = g.checks := by
  have hite : ∀ (p : Prop) [Decidable p] (n : ℕ), (p → g.checks = true) →
      (if p then ⟨true, n⟩ else g : Owed).checks = g.checks := by
    intro p _ n hp
    split
    · next h => exact (hp h).symm
    · rfl
  cases a with
  | pool b =>
    cases b with
    | readyLen => exact hite _ 1 And.left
    | readyPush vm => rfl
    | _ => exact hite _ 0 fun h => (Bool.and_eq_true _ _ ▸ h).1
  | bindSocket => rfl
  | _ => exact hite _ 0 fun h => (Bool.and_eq_true _ _ ▸ h).1

/-- The tasks that make length checks are the replenish tasks. -/
theorem task_of_checks {cfg : DaemonConfig} {t : Thread Action Answer Task}
    (h : (System.ghost (owing cfg) (Owed.init cfg) t).checks = true) : t.task = .replenish := by
  have h' := (System.ghost_reading (f := Owed.checks) (checks_upd cfg) t).symm.trans h
  cases ht : t.task with
  | replenish => rfl
  | _ => rw [ht] at h'; cases h'

/-- One action keeps the bound. -/
theorem bound_step {E : Env} {x : DaemonConf} {i : ℕ} {g : Owed} {a : Action} {c : Choice} {r : Answer a}
    {w' : World}
    (hI : BoundInv E.cfg x.shared (x.threads.map (System.ghost (owing E.cfg) (Owed.init E.cfg))))
    (hi : (x.threads.map (System.ghost (owing E.cfg) (Owed.init E.cfg)))[i]? = some g)
    (hreq : (owing E.cfg).req g a) (hp : perform E x.shared a c = some (r, w'))
    (hok : roomAtCheck E.cfg x (.act i a r) = true) :
    BoundInv E.cfg w' ((x.threads.map (System.ghost (owing E.cfg) (Owed.init E.cfg))).set i
      ((owing E.cfg).upd g a r) ++ (spawned a r).map (Owed.init E.cfg)) := by
  have hnew : (((spawned a r).map (Owed.init E.cfg)).map (·.due)).sum = 0 := by
    cases a <;> rfl
  have hsum := sum_map_set (·.due) hi ((owing E.cfg).upd g a r)
  unfold BoundInv at *
  rw [List.map_append, List.sum_append, hnew]
  by_cases hpush : ∃ vm, a = .pool (.readyPush vm)
  · -- the pushed VM was owed
    obtain ⟨vm, rfl⟩ := hpush
    obtain ⟨-, rfl⟩ := perform_pool hp
    have hdue : 0 < g.due := hreq
    have hupd : ((owing E.cfg).upd g (.pool (.readyPush vm)) r).due = g.due - 1 := rfl
    have hlen : (x.shared.pool.perform (.readyPush vm)).2.ready.length = x.shared.pool.ready.length + 1 := by
      simp [Pool.perform]
    show (x.shared.pool.perform (.readyPush vm)).2.ready.length + _ ≤ _
    omega
  · have hlen := ready_step hp fun vm he => hpush ⟨vm, he⟩
    by_cases hcheck : a = .pool .readyLen
    · subst hcheck
      by_cases hg : g.checks ∧ r < E.cfg.poolSize
      · -- a passed check: the condition leaves room for what it owes from now on
        have hupd : ((owing E.cfg).upd g (.pool .readyLen) r).due = 1 := by
          show (if g.checks ∧ r < E.cfg.poolSize then (⟨true, 1⟩ : Owed) else g).due = 1
          rw [if_pos hg]
        have hdue : g.due = 0 := hreq hg.1
        have htask : (x.threads[i]?).map (·.task) = some Task.replenish := by
          rw [List.getElem?_map, Option.map_eq_some_iff] at hi
          obtain ⟨t, ht, rfl⟩ := hi
          rw [ht, Option.map_some, task_of_checks hg.1]
        have hroom : x.shared.pool.ready.length + (x.threads.map (owed E.cfg)).sum < E.cfg.poolSize := by
          simpa [roomAtCheck, htask, hg.2] using hok
        have howed : (x.threads.map (owed E.cfg)).sum = ((x.threads.map
            (System.ghost (owing E.cfg) (Owed.init E.cfg))).map (·.due)).sum := by
          rw [List.map_map]
          rfl
        omega
      · have hupd : (owing E.cfg).upd g (.pool .readyLen) r = g := if_neg hg
        rw [hupd] at hsum ⊢
        omega
    · have hdue := due_upd E.cfg g a r hcheck
      omega

theorem bound_inv {E : Env} {h : Host} {x : DaemonConf}
    (hx : (daemon E).Reach (fun x e => roomAtCheck E.cfg x e = true) (boot E h) x) :
    BoundInv E.cfg x.shared (x.threads.map (System.ghost (owing E.cfg) (Owed.init E.cfg))) := by
  refine (System.Reach.inv (BoundInv E.cfg) (fun _ => True) (fun t => body_owing t) ?_ ?_ ?_ ?_ hx).1
  · simp [BoundInv, boot, System.init, World.start, Pool.new, System.start, System.ghost, Owed.init]
  · intro t ht
    simp only [boot, System.init, List.mem_singleton] at ht
    subst ht
    exact body_owing .main
  · intro x t hI hext _
    have h0 : (Owed.init E.cfg t).due = 0 := by
      cases t <;> first | rfl | exact absurd hext (by simp [daemon, external])
    unfold BoundInv at *
    rw [List.map_append, List.sum_append]
    simpa [h0] using hI
  · intro x i g a c r w' hI hi hreq hp hok
    exact ⟨trivial, bound_step hI hi hreq hp hok⟩

/-- **The pool stays within its size.**  In every run in which each replenish task passes its length
check only when there is room for what is in the list and still owed to it, the ready list never has
more than `pool_size` VMs; nor more than the hard cap, where the configuration puts it above. -/
theorem ready_le_poolSize {E : Env} {h : Host} {x : DaemonConf}
    (hx : (daemon E).Reach (fun x e => roomAtCheck E.cfg x e = true) (boot E h) x) :
    x.shared.pool.ready.length ≤ E.cfg.poolSize ∧
      (E.cfg.poolSize ≤ E.cfg.maxPoolSize → x.shared.pool.ready.length ≤ E.cfg.maxPoolSize) := by
  have hI := bound_inv hx
  unfold BoundInv at hI
  exact ⟨by omega, fun _ => by omega⟩

/-! ### Two runs -/

/-- The pool is filled; one acquire takes its VM, another restores one for itself.  Both replenish
tasks look at the empty list before either of them has pushed. -/
def burst : List (Label Choice Task) :=
  steps 0 13 100 ++ [.arrive bareAcquire] ++ steps 1 5 101 ++ [.arrive bareAcquire] ++ steps 3 15 102 ++
    steps 2 2 103 ++ steps 4 2 104 ++ steps 2 11 103 ++ steps 4 11 104

/-- Two replenish tasks that overlap overfill the pool. -/
theorem burst_overfills : ∃ x, (daemon poolOfOne).Reach (fun _ _ => True)
    (boot poolOfOne (Host.withBase poolOfOne)) x ∧
    ¬ x.shared.pool.ready.length ≤ poolOfOne.cfg.poolSize := by
  have hrun : ((daemon poolOfOne).exec (fun _ _ => true) (boot poolOfOne (Host.withBase poolOfOne))
      burst).any (fun x => decide (¬ x.shared.pool.ready.length ≤ poolOfOne.cfg.poolSize)) = true := by
    decide +kernel
  obtain ⟨x, hx, hP⟩ := System.exists_reach hrun
  exact ⟨x, hx.mono fun _ _ _ => trivial, of_decide_eq_true hP⟩

/-- One acquire and its replenish task, which puts back what was taken. -/
def acquireAndRefill : List (Label Choice Task) :=
  steps 0 13 100 ++ [.arrive bareAcquire] ++ steps 1 5 101 ++ steps 2 13 102

theorem ready_le_poolSize_refilled : ∃ x, (daemon poolOfOne).Reach
    (fun x e => roomAtCheck poolOfOne.cfg x e = true) (boot poolOfOne (Host.withBase poolOfOne)) x ∧
    x.shared.pool.ready.length = 1 ∧ x.shared.pool.ready.length ≤ poolOfOne.cfg.poolSize := by
  have hrun : ((daemon poolOfOne).exec (roomAtCheck poolOfOne.cfg)
      (boot poolOfOne (Host.withBase poolOfOne)) acquireAndRefill).any
      (fun x => decide (x.shared.pool.ready.length = 1)) = true := by decide +kernel
  obtain ⟨x, hx, hP⟩ := System.exists_reach hrun
  exact ⟨x, hx, of_decide_eq_true hP, (ready_le_poolSize hx).1⟩

end CloudHv.Daemon
