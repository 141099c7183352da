import CloudHv.Daemon.PoolBound
import CloudHv.Daemon.Shadows

/-!
# Refill — what the ready list gets back

Every VM taken from the ready list is to be replaced: `handle_acquire` spawns a replenish task after its
`acquire`.  `run_shadow` acquires a VM in the same way and spawns nothing.  `due` counts the VMs that a
task will still put into the list or have put into it; the list and what is due to it stay at `pool_size`,
but for the pops of shadow runs.
-/

namespace CloudHv.Daemon

open Conc

/-! ### What is due to the list -/

/-- `due`: a VM for each round left of the filling loop, one for a replenish task that has not pushed and
not found the list full, one for a request that has popped a VM and not spawned its replenish task.
`restoring`: `restore_one` has started, and its VM is in no table yet. -/
structure Refill where
  role : Role
  due : ℕ
  restoring : Bool

namespace Refill

def init (cfg : DaemonConfig) (t : Task) : Refill :=
  match t.role with
  | .main => ⟨.main, cfg.poolSize, false⟩
  | .replenish => ⟨.replenish, 1, false⟩
  | ρ => ⟨ρ, 0, false⟩

def upd (cfg : DaemonConfig) (g : Refill) : (a : Action) → Answer a → Refill
  | .pool .readyPop, r => if g.role = .client ∧ r.isSome then { g with due := 1 } else g
  | .spawnReplenish, _ => { g with due := 0 }
  | .pool .readyLen, n => if g.role = .replenish ∧ cfg.poolSize ≤ n then { g with due := 0 } else g
  | .pool (.readyPush _), _ => { g with due := g.due - 1, restoring := false }
  | .pool .cidLoad, _ => { g with restoring := true }
  | .pool .countAdd, _ => { g with restoring := false }
  | _, _ => g

def req (g : Refill) : Action → Prop
  | .pool .readyPop => g.due = 0 ∧ (g.role = .client ∨ g.role = .shadow)
  | .spawnReplenish => g.due ≤ 1
  | .bindSocket => g.role = .main ∧ g.due = 0
  | _ => True

end Refill

/-- No step of `restore_one` fails. -/
def refilling (cfg : DaemonConfig) : Discipline Action Answer Refill :=
  ⟨Refill.upd cfg, Refill.req, fun g a r => g.restoring = true → failed a r = false⟩

def refill (cfg : DaemonConfig) (t : Thread Action Answer Task) : Refill :=
  System.ghost (refilling cfg) (Refill.init cfg) t

/-- Every `restore_one` succeeds. -/
def restoresSucceed (cfg : DaemonConfig) (x : DaemonConf) : Event Action Answer Task → Bool
  | .act i a r => (x.threads[i]?).all fun t => !((refill cfg t).restoring && failed a r)
  | _ => true

/-- A shadow run takes a VM off the list only when the list and what is due to it have one to spare. -/
def shadowsSpare (cfg : DaemonConfig) (x : DaemonConf) : Event Action Answer Task → Bool
  | .act i (.pool .readyPop) r => Option.isNone r || (x.threads[i]?).all (fun t => decide (t.task.role ≠ .shadow)) ||
      decide (cfg.poolSize < x.shared.pool.ready.length + (x.threads.map fun t => (refill cfg t).due).sum)
  | _ => true

/-! ### The tasks -/

section Tasks

variable {E : Env}

/-- A task of the role `ρ` to which nothing is due. -/
def Refill.paid (ρ : Role) (g : Refill) : Prop := g.role = ρ ∧ g.due = 0

/-- Actions that make nothing due, and pay nothing. -/
theorem refilling_plain {ρ : Role} {n : ℕ} (a : Action) (ha : a.kind ∉ [.pop, .push, .ready, .listen])
    (hs : a ≠ .spawnReplenish) : Keeps (refilling E.cfg) (fun g => g.role = ρ ∧ g.due = n) (tell a) := by
  refine .tell fun g hg => ?_
  cases a with
  | pool b => cases b <;> first | exact ⟨trivial, fun _ _ => hg⟩ | exact absurd (List.elem_iff.mp rfl) ha
  | spawnReplenish => exact absurd rfl hs
  | bindSocket => exact absurd (List.elem_iff.mp rfl) ha
  | _ => exact ⟨trivial, fun _ _ => hg⟩

theorem refilling_kinds {α : Type} {ρ : Role} {n : ℕ} {ks : List Kind} {m : M α} (h : Uses ks m)
    (hks : ks.all (fun k => !([.pop, .push, .ready, .listen, .task] : List Kind).elem k) = true) :
    Keeps (refilling E.cfg) (fun g => g.role = ρ ∧ g.due = n) m := by
  refine .kinds h hks fun a ha => refilling_plain a (fun hm => ha ?_) fun he => ha ?_
  · exact List.mem_append_left [Kind.task] hm
  · rw [he]
    exact List.elem_iff.mp rfl

/-- A task with nothing due can also look at the list, and start tasks; a shadow run can pop. -/
theorem paid_plain {ρ : Role} (hρ : ρ = .client ∨ ρ = .shadow ∨ ρ = .main) (a : Action)
    (ha : a.kind ∉ [.push, .listen]) (hpop : a.kind = .pop → ρ = .shadow) :
    Keeps (refilling E.cfg) (Refill.paid ρ) (tell a) := by
  refine .tell fun g hg => ?_
  obtain ⟨rfl, hd⟩ := hg
  cases a with
  | pool b =>
    cases b with
    | readyPop =>
      have hs := hpop rfl
      refine ⟨⟨hd, .inr hs⟩, fun r _ => ?_⟩
      have hno : ¬ (g.role = .client ∧ r.isSome) := by
        rw [hs]
        simp
      show (if g.role = .client ∧ r.isSome then { g with due := 1 } else g).paid g.role
      rw [if_neg hno]
      exact ⟨rfl, hd⟩
    | readyLen =>
      refine ⟨trivial, fun r _ => ?_⟩
      have hno : ¬ (g.role = .replenish ∧ E.cfg.poolSize ≤ r) := by
        rintro ⟨h, -⟩
        rw [h] at hρ
        simp at hρ
      show (if g.role = .replenish ∧ E.cfg.poolSize ≤ r then { g with due := 0 } else g).paid g.role
      rw [if_neg hno]
      exact ⟨rfl, hd⟩
    | readyPush vm => exact absurd (List.elem_iff.mp rfl) ha
    | _ => exact ⟨trivial, fun _ _ => ⟨rfl, hd⟩⟩
  | spawnReplenish =>
    refine ⟨?_, fun _ _ => ⟨rfl, rfl⟩⟩
    show g.due ≤ 1
    omega
  | bindSocket => exact absurd (List.elem_iff.mp rfl) ha
  | _ => exact ⟨trivial, fun _ _ => ⟨rfl, hd⟩⟩

theorem client_kinds {α : Type} {ks : List Kind} {m : M α} (h : Uses ks m)
    (hks : ks.all (fun k => !([.pop, .push, .listen] : List Kind).elem k) = true) :
    Keeps (refilling E.cfg) (Refill.paid .client) m := by
  refine .kinds h hks fun a ha => paid_plain (.inl rfl) a (fun hm => ha (List.mem_cons_of_mem _ hm)) fun hp => ?_
  exact absurd (by rw [hp]; simp) ha

/-- `restore_one` succeeds, and leaves what is due. -/
theorem restoreOne_refilling (ρ : Role) (n : ℕ) (b : Bool) :
    wpx (refilling E.cfg) (restoreOne E) (fun _ g => g = ⟨ρ, n, true⟩) (fun _ _ => False) ⟨ρ, n, b⟩ := by
  have hP : ∀ a : Action, a.kind ∈ [.file, .spawn, .pidFile, .ch, .agent] →
      (refilling E.cfg).req ⟨ρ, n, true⟩ a ∧ ∀ r, (refilling E.cfg).upd ⟨ρ, n, true⟩ a r = ⟨ρ, n, true⟩ := by
    intro a ha
    cases a with
    | pool b => cases b <;> simp [Action.kind, PoolAct.kind] at ha
    | spawnReplenish => simp [Action.kind] at ha
    | bindSocket => simp [Action.kind] at ha
    | _ => exact ⟨trivial, fun _ => rfl⟩
  unfold restoreOne
  refine wpx_bind.mpr (wpx_pool.mpr ⟨trivial, fun k _ => ?_⟩)
  refine wpx_bind.mpr (wpx_pool.mpr ⟨trivial, fun cid _ => ?_⟩)
  refine FailFast.wpx (restoreTail_strict E _ _ _ _) (fun a ha => ⟨(hP a ha).1, fun r _ _ => (hP a ha).2 r⟩)
    (fun vm => rfl) fun a r e _ hmay hbad => ?_
  have hgood : failed a r = false := hmay rfl
  rw [hgood] at hbad
  cases hbad

theorem fillPool_refilling : ∀ (k : ℕ) (b : Bool), wpx (refilling E.cfg) (fillPool E k)
    (fun _ g => g.paid .main) (fun _ _ => False) ⟨.main, k, b⟩
  | 0, _ => ⟨rfl, rfl⟩
  | k + 1, b => by
    unfold fillPool
    refine wpx_bind.mpr (wpx_attempt.mpr (wpx_mono (restoreOne_refilling .main (k + 1) b) ?_ fun _ _ hf => hf.elim))
    rintro vm g rfl
    exact wpx_bind.mpr (wpx_pool.mpr ⟨trivial, fun _ _ => fillPool_refilling k false⟩)

theorem createBaseSnapshot_refilling (ρ : Role) (n : ℕ) (base : Path) :
    Keeps (refilling E.cfg) (fun g => g.role = ρ ∧ g.due = n) (createBaseSnapshot E base) :=
  .bind (refilling_kinds (createDirAll_strict _).uses rfl) fun _ =>
  .bind (refilling_plain _ (by simp [Action.kind, PoolAct.kind]) (by simp)) fun _ =>
  .bind (refilling_kinds (createDirAll_strict _).uses rfl) fun _ =>
  .bind (.context (refilling_kinds (bootVm_strict _ _ _).uses rfl)) fun _ =>
  .bind (.context (refilling_kinds (waitForAgent_strict _).uses rfl)) fun _ =>
  .bind (refilling_kinds (apiRequest_strict _ _).uses rfl) fun _ =>
  .bind (refilling_kinds (apiRequest_strict _ _).uses rfl) fun _ =>
  .bind (refilling_plain _ (by simp [Action.kind, HostAct.kind]) (by simp)) fun _ =>
  .bind (refilling_plain _ (by simp [Action.kind, HostAct.kind]) (by simp)) fun _ =>
  .ite (refilling_plain _ (by simp [Action.kind, HostAct.kind]) (by simp))
    (.bind (refilling_plain _ (by simp [Action.kind, HostAct.kind]) (by simp)) fun _ =>
    .bind (refilling_plain _ (by simp [Action.kind]) (by simp)) fun _ =>
    refilling_plain _ (by simp [Action.kind, HostAct.kind]) (by simp))

theorem main_refilling : wp (refilling E.cfg) (mainTask E).toTask (fun _ g => g.role = .main ∨ g.due = 0)
    ⟨.main, E.cfg.poolSize, false⟩ := by
  have hbind : ∀ g : Refill, g.paid .main → wpx (refilling E.cfg) (ask (Prog.call (R := Answer) .bindSocket) id)
      (fun _ g => g.role = .main ∨ g.due = 0) (fun _ g => g.role = .main ∨ g.due = 0) g := by
    intro g hg
    refine wpx_ask.mpr ⟨hg, fun r _ => ?_⟩
    cases r <;> exact .inl hg.1
  have hfill : ∀ b, wpx (refilling E.cfg) (fillPool E E.cfg.poolSize)
      (fun _ g => wpx (refilling E.cfg) (ask (Prog.call (R := Answer) .bindSocket) id)
        (fun _ g => g.role = .main ∨ g.due = 0) (fun _ g => g.role = .main ∨ g.due = 0) g)
      (fun _ g => g.role = .main ∨ g.due = 0) ⟨.main, E.cfg.poolSize, b⟩ := fun b =>
    wpx_mono (fillPool_refilling E.cfg.poolSize b) (fun _ g hg => hbind g hg) fun _ _ hf => hf.elim
  refine wp_toTask ?_
  unfold mainTask initializePool
  refine wpx_bind.mpr (wpx_bind.mpr (wpx_host.mpr ⟨trivial, fun b _ => ?_⟩))
  cases b with
  | true => exact hfill false
  | false =>
    have hbase := createBaseSnapshot_refilling (E := E) .main E.cfg.poolSize E.cfg.baseSnapshotDir
    refine wpx_bind.mpr (wpx_mono (hbase _ ⟨rfl, rfl⟩) ?_ fun _ _ hg => .inl hg.1)
    rintro _ ⟨ρ, n, b⟩ ⟨rfl, rfl⟩
    exact hfill b

theorem replenish_refilling : wp (refilling E.cfg) (replenishTask E).toTask (fun _ g => g.role = .main ∨ g.due = 0)
    ⟨.replenish, 1, false⟩ := by
  refine wp_toTask ?_
  unfold replenishTask replenishOne
  refine wpx_bind.mpr (wpx_tell.mpr ⟨trivial, fun _ _ => ?_⟩)
  refine wpx_bind.mpr (wpx_pool.mpr ⟨trivial, fun n _ => ?_⟩)
  have hupd : (refilling E.cfg).upd ⟨.replenish, 1, false⟩ (.pool .readyLen) n =
      if E.cfg.poolSize ≤ n then ⟨.replenish, 0, false⟩ else ⟨.replenish, 1, false⟩ := by
    simp [refilling, Refill.upd]
  show wpx (refilling E.cfg) _ _ _ ((refilling E.cfg).upd ⟨.replenish, 1, false⟩ (.pool .readyLen) n)
  rw [hupd]
  by_cases hn : E.cfg.poolSize ≤ n
  · rw [if_pos hn, if_pos hn]
    exact .inr rfl
  · rw [if_neg hn, if_neg hn]
    refine wpx_bind.mpr (wpx_attempt.mpr (wpx_mono (restoreOne_refilling .replenish 1 false) ?_
      fun _ _ hf => hf.elim))
    rintro vm g rfl
    exact wpx_pool.mpr ⟨trivial, fun _ _ => .inr rfl⟩

/-- A request that got a VM from the list owes it one, and one that restored it does not. -/
theorem acquire_refilling {g : Refill} (hg : g.paid .client) : wpx (refilling E.cfg) (acquire E)
    (fun _ g' => g'.role = .client ∧ g'.due ≤ 1) (fun _ g' => g'.paid .client) g := by
  obtain ⟨ρ, n, b⟩ := g
  obtain ⟨rfl, rfl⟩ := hg
  unfold acquire
  refine wpx_bind.mpr (wpx_pool.mpr ⟨⟨rfl, .inl rfl⟩, fun r _ => ?_⟩)
  cases r with
  | some vm =>
    refine wpx_bind.mpr (wpx_bind.mpr (wpx_pool.mpr ⟨trivial, fun _ _ => wpx_pool.mpr ⟨trivial, fun _ _ => ?_⟩⟩))
    exact ⟨rfl, le_rfl⟩
  | none =>
    refine wpx_bind.mpr (wpx_mono (restoreOne_refilling .client 0 b) ?_ fun _ _ hf => hf.elim)
    rintro vm g rfl
    refine wpx_bind.mpr (wpx_bind.mpr (wpx_pool.mpr ⟨trivial, fun _ _ => wpx_pool.mpr ⟨trivial, fun _ _ => ?_⟩⟩))
    exact ⟨rfl, Nat.zero_le 1⟩

theorem acquirePool_refilling (req : AcquireRequest) :
    Keeps (refilling E.cfg) (Refill.paid .client) (acquirePool E req) := by
  intro g hg
  unfold acquirePool
  refine wpx_bind.mpr (wpx_attempt.mpr (wpx_mono (acquire_refilling hg) ?_ ?_))
  · intro vm g' hg'
    refine wpx_bind.mpr (wpx_tell.mpr ⟨hg'.2, fun _ _ => ?_⟩)
    refine (?_ : Keeps (refilling E.cfg) (Refill.paid .client) _) _ ⟨hg'.1, rfl⟩
    refine .bind (client_kinds (shadowFor_uses req) rfl) fun _ =>
      .bind (.attempt (client_kinds (acquireContainer_strict E req vm).uses rfl)) fun r => ?_
    rcases r with e | ⟨pid, tap⟩
    · exact .pure _
    · exact .pure _
  · intro e g' hg'
    cases e with
    | err e => exact hg'
    | panic => exact hg'

theorem request_refilling (r : Request) :
    Keeps (refilling E.cfg) (Refill.paid .client) (serve E r) := by
  have hreply : ∀ resp, Uses [.reply] (tell (.reply resp)) := fun _ => .tell rfl
  refine .bind ?_ fun resp => client_kinds (hreply resp) rfl
  rcases handle_call E r with ⟨req, rfl⟩ | ⟨id, rfl⟩ | ⟨m, hm, he⟩
  · refine .bind (client_kinds (hasWarmSnapshot_uses req) rfl) fun b => .ite ?_ (acquirePool_refilling req)
    refine .bind (client_kinds (acquireWarm_uses E req) rfl) fun r => ?_
    cases r with
    | some r => exact .pure _
    | none => exact acquirePool_refilling req
  · exact .bind (client_kinds (handleRelease_uses E id) rfl) fun _ => .pure _
  · rw [he]
    exact .bind (client_kinds hm rfl) fun _ => .pure _

theorem body_refilling (t : Task) : wp (refilling E.cfg) (t.body E) (fun _ g => g.role = .main ∨ g.due = 0)
    (Refill.init E.cfg t) := by
  cases t with
  | main => exact main_refilling
  | request r => exact wp_mono ((request_refilling r).toTask ⟨rfl, rfl⟩) fun _ g hg => .inr hg.2
  | replenish => exact replenish_refilling
  | shadow key erofs =>
    have hkeep : Keeps (refilling E.cfg) (Refill.paid .shadow) (shadowTask E key erofs) := by
      refine .uses (shadowTask_uses E key erofs) fun a ha => ?_
      exact paid_plain (.inr (.inl rfl)) a (fun hm => by
        have hno : ∀ k ∈ shadowKinds, k ∉ [Kind.push, .listen] := by decide
        exact hno _ ha hm) fun _ => rfl
    exact wp_mono (hkeep.toTask ⟨rfl, rfl⟩) fun _ g hg => .inr hg.2
  | touch f t => exact ⟨trivial, fun _ _ => .inr rfl⟩

end Tasks

/-! ### Runs -/

section Runs

variable {E : Env} {h : Host} {x : DaemonConf} {w w' : World} {c : Choice} {gs : List Refill} {i : ℕ} {g : Refill}

theorem role_upd (cfg : DaemonConfig) (g : Refill) (a : Action) (r : Answer a) :
    ((refilling cfg).upd g a r).role = g.role := by
  have hite : ∀ (p : Prop) [Decidable p] (n : ℕ), (if p then { g with due := n } else g).role = g.role := by
    intro p _ n
    split <;> rfl
  cases a with
  | pool b => cases b <;> first | rfl | exact hite _ _
  | _ => rfl

theorem role_refill (cfg : DaemonConfig) (t : Thread Action Answer Task) : (refill cfg t).role = t.task.role := by
  refine (System.ghost_reading (f := Refill.role) (role_upd cfg) t).trans ?_
  cases t.task <;> rfl

/-- Only a request comes to owe something after its start. -/
theorem due_upd_le {cfg : DaemonConfig} (hg : g.role ≠ .client) (a : Action) (r : Answer a) :
    ((refilling cfg).upd g a r).due ≤ g.due := by
  cases a with
  | pool b =>
    cases b with
    | readyPop =>
      show (if g.role = .client ∧ r.isSome then { g with due := 1 } else g).due ≤ g.due
      rw [if_neg fun h => hg h.1]
    | readyLen =>
      show (if g.role = .replenish ∧ cfg.poolSize ≤ r then { g with due := 0 } else g).due ≤ g.due
      split
      · exact Nat.zero_le _
      · exact le_rfl
    | readyPush vm => exact Nat.sub_le _ _
    | _ => exact le_rfl
  | spawnReplenish => exact Nat.zero_le _
  | _ => exact le_rfl

def Refill.isMain (g : Refill) : Option Unit := if g.role = .main then some () else none

structure RefillInv (cfg : DaemonConfig) (w : World) (gs : List Refill) : Prop where
  enough : cfg.poolSize ≤ w.pool.ready.length + (gs.map (·.due)).sum
  filled : w.listening = true → ∀ g ∈ gs, g.role = .main → g.due = 0
  single : Apart Refill.isMain gs
  others : ∀ g ∈ gs, g.role = .other → g.due = 0

/-- A pop is paid for by what comes to be due, but for a shadow run's. -/
theorem pop_pays (hreq : (refilling E.cfg).req g (.pool .readyPop)) :
    w.pool.ready.length + g.due ≤ w.pool.ready.dropLast.length +
      ((refilling E.cfg).upd g (.pool .readyPop) w.pool.ready.getLast?).due ∨
    (g.role = .shadow ∧ w.pool.ready ≠ [] ∧ w.pool.ready.length + g.due ≤ w.pool.ready.dropLast.length +
      ((refilling E.cfg).upd g (.pool .readyPop) w.pool.ready.getLast?).due + 1) := by
  have hdue : g.due = 0 := hreq.1
  show _ ≤ _ + (if g.role = .client ∧ (w.pool.ready.getLast?).isSome then { g with due := 1 } else g).due ∨ _
  rw [List.length_dropLast]
  by_cases hempty : w.pool.ready = []
  · rw [hempty, hdue]
    exact .inl (Nat.zero_le _)
  · rcases hreq.2 with hrole | hrole
    · have hsome : (w.pool.ready.getLast?).isSome := by
        rw [List.getLast?_eq_some_getLast hempty]
        rfl
      rw [if_pos ⟨hrole, hsome⟩]
      refine .inl ?_
      show _ ≤ _ + 1
      omega
    · exact .inr ⟨hrole, hempty, by omega⟩

/-- The list and what is due to it, in a step of one task. -/
theorem enough_step {a : Action} {r : Answer a}
    (henough : E.cfg.poolSize ≤ w.pool.ready.length + (gs.map (·.due)).sum) (hi : gs[i]? = some g)
    (hreq : (refilling E.cfg).req g a) (hp : perform E w a c = some (r, w'))
    (hspare : a = .pool .readyPop → g.role = .shadow → w.pool.ready ≠ [] →
      E.cfg.poolSize < w.pool.ready.length + (gs.map (·.due)).sum) :
    E.cfg.poolSize ≤ w'.pool.ready.length +
      ((gs.set i ((refilling E.cfg).upd g a r) ++ (spawned a r).map (Refill.init E.cfg)).map (·.due)).sum := by
  have hsum := sum_map_set (·.due) hi ((refilling E.cfg).upd g a r)
  rw [List.map_append, List.sum_append]
  generalize hnew : (((spawned a r).map (Refill.init E.cfg)).map (·.due)).sum = new
  have hpays : w.pool.ready.length + g.due ≤ w'.pool.ready.length + ((refilling E.cfg).upd g a r).due + new ∨
      E.cfg.poolSize ≤ w'.pool.ready.length ∨
      (E.cfg.poolSize < w.pool.ready.length + (gs.map (·.due)).sum ∧
        w.pool.ready.length + g.due ≤ w'.pool.ready.length + ((refilling E.cfg).upd g a r).due + new + 1) := by
    by_cases hpool : ∃ b, a = .pool b
    · obtain ⟨b, rfl⟩ := hpool
      obtain ⟨rfl, rfl⟩ := perform_pool hp
      obtain rfl : 0 = new := hnew
      cases b with
      | readyPop =>
        rcases pop_pays hreq with hle | ⟨hrole, hne, hle⟩
        · exact .inl hle
        · exact .inr (.inr ⟨hspare rfl hrole hne, hle⟩)
      | readyPush vm =>
        left
        show w.pool.ready.length + g.due ≤ (w.pool.ready ++ [vm]).length + (g.due - 1) + 0
        rw [List.length_append, List.length_singleton]
        omega
      | readyLen =>
        show _ ≤ _ + (if g.role = .replenish ∧ E.cfg.poolSize ≤ w.pool.ready.length then { g with due := 0 }
          else g).due + 0 ∨ _
        by_cases hfull : g.role = .replenish ∧ E.cfg.poolSize ≤ w.pool.ready.length
        · exact .inr (.inl hfull.2)
        · rw [if_neg hfull]
          exact .inl le_rfl
      | _ => exact .inl le_rfl
    · rw [pool_frame hp fun b he => hpool ⟨b, he⟩]
      left
      cases a with
      | pool b => exact absurd ⟨b, rfl⟩ hpool
      | spawnReplenish =>
        obtain rfl : 1 = new := hnew
        have hone : g.due ≤ 1 := hreq
        show _ ≤ _ + 0 + 1
        omega
      | _ => exact Nat.le_add_right _ _
  omega

theorem external_role {w : World} {t : Task} (ht : external w t = true) :
    (Refill.init E.cfg t).due = 0 ∧ (Refill.init E.cfg t).role ≠ .main := by
  cases t with
  | request r => exact ⟨rfl, by simp [Refill.init, Task.role]⟩
  | touch f t => exact ⟨rfl, by simp [Refill.init, Task.role]⟩
  | _ => cases ht

theorem spawned_role {a : Action} {r : Answer a} : ∀ u ∈ (spawned a r).map (Refill.init E.cfg),
    u.role ≠ .main ∧ u.role ≠ .other := by
  intro u hu
  cases a with
  | spawnReplenish =>
    obtain rfl := List.mem_singleton.mp hu
    exact ⟨by simp [Refill.init, Task.role], by simp [Refill.init, Task.role]⟩
  | spawnShadow key erofs =>
    obtain rfl := List.mem_singleton.mp hu
    exact ⟨by simp [Refill.init, Task.role], by simp [Refill.init, Task.role]⟩
  | _ => cases hu

theorem refill_step {a : Action} {r : Answer a} (hI : RefillInv E.cfg w gs) (hi : gs[i]? = some g)
    (hreq : (refilling E.cfg).req g a) (hp : perform E w a c = some (r, w'))
    (hspare : a = .pool .readyPop → g.role = .shadow → w.pool.ready ≠ [] →
      E.cfg.poolSize < w.pool.ready.length + (gs.map (·.due)).sum) :
    RefillInv E.cfg w' (gs.set i ((refilling E.cfg).upd g a r) ++ (spawned a r).map (Refill.init E.cfg)) := by
  -- a thread of a role other than a client's owes no more than one of its role did before
  have hold : ∀ u ∈ gs.set i ((refilling E.cfg).upd g a r) ++ (spawned a r).map (Refill.init E.cfg),
      u.role = .main ∨ u.role = .other → ∃ v ∈ gs, v.role = u.role ∧ u.due ≤ v.due := by
    intro u hu hrole
    rcases List.mem_append.mp hu with hu | hu
    · rcases List.mem_or_eq_of_mem_set hu with hu | rfl
      · exact ⟨u, hu, rfl, le_rfl⟩
      · rw [role_upd] at hrole
        refine ⟨g, List.mem_of_getElem? hi, (role_upd _ _ _ _).symm, due_upd_le (fun hc => ?_) a r⟩
        rw [hc] at hrole
        simp at hrole
    · obtain ⟨hm, ho⟩ := spawned_role u hu
      exact absurd hrole (by simp [hm, ho])
  refine ⟨enough_step hI.enough hi hreq hp hspare, fun hlisten u hu hrole => ?_, ?_, fun u hu hrole => ?_⟩
  · obtain ⟨v, hv, hrole', hle⟩ := hold u hu (.inl hrole)
    by_cases hbind : a = .bindSocket
    · -- the thread that listens is the only main task
      subst hbind
      obtain ⟨j, hj⟩ := List.getElem?_of_mem hv
      have hmain : ∀ {z : Refill}, z.role = .main → z.isMain = some () := fun hz => if_pos hz
      obtain rfl := hI.single i j g v () hi hj (hmain hreq.1) (hmain (hrole'.trans hrole))
      obtain rfl := Option.some.inj (hi.symm.trans hj)
      have hdue : g.due = 0 := hreq.2
      omega
    · rw [listening_frame hp hbind] at hlisten
      have hdue := hI.filled hlisten v hv (hrole'.trans hrole)
      omega
  · refine (hI.single.set fun k hk j u hj hu => ?_).append fun u hu => if_neg (spawned_role u hu).1
    have hkeep : ((refilling E.cfg).upd g a r).isMain = g.isMain := by
      unfold Refill.isMain
      rw [role_upd]
    exact hI.single j i u g k hj hi hu (hkeep ▸ hk)
  · obtain ⟨v, hv, hrole', hle⟩ := hold u hu (.inr hrole)
    have hdue := hI.others v hv (hrole'.trans hrole)
    omega

theorem refill_inv (hx : (daemon E).Reach (fun x e => (restoresSucceed E.cfg x e && shadowsSpare E.cfg x e) = true)
    (boot E h) x) : RefillInv E.cfg x.shared (x.threads.map (refill E.cfg)) ∧
    ∀ t ∈ x.threads, wp (refilling E.cfg) t.prog (fun _ g => g.role = .main ∨ g.due = 0) (refill E.cfg t) := by
  refine System.Reach.inv (RefillInv E.cfg) (fun g => g.role = .main ∨ g.due = 0) body_refilling ?_ ?_ ?_ ?_ hx
  · refine ⟨by simp [boot, System.init, System.start, System.ghost, Refill.init, Task.role], fun hl => (by cases hl), ?_,
      fun g hg hrole => ?_⟩
    · exact Apart.concat (l := []) (fun i j u v k hi => (by simp at hi)) fun _ _ u hu => (by cases hu)
    · obtain rfl := List.mem_singleton.mp hg
      cases hrole
  · intro t ht
    obtain rfl := List.mem_singleton.mp ht
    exact body_refilling .main
  · intro x t hI ht _
    obtain ⟨hdue, hrole⟩ := external_role (E := E) ht
    refine ⟨?_, fun hl u hu hm => ?_, hI.single.append fun u hu => ?_, fun u hu ho => ?_⟩
    · have henough := hI.enough
      rw [List.map_append, List.sum_append]
      omega
    · rcases List.mem_append.mp hu with hu | hu
      · exact hI.filled hl u hu hm
      · rw [List.mem_singleton.mp hu]
        exact hdue
    · rw [List.mem_singleton.mp hu]
      exact if_neg hrole
    · rcases List.mem_append.mp hu with hu | hu
      · exact hI.others u hu ho
      · rw [List.mem_singleton.mp hu]
        exact hdue
  · intro x i g a c r w' hI hi hreq hp hok
    obtain ⟨hgood, hspare⟩ := Bool.and_eq_true_iff.mp hok
    rw [List.getElem?_map] at hi
    obtain ⟨t, ht, rfl⟩ := Option.map_eq_some_iff.mp hi
    refine ⟨fun hr => ?_, refill_step hI (by rw [List.getElem?_map, ht]; rfl) hreq hp ?_⟩
    · have hgood' : (!((refill E.cfg t).restoring && failed a r)) = true := by
        simpa only [restoresSucceed, ht, Option.all_some] using hgood
      have hrest : (refill E.cfg t).restoring = true := hr
      rw [hrest] at hgood'
      simpa using hgood'
    · rintro rfl hrole hne
      change perform E x.shared (.pool .readyPop) c = some (r, w') at hp
      obtain ⟨rfl, -⟩ := perform_pool hp
      have hsome : (x.shared.pool.ready.getLast?).isNone = false := by
        rw [List.getLast?_eq_some_getLast hne]
        rfl
      have htask : t.task.role = .shadow := (role_refill E.cfg t).symm.trans hrole
      have hs : decide (E.cfg.poolSize < x.shared.pool.ready.length +
          (x.threads.map fun t => (refill E.cfg t).due).sum) = true := by
        simpa [shadowsSpare, ht, htask, Pool.perform, hsome] using hspare
      rw [List.map_map]
      exact of_decide_eq_true hs

/-- **The pool refills.**  In every run in which every `restore_one` succeeds and a shadow run takes a VM off
the list only when there is one to spare: when the daemon listens and no request, replenish task or shadow
task is in flight, the list has at least `pool_size` VMs. -/
theorem pool_refills
    (hx : (daemon E).Reach (fun x e => (restoresSucceed E.cfg x e && shadowsSpare E.cfg x e) = true) (boot E h) x)
    (hlisten : x.shared.listening = true)
    (hidle : ∀ t ∈ x.threads, t.task.role ∈ [.client, .replenish, .shadow] → t.prog.done = true) :
    E.cfg.poolSize ≤ x.shared.pool.ready.length := by
  obtain ⟨hI, hW⟩ := refill_inv hx
  have hzero : ((x.threads.map (refill E.cfg)).map (·.due)).sum = 0 := by
    refine List.sum_eq_zero fun n hn => ?_
    obtain ⟨g, hg, rfl⟩ := List.mem_map.mp hn
    obtain ⟨t, ht, rfl⟩ := List.mem_map.mp hg
    by_cases hm : (refill E.cfg t).role = .main
    · exact hI.filled hlisten _ hg hm
    · by_cases ho : (refill E.cfg t).role = .other
      · exact hI.others _ hg ho
      · have hserves : t.task.role ∈ [.client, .replenish, .shadow] := by
          rw [role_refill] at hm ho
          cases hrole : t.task.role <;> simp_all
        exact (System.fin_of_done (hidle t ht hserves) (hW t ht)).resolve_left hm
  have henough := hI.enough
  omega

end Runs

/-! ### Runs to evaluate -/

/-- An acquire whose VM is replaced, and then the shadow run for its image, whose VM is not. -/
def shadowTakes : List (Label Choice Task) :=
  filled ++ [.arrive acquireImage] ++ steps 1 10 0 ++ steps 2 13 102 ++ steps 3 21 0

theorem shadow_run_drains : ∃ x, (daemon poolOfTwo).Reach (fun x e => restoresSucceed poolOfTwo.cfg x e = true)
    (boot poolOfTwo (Host.withBase poolOfTwo)) x ∧ x.shared.listening = true ∧
    (∀ t ∈ x.threads, t.prog.done = true) ∧ ¬ poolOfTwo.cfg.poolSize ≤ x.shared.pool.ready.length := by
  have hrun : ((daemon poolOfTwo).exec (restoresSucceed poolOfTwo.cfg) (boot poolOfTwo (Host.withBase poolOfTwo))
      shadowTakes).any (fun x => decide (x.shared.listening = true ∧ (∀ t ∈ x.threads, t.prog.done = true) ∧
        ¬ poolOfTwo.cfg.poolSize ≤ x.shared.pool.ready.length)) = true := by
    decide +kernel
  obtain ⟨x, hx, hP⟩ := System.exists_reach hrun
  exact ⟨x, hx, of_decide_eq_true hP⟩

theorem pool_refills_after_acquire : ∃ x, (daemon poolOfOne).Reach
    (fun x e => (restoresSucceed poolOfOne.cfg x e && shadowsSpare poolOfOne.cfg x e) = true)
    (boot poolOfOne (Host.withBase poolOfOne)) x ∧ (∃ t ∈ x.threads, t.task = bareAcquire) ∧
    poolOfOne.cfg.poolSize ≤ x.shared.pool.ready.length := by
  have hrun : ((daemon poolOfOne).exec (fun x e => restoresSucceed poolOfOne.cfg x e && shadowsSpare poolOfOne.cfg x e)
      (boot poolOfOne (Host.withBase poolOfOne)) acquireAndRefill).any (fun x => decide (x.shared.listening = true ∧
        (∀ t ∈ x.threads, t.prog.done = true) ∧ ∃ t ∈ x.threads, t.task = bareAcquire)) = true := by
    decide +kernel
  obtain ⟨x, hx, hP⟩ := System.exists_reach hrun
  obtain ⟨hlisten, hdone, hreq⟩ := of_decide_eq_true hP
  exact ⟨x, hx, hreq, pool_refills hx hlisten fun t ht _ => hdone t ht⟩

end CloudHv.Daemon
