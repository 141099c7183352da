import Mathlib
import CloudHv.Daemon.Parts
import CloudHv.Daemon.Names

/-!
# Ids — the ids of restored VMs

`restore_one` makes its VM id of the CID counter's value, which it loads, and then takes a CID with a
separate `fetch_add`.  The ids are all different as long as the counter is not loaded a second time before it
is raised, and does not come round to its first value again.
-/

namespace CloudHv.Daemon

open Conc

/-! ### What a task has drawn -/

/-- The values of the counter a task has made ids of, and whether it has yet to take the CID to the last
one. -/
structure Drawn where
  pending : Bool
  loads : List ℕ

namespace Drawn

def upd (g : Drawn) : (a : Action) → Answer a → Drawn
  | .pool .cidLoad, n => ⟨true, n :: g.loads⟩
  | .pool .cidFetchAdd, _ => ⟨false, g.loads⟩
  | _, _ => g

def req (g : Drawn) : Action → Prop
  | .pool .cidLoad => g.pending = false
  | _ => True

/-- The value the task has loaded, until it takes the CID to it. -/
def held (g : Drawn) : Option ℕ := if g.pending then g.loads.head? else none

end Drawn

def drawing : Discipline Action Answer Drawn := ⟨Drawn.upd, Drawn.req, fun _ _ _ => True⟩

def drawn (t : Thread Action Answer Task) : Drawn := System.ghost drawing (fun _ => ⟨false, []⟩) t

/-- The ids that the `restore_one` calls have computed so far. -/
def vmIds (E : Env) (x : DaemonConf) : List String :=
  (x.threads.flatMap fun t => (drawn t).loads).map (poolId E)

/-- The counter is not loaded while another task is between its load and its `fetch_add` and the counter
still has the value that it loaded; and it does not come back to 3. -/
def drawsApart (x : DaemonConf) : Event Action Answer Task → Bool
  | .act i (.pool .cidLoad) _ =>
    x.threads.zipIdx.all fun (u, j) => decide (j = i ∨ (drawn u).held ≠ some x.shared.pool.nextCid)
  | .act _ (.pool .cidFetchAdd) _ => decide (x.shared.pool.nextCid ≠ 2)
  | _ => true

/-- Different ids, with different state directories and sockets. -/
def Distinct (E : Env) (ids : List String) : Prop :=
  ids.Nodup ∧ (ids.map E.cfg.vmDir).Nodup ∧ (ids.map fun id => E.cfg.vmDir id ++ ["api.sock"]).Nodup ∧
    (ids.map fun id => E.cfg.vmDir id ++ ["vsock.sock"]).Nodup

/-! ### The tasks -/

section Tasks

variable {E : Env}

def Drawn.settled (g : Drawn) : Prop := g.pending = false

theorem drawing_other {a : Action} (ha : a ≠ .pool .cidLoad) : Keeps drawing Drawn.settled (tell a) := by
  refine .tell fun g hg => ?_
  cases a with
  | pool b => cases b <;> first | exact absurd rfl ha | exact ⟨trivial, fun _ _ => hg⟩ | exact ⟨trivial, fun _ _ => rfl⟩
  | _ => exact ⟨trivial, fun _ _ => hg⟩

theorem drawing_plain (a : Action) (ha : a.inner = false) : Keeps drawing Drawn.settled (tell a) := by
  refine drawing_other ?_
  rintro rfl
  cases ha

/-- The id is made and the CID taken one right after the other. -/
theorem restoreOne_drawing : Keeps drawing Drawn.settled (restoreOne E) := by
  intro g hg
  unfold restoreOne
  rw [wpx_bind, wpx_pool]
  refine ⟨hg, fun n _ => ?_⟩
  rw [wpx_bind, wpx_pool]
  exact ⟨trivial, fun cid _ => keeps_kinds drawing_plain (restoreTail_strict _ _ _ _ _).uses rfl _ rfl⟩

theorem drawing_parts : Parts drawing Drawn.settled E := by
  have hother : ∀ a : Action, a ≠ .pool .cidLoad → Keeps drawing Drawn.settled (tell a) := fun _ => drawing_other
  refine parts_of_actions drawing_plain restoreOne_drawing (fun vm => ?_) (fun id => ?_) (fun key erofs => ?_)
    fun key dir mtime => hother _ (by simp)
  · exact .bind (hother _ (by simp)) fun _ => hother _ (by simp)
  · refine .bind (hother _ (by simp)) fun r => ?_
    cases r with
    | some vm => exact .bind (hother _ (by simp)) fun _ => destroy_keeps drawing_plain id
    | none => exact destroy_keeps drawing_plain id
  · exact trigger_keeps drawing_plain key erofs (hother _ (by simp)) (hother _ (by simp)) (hother _ (by simp))

end Tasks

/-! ### The counter -/

/-- How often the counter was raised. -/
def age (n : ℕ) : ℕ := if 3 ≤ n then n - 3 else n + 18446744073709551613

theorem age_increment {n : ℕ} (hn : n < 18446744073709551616) (h2 : n ≠ 2) : age (increment n) = age n + 1 := by
  unfold age increment
  split_ifs <;> omega

theorem increment_lt {n : ℕ} (hn : n < 18446744073709551616) : increment n < 18446744073709551616 := by
  unfold increment
  split_ifs <;> omega

/-- Every value that was drawn is an earlier value of the counter, or the present one, which its task still
holds; and none was drawn twice. -/
structure DrawInv (w : World) (gs : List Drawn) : Prop where
  range : w.pool.nextCid < 18446744073709551616
  early : ∀ g ∈ gs, ∀ n ∈ g.loads, age n < age w.pool.nextCid ∨ (n = w.pool.nextCid ∧ g.held = some n)
  once : ∀ n, (gs.map fun g => g.loads.count n).sum ≤ 1

section Step

variable {E : Env} {w w' : World} {gs : List Drawn} {i : ℕ} {g : Drawn} {c : Choice}

theorem load_inv (hI : DrawInv w gs) (hi : gs[i]? = some g) (hg : g.pending = false)
    (hother : ∀ (j : ℕ) (u : Drawn), j ≠ i → gs[j]? = some u → u.held ≠ some w.pool.nextCid) :
    DrawInv w (gs.set i ⟨true, w.pool.nextCid :: g.loads⟩) := by
  have hpast : ∀ u ∈ gs, ∀ n ∈ u.loads, age n < age w.pool.nextCid := by
    intro u hu n hn
    refine (hI.early u hu n hn).resolve_right fun ⟨hcid, hheld⟩ => ?_
    rw [hcid] at hheld
    obtain ⟨j, hj⟩ := List.getElem?_of_mem hu
    by_cases hji : j = i
    · subst hji
      rw [← Option.some.inj (hi.symm.trans hj), Drawn.held, hg, if_neg Bool.false_ne_true] at hheld
      cases hheld
    · exact hother j u hji hj hheld
  refine ⟨hI.range, fun u hu n hn => ?_, fun n => ?_⟩
  · rcases mem_set_cases hu with rfl | ⟨j, -, hj⟩
    · rcases List.mem_cons.mp hn with rfl | hn
      · exact .inr ⟨rfl, rfl⟩
      · exact .inl (hpast g (List.mem_of_getElem? hi) n hn)
    · exact .inl (hpast u (List.mem_of_getElem? hj) n hn)
  · have hsum := sum_map_set (fun g : Drawn => g.loads.count n) hi ⟨true, w.pool.nextCid :: g.loads⟩
    have honce := hI.once n
    by_cases hn : w.pool.nextCid = n
    · -- the present value was not drawn before
      have hzero : (gs.map fun g => g.loads.count n).sum = 0 := by
        refine List.sum_eq_zero fun k hk => ?_
        obtain ⟨u, hu, rfl⟩ := List.mem_map.mp hk
        refine List.count_eq_zero.mpr fun hm => ?_
        have := hpast u hu n hm
        rw [hn] at this
        omega
      have hcount : (w.pool.nextCid :: g.loads).count n = g.loads.count n + 1 := by
        rw [hn, List.count_cons_self]
      simp only [hcount] at hsum
      omega
    · simp only [List.count_cons_of_ne hn] at hsum
      omega

/-- Whoever raises the counter leaves every value drawn so far behind. -/
theorem fetchAdd_inv (hI : DrawInv w gs) (hi : gs[i]? = some g) (h2 : w.pool.nextCid ≠ 2)
    (hw : w'.pool.nextCid = increment w.pool.nextCid) : DrawInv w' (gs.set i ⟨false, g.loads⟩) := by
  have hage := age_increment hI.range h2
  have hpast : ∀ u ∈ gs, ∀ n ∈ u.loads, age n < age w.pool.nextCid + 1 := by
    intro u hu n hn
    rcases hI.early u hu n hn with hlt | ⟨rfl, -⟩
    · exact Nat.lt_succ_of_lt hlt
    · exact Nat.lt_succ_self _
  refine ⟨hw ▸ increment_lt hI.range, fun u hu n hn => .inl ?_, fun n => ?_⟩
  · rw [hw, hage]
    rcases mem_set_cases hu with rfl | ⟨j, -, hj⟩
    · exact hpast g (List.mem_of_getElem? hi) n hn
    · exact hpast u (List.mem_of_getElem? hj) n hn
  · have hsum := sum_map_set (fun g : Drawn => g.loads.count n) hi ⟨false, g.loads⟩
    have honce := hI.once n
    simp only at hsum
    omega

/-- Only a `fetch_add` changes the counter. -/
theorem nextCid_frame {a : Action} {r : Answer a} (hp : perform E w a c = some (r, w'))
    (ha : a ≠ .pool .cidFetchAdd) : w'.pool.nextCid = w.pool.nextCid := by
  by_cases hb : ∃ b, a = .pool b
  · obtain ⟨b, rfl⟩ := hb
    obtain ⟨-, rfl⟩ := perform_pool hp
    cases b <;> first | rfl | exact absurd rfl ha
  · rw [pool_frame hp fun b he => hb ⟨b, he⟩]

end Step

/-! ### Runs -/

section Runs

variable {E : Env} {h : Host} {x : DaemonConf}

theorem others_apart {i n : ℕ}
    (hok : (x.threads.zipIdx.all fun (u, j) => decide (j = i ∨ (drawn u).held ≠ some n)) = true) :
    ∀ (j : ℕ) (u : Drawn), j ≠ i → (x.threads.map drawn)[j]? = some u → u.held ≠ some n := by
  intro j u hji hj
  obtain ⟨t, -, rfl, hother⟩ := others_of_all (P := fun u => (drawn u).held ≠ some n) drawn hok hji hj
  exact hother

theorem draw_step {i : ℕ} {g : Drawn} {a : Action} {c : Choice} {r : Answer a} {w' : World}
    (hI : DrawInv x.shared (x.threads.map drawn)) (hi : (x.threads.map drawn)[i]? = some g)
    (hreq : drawing.req g a) (hp : perform E x.shared a c = some (r, w'))
    (hok : drawsApart x (.act i a r) = true) :
    DrawInv w' ((x.threads.map drawn).set i (drawing.upd g a r)) := by
  by_cases hload : a = .pool .cidLoad
  · subst hload
    obtain ⟨rfl, rfl⟩ := perform_pool hp
    exact load_inv hI hi hreq (others_apart hok)
  · by_cases hadd : a = .pool .cidFetchAdd
    · subst hadd
      obtain ⟨rfl, rfl⟩ := perform_pool hp
      exact fetchAdd_inv hI hi (of_decide_eq_true hok) rfl
    · have hg : drawing.upd g a r = g := by
        cases a with
        | pool b => cases b <;> first | rfl | exact absurd rfl hload | exact absurd rfl hadd
        | _ => rfl
      rw [hg, set_self hi]
      have hcid := nextCid_frame hp hadd
      exact ⟨hcid ▸ hI.range, fun u hu n hn => hcid ▸ hI.early u hu n hn, hI.once⟩

theorem draw_arrive {w : World} {gs new : List Drawn} (hI : DrawInv w gs) (hnew : ∀ g ∈ new, g.loads = []) :
    DrawInv w (gs ++ new) := by
  refine ⟨hI.range, fun u hu n hn => ?_, fun n => ?_⟩
  · rcases List.mem_append.mp hu with hu | hu
    · exact hI.early u hu n hn
    · rw [hnew u hu] at hn
      cases hn
  · have hzero : (new.map fun g => g.loads.count n).sum = 0 := by
      refine List.sum_eq_zero fun k hk => ?_
      obtain ⟨u, hu, rfl⟩ := List.mem_map.mp hk
      rw [hnew u hu, List.count_nil]
    rw [List.map_append, List.sum_append, hzero]
    exact hI.once n

theorem draw_inv (hx : (daemon E).Reach (fun x e => drawsApart x e = true) (boot E h) x) :
    DrawInv x.shared (x.threads.map drawn) := by
  have hbody : ∀ t : Task, wp drawing (t.body E) (fun _ g => g.settled) ⟨false, []⟩ := fun t =>
    drawing_parts.body (fun _ => drawing_other (by simp)) t rfl
  refine (System.Reach.inv DrawInv Drawn.settled hbody ?_ ?_ ?_ ?_ hx).1
  · refine ⟨by show (3 : ℕ) < _; norm_num, fun g hg n hn => ?_, fun n => by simp [boot, System.init]⟩
    obtain rfl := List.mem_singleton.mp hg
    cases hn
  · intro t ht
    obtain rfl := List.mem_singleton.mp ht
    exact hbody .main
  · intro x t hI _ _
    exact draw_arrive hI fun g hg => (by rw [List.mem_singleton.mp hg])
  · intro x i g a c r w' hI hi hreq hp hok
    refine ⟨trivial, draw_arrive (draw_step hI hi hreq hp hok) fun g hg => ?_⟩
    obtain ⟨t, -, rfl⟩ := List.mem_map.mp hg
    rfl

theorem poolId_injective (E : Env) : Function.Injective (poolId E) := by
  intro n m he
  have hl := congrArg String.toList he
  simp only [poolId, String.toList_append, List.append_cancel_left_eq] at hl
  exact Nat.repr_injective (String.toList_injective hl)

theorem poolId_plain (E : Env) (n : ℕ) : PlainName (poolId E n) := by
  have hdigits : ∀ k : ℕ, '/' ∉ (toString k).toList := by
    intro k hk
    rw [Nat.toString_eq_repr, Nat.toList_repr] at hk
    exact absurd (Nat.isDigit_of_mem_toDigits (by norm_num) (by norm_num) hk) (by decide)
  refine plain_of_head (c := 'p') ?_ (by decide) ?_
  · simp [poolId]
  · simp only [poolId, String.toList_append, List.mem_append, not_or]
    exact ⟨⟨⟨by decide, hdigits _⟩, by decide⟩, hdigits _⟩

/-- Different values of the counter make different VMs. -/
theorem distinct_of_nodup {ns : List ℕ} (hn : ns.Nodup) : Distinct E (ns.map (poolId E)) := by
  have hids := hn.map (poolId_injective E)
  have hdir : ∀ x ∈ ns.map (poolId E), ∀ y ∈ ns.map (poolId E), E.cfg.vmDir x = E.cfg.vmDir y → x = y := by
    intro x hx y hy he
    obtain ⟨n, -, rfl⟩ := List.mem_map.mp hx
    obtain ⟨m, -, rfl⟩ := List.mem_map.mp hy
    exact join_plain_inj (poolId_plain E n) (poolId_plain E m) he
  refine ⟨hids, List.Nodup.map_on hdir hids, ?_, ?_⟩
  · exact List.Nodup.map_on (fun x hx y hy he => hdir x hx y hy (List.append_cancel_right he)) hids
  · exact List.Nodup.map_on (fun x hx y hy he => hdir x hx y hy (List.append_cancel_right he)) hids

/-- **No two VMs with one id.**  In every run in which the CID counter is raised between any two loads of it,
and does not come round to its first value, all `restore_one` calls compute different ids, and so different
state directories and sockets. -/
theorem vmIds_distinct (hx : (daemon E).Reach (fun x e => drawsApart x e = true) (boot E h) x) :
    Distinct E (vmIds E x) := by
  refine distinct_of_nodup (List.nodup_iff_count_le_one.mpr fun n => ?_)
  have honce := (draw_inv hx).once n
  rw [List.map_map] at honce
  rw [List.count_flatMap]
  exact honce

end Runs

/-! ### Two runs -/

/-- One acquire takes the pool's VM; of two others that restore one, both load the counter first. -/
def loadsCross : List (Label Choice Task) :=
  steps 0 13 100 ++ [.arrive bareAcquire, .arrive bareAcquire, .arrive bareAcquire] ++ steps 1 1 101 ++
    steps 2 2 102 ++ steps 3 2 103

theorem crossed_loads_agree : ∃ x, (daemon poolOfOne).Reach (fun _ _ => True)
    (boot poolOfOne (Host.withBase poolOfOne)) x ∧ ¬ Distinct poolOfOne (vmIds poolOfOne x) := by
  have hrun : ((daemon poolOfOne).exec (fun _ _ => true) (boot poolOfOne (Host.withBase poolOfOne))
      loadsCross).any (fun x => decide (¬ (vmIds poolOfOne x).Nodup)) = true := by
    decide +kernel
  obtain ⟨x, hx, hP⟩ := System.exists_reach hrun
  exact ⟨x, hx.mono fun _ _ _ => trivial, fun hd => of_decide_eq_true hP hd.1⟩

/-- The second of them takes its CID before the third loads. -/
def loadsInTurn : List (Label Choice Task) :=
  steps 0 13 100 ++ [.arrive bareAcquire, .arrive bareAcquire, .arrive bareAcquire] ++ steps 1 1 101 ++
    steps 2 3 102 ++ steps 3 3 103

theorem vmIds_distinct_inTurn : ∃ x, (daemon poolOfOne).Reach (fun x e => drawsApart x e = true)
    (boot poolOfOne (Host.withBase poolOfOne)) x ∧
    vmIds poolOfOne x = ["pool-7-3", "pool-7-4", "pool-7-5"] ∧ Distinct poolOfOne (vmIds poolOfOne x) := by
  have hrun : ((daemon poolOfOne).exec drawsApart (boot poolOfOne (Host.withBase poolOfOne)) loadsInTurn).any
      (fun x => decide (vmIds poolOfOne x = ["pool-7-3", "pool-7-4", "pool-7-5"])) = true := by
    decide +kernel
  obtain ⟨x, hx, hP⟩ := System.exists_reach hrun
  exact ⟨x, hx, of_decide_eq_true hP, vmIds_distinct hx⟩

end CloudHv.Daemon
