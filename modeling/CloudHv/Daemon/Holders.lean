import CloudHv.Daemon.Parts
import CloudHv.Lib.Tokens

/-!
# Holders — every VM has one holder

A VM is known by the CID it was restored with.  Unlike the ids, the CIDs come from one atomic `fetch_add`, so they
are different however the tasks interleave, until the counter wraps.  A CID goes from the task that drew it to the
ready list and on to the task that pops it, or straight into `active`; the task that put a VM there answers an
AcquireSandbox with it.  So no VM is ready and handed out at once, none is handed out twice, and none is active
under two ids.
-/

namespace CloudHv.Daemon

open Conc

/-! ### What a task holds -/

/-- The CIDs a task has in hand, those of the VMs it put into `active`, and those it answered with. -/
structure Hand where
  fresh : List ℕ
  leased : List ℕ
  answered : List ℕ

namespace Hand

def upd (g : Hand) : (a : Action) → Answer a → Hand
  | .pool .cidFetchAdd, n => { g with fresh := n :: g.fresh }
  | .pool .readyPop, some vm => { g with fresh := vm.cid :: g.fresh }
  | .pool (.readyPush vm), _ => { g with fresh := g.fresh.erase vm.cid }
  | .pool (.activeInsert vm), _ => ⟨g.fresh.erase vm.cid, vm.cid :: g.leased, g.answered⟩
  | .reply (.acquired a), _ => ⟨g.fresh, g.leased.erase a.cid, g.answered ++ [a.cid]⟩
  | _, _ => g

/-- A task puts a VM into a table that it has in hand, and answers with one it has made active. -/
def req (g : Hand) : Action → Prop
  | .pool (.readyPush vm) | .pool (.activeInsert vm) => vm.cid ∈ g.fresh
  | .reply (.acquired a) => a.cid ∈ g.leased
  | _ => True

def empty : Hand := ⟨[], [], []⟩

/-- The CIDs of the VMs a task has made active. -/
def out (g : Hand) : List ℕ := g.leased ++ g.answered

def all (g : Hand) : List ℕ := g.fresh ++ g.out

/-- A condition that is not lost by having more. -/
def Grows (K : Hand → Prop) : Prop := ∀ g g' : Hand, g.fresh ⊆ g'.fresh → g.leased ⊆ g'.leased → K g → K g'

theorem grows_fresh (n : ℕ) : Grows fun g => n ∈ g.fresh := fun _ _ hf _ hn => hf hn

theorem grows_leased (n : ℕ) : Grows fun g => n ∈ g.leased := fun _ _ _ hl hn => hl hn

theorem grows_true : Grows fun _ => True := fun _ _ _ _ _ => trivial

end Hand

def inHand : Discipline Action Answer Hand := ⟨Hand.upd, Hand.req, fun _ _ _ => True⟩

def handOf (t : Thread Action Answer Task) : Hand := System.ghost inHand (fun _ => Hand.empty) t

/-- The CID in an error-free AcquireSandbox answer. -/
def answerCid : Act Action Answer → Option ℕ
  | ⟨.reply (.acquired a), _⟩ => some a.cid
  | _ => none

def answeredBy (t : Thread Action Answer Task) : List ℕ := t.log.filterMap answerCid

/-- The CIDs that all error-free AcquireSandbox answers so far gave out. -/
def answered (x : DaemonConf) : List ℕ := x.threads.flatMap answeredBy

/-- The CID counter does not wrap. -/
def cidsLast (x : DaemonConf) : Event Action Answer Task → Bool
  | .act _ (.pool .cidFetchAdd) _ => decide (x.shared.pool.nextCid ≠ 18446744073709551615)
  | _ => true

/-- The CIDs of the VMs on the ready list. -/
def readyCids (w : World) : List ℕ := w.pool.ready.map (·.cid)

/-- No VM is ready twice, answered twice, or both; what a task has in hand is not ready, and no other task has it; an
active VM is one that a task made active, no VM is active under two ids, or active and ready; and no VM has one of the
CIDs below 3, which are reserved. -/
structure OneHolder (x : DaemonConf) : Prop where
  out : (readyCids x.shared ++ answered x).Nodup
  hands : (readyCids x.shared ++ x.threads.flatMap fun t => (handOf t).all).Nodup
  owned : ∀ id vm, x.shared.pool.active.lookup id = some vm → ∃ t ∈ x.threads, vm.cid ∈ (handOf t).out
  active : ∀ id id' vm vm', x.shared.pool.active.lookup id = some vm → x.shared.pool.active.lookup id' = some vm' →
    vm.cid = vm'.cid → id = id'
  away : ∀ id vm, x.shared.pool.active.lookup id = some vm → vm.cid ∉ readyCids x.shared
  reserved : (∀ n ∈ readyCids x.shared ++ answered x, 3 ≤ n) ∧
    ∀ id vm, x.shared.pool.active.lookup id = some vm → 3 ≤ vm.cid

/-! ### The tasks -/

section Tasks

variable {E : Env} {K : Hand → Prop}

/-- The kinds of action that put something down. -/
def puttingKinds : List Kind := [.push, .active, .reply]

theorem inHand_act (hK : Hand.Grows K) {a : Action} (ha : puttingKinds.elem a.kind = false) : Keeps inHand K (tell a) := by
  refine .tell fun g hg => ?_
  cases a with
  | pool b =>
    cases b with
    | cidFetchAdd => exact ⟨trivial, fun n _ => hK g _ (List.subset_cons_self _ _) (List.Subset.refl _) hg⟩
    | readyPop =>
      refine ⟨trivial, fun r _ => ?_⟩
      cases r with
      | none => exact hg
      | some vm => exact hK g _ (List.subset_cons_self _ _) (List.Subset.refl _) hg
    | readyPush vm => exact (by cases ha)
    | activeInsert vm => exact (by cases ha)
    | activeRemove id => exact (by cases ha)
    | _ => exact ⟨trivial, fun _ _ => hg⟩
  | reply r => exact (by cases ha)
  | _ => exact ⟨trivial, fun _ _ => hg⟩

theorem holding_uses {α : Type} {ks : List Kind} {m : M α} (hK : Hand.Grows K) (h : Uses ks m)
    (hks : ks.all (fun k => !puttingKinds.elem k) = true) : Keeps inHand K m :=
  .kinds h hks fun _ ha => inHand_act hK (Bool.eq_false_iff.mpr fun h => ha (List.elem_iff.mp h))

theorem inHand_remove (id : String) : Keeps inHand K (pool (.activeRemove id)) :=
  .tell fun _ hg => ⟨trivial, fun _ _ => hg⟩

theorem release_inHand (hK : Hand.Grows K) (id : String) : Keeps inHand K (release E id) := by
  refine .bind (inHand_remove id) fun r => ?_
  cases r with
  | some vm => exact .bind (inHand_act hK rfl) fun _ => holding_uses hK (destroyVm_uses E id) rfl
  | none => exact holding_uses hK (destroyVm_uses E id) rfl

/-- A restored VM has the CID that was drawn for it. -/
theorem restoreOne_inHand (g : Hand) :
    wpx inHand (restoreOne E) (fun vm g' => vm.cid ∈ g'.fresh) (fun _ _ => True) g := by
  unfold restoreOne
  rw [wpx_bind, wpx_pool]
  refine ⟨trivial, fun n _ => ?_⟩
  rw [wpx_bind, wpx_pool]
  refine ⟨trivial, fun cid _ => ?_⟩
  have hmem : cid ∈ (inHand.upd (inHand.upd g (.pool .cidLoad) n) (.pool .cidFetchAdd) cid).fresh :=
    List.mem_cons_self
  revert hmem
  generalize inHand.upd (inHand.upd g (.pool .cidLoad) n) (.pool .cidFetchAdd) cid = g'
  have hK := Hand.grows_fresh cid
  have hF : ∀ (e : Fail) (g : Hand), cid ∈ g.fresh → True := fun _ _ _ => trivial
  refine Keeps.seq (K := fun g => cid ∈ g.fresh) (holding_uses hK (createDirAll_strict _).uses rfl) hF (fun _ => ?_) g'
  refine Keeps.seq (holding_uses hK (prepareSnapshot_strict _ _ _ _).uses rfl) hF (fun _ => ?_)
  refine Keeps.seq (holding_uses hK (spawnCh_strict _).uses rfl) hF (fun _ => ?_)
  refine Keeps.seq (holding_uses hK (waitChReady_strict _).uses rfl) hF (fun _ => ?_)
  refine Keeps.seq (holding_uses hK (apiRequest_strict _ _).uses rfl) hF (fun _ => ?_)
  refine Keeps.seq (holding_uses hK (apiRequest_strict _ _).uses rfl) hF (fun _ => ?_)
  exact Keeps.seq (holding_uses hK (Strict.context (waitForAgent_strict _)).uses rfl) hF (fun _ _ hg => hg)

theorem registerActive_inHand {vm : PoolVm} {g : Hand} (hg : vm.cid ∈ g.fresh) :
    wpx inHand (registerActive vm) (fun _ g' => vm.cid ∈ g'.leased) (fun _ _ => True) g := by
  unfold registerActive
  rw [wpx_bind, wpx_pool]
  exact ⟨trivial, fun _ _ => wpx_pool.mpr ⟨hg, fun _ _ => List.mem_cons_self⟩⟩

theorem acquire_inHand (g : Hand) :
    wpx inHand (acquire E) (fun vm g' => vm.cid ∈ g'.leased) (fun _ _ => True) g := by
  unfold acquire
  rw [wpx_bind, wpx_pool]
  refine ⟨trivial, fun r _ => ?_⟩
  cases r with
  | some vm => exact wpx_bind.mpr (wpx_mono (registerActive_inHand List.mem_cons_self) (fun _ _ hg => hg) fun _ _ h => h)
  | none =>
    refine wpx_bind.mpr (wpx_mono (restoreOne_inHand _) (fun vm g' hg' => ?_) fun _ _ h => h)
    exact wpx_bind.mpr (wpx_mono (registerActive_inHand hg') (fun _ _ hg => hg) fun _ _ h => h)

/-- An answer with a VM is about one that the task has made active. -/
def Leased (r : Response) (g : Hand) : Prop := ∀ a, r = .acquired a → a.cid ∈ g.leased

theorem leased_plain {p : Plain} {g : Hand} : Leased (.plain p) g := fun _ h => (by cases h)

theorem acquireWarm_inHand (req : AcquireRequest) (g : Hand) :
    wpx inHand (acquireWarm E req) (fun r g' => ∀ resp, r = some resp → Leased resp g') (fun _ _ => True) g := by
  have htrue := Hand.grows_true
  have hF : ∀ (P : Prop) (e : Fail) (g : Hand), P → True := fun _ _ _ _ => trivial
  have hplain : ∀ (msg : String) (g : Hand) (resp : Response), some (Response.plain (.error msg)) = some resp →
      Leased resp g := by
    rintro msg g resp he
    rw [← Option.some.inj he]
    exact leased_plain
  unfold acquireWarm
  refine Keeps.seq (K := fun _ => True) (inHand_act htrue rfl) (fun _ _ _ => trivial) (fun seq g _ => ?_) g trivial
  refine Keeps.seq (K := fun _ => True) (holding_uses htrue (createDirAll_strict _).uses.attempt rfl)
    (fun _ _ _ => trivial) (fun r g _ => ?_) g trivial
  cases r with
  | error e => exact hplain _ g
  | ok u =>
    rw [wpx_bind, wpx_pool]
    refine ⟨trivial, fun cid _ => ?_⟩
    have hmem : cid ∈ (inHand.upd g (.pool .cidFetchAdd) cid).fresh := List.mem_cons_self
    have hK := Hand.grows_fresh cid
    refine Keeps.seq (K := fun g => cid ∈ g.fresh)
      (holding_uses hK (restoreFromSnapshot_strict _ _ _).uses.attempt rfl) (fun _ _ _ => trivial) (fun r g hg => ?_) _ hmem
    rcases r with e | ⟨pid, api, vsock⟩
    · exact fun resp he => (by cases he)
    · refine Keeps.seq (K := fun g => cid ∈ g.fresh) (holding_uses hK (warmNetwork_uses _ _ _ _) rfl)
        (fun _ _ _ => trivial) (fun r g hg => ?_) g hg
      cases r with
      | error msg => exact hplain _ g
      | ok tap =>
        refine wpx_bind.mpr (wpx_mono (registerActive_inHand hg) (fun _ g' hg' => ?_) fun _ _ h => h)
        rintro resp he a ha
        rw [← Option.some.inj he] at ha
        rw [← Response.acquired.inj ha]
        exact hg'

theorem acquirePool_inHand (req : AcquireRequest) (g : Hand) :
    wpx inHand (acquirePool E req) Leased (fun _ _ => True) g := by
  unfold acquirePool
  rw [wpx_bind, wpx_attempt]
  refine wpx_mono (acquire_inHand g) (fun vm g' hg' => ?_) (fun e g' _ => ?_)
  · have hK := Hand.grows_leased vm.cid
    refine Keeps.seq (K := fun g => vm.cid ∈ g.leased) (inHand_act hK rfl) (fun _ _ _ => trivial)
      (fun _ g hg => ?_) g' hg'
    refine Keeps.seq (holding_uses hK (shadowFor_uses req) rfl) (fun _ _ _ => trivial) (fun _ g hg => ?_) g hg
    refine Keeps.seq (holding_uses hK (acquireContainer_strict E req vm).uses.attempt rfl) (fun _ _ _ => trivial)
      (fun r g hg => ?_) g hg
    rcases r with e | ⟨pid, tap⟩
    · exact leased_plain
    · rintro a ha
      rw [← Response.acquired.inj ha]
      exact hg
  · cases e with
    | err e => exact leased_plain
    | panic => trivial

theorem handle_inHand (r : Request) (g : Hand) : wpx inHand (r.handle E) Leased (fun _ _ => True) g := by
  have htrue := Hand.grows_true
  rcases handle_call E r with ⟨req, rfl⟩ | ⟨id, rfl⟩ | ⟨m, hm, he⟩
  · refine Keeps.seq (K := fun _ => True) (holding_uses htrue (hasWarmSnapshot_uses req) rfl) (fun _ _ _ => trivial)
      (fun b g _ => ?_) g trivial
    split
    · refine wpx_bind.mpr (wpx_mono (acquireWarm_inHand req g) (fun r g' hr => ?_) fun _ _ h => h)
      cases r with
      | some resp => exact hr resp rfl
      | none => exact acquirePool_inHand req g'
    · exact acquirePool_inHand req g
  · have hrelease : Keeps inHand (fun _ => True) (handleRelease E id) := by
      refine .ite (.pure _) (.bind (inHand_act htrue rfl) fun _ =>
        .bind (.attempt (release_inHand htrue id)) fun r => ?_)
      cases r <;> exact .pure _
    refine Keeps.seq hrelease (fun _ _ _ => trivial) (fun p g _ => ?_) g trivial
    exact leased_plain
  · rw [he]
    refine Keeps.seq (K := fun _ => True) (holding_uses htrue hm rfl) (fun _ _ _ => trivial) (fun p g _ => ?_) g trivial
    exact leased_plain

theorem serve_inHand (r : Request) (g : Hand) :
    wp inHand (serve E r).toTask (fun _ _ => True) g := by
  refine wp_toTask ?_
  unfold serve
  refine wpx_bind.mpr (wpx_mono (handle_inHand r g) (fun resp g' hr => ?_) fun _ _ h => h)
  cases resp with
  | acquired a => exact wpx_tell.mpr ⟨hr a rfl, fun _ _ => trivial⟩
  | plain p => exact wpx_tell.mpr ⟨trivial, fun _ _ => trivial⟩

theorem fillPool_inHand (k : ℕ) : Keeps inHand (fun _ => True) (fillPool E k) := by
  induction k with
  | zero => exact .pure _
  | succ k ih =>
    intro g hg
    unfold fillPool
    rw [wpx_bind, wpx_attempt]
    refine wpx_mono (restoreOne_inHand g) (fun vm g' hg' => ?_) (fun e g' _ => ?_)
    · rw [wpx_bind, wpx_pool]
      exact ⟨hg', fun _ _ => ih _ trivial⟩
    · cases e with
      | err e => exact ih g' trivial
      | panic => trivial

theorem replenishOne_inHand : Keeps inHand (fun _ => True) (replenishOne E) := by
  refine .bind (inHand_act Hand.grows_true rfl) fun n => .ite (.pure _) fun g hg => ?_
  rw [wpx_bind, wpx_attempt]
  refine wpx_mono (restoreOne_inHand g) (fun vm g' hg' => ?_) (fun e g' _ => ?_)
  · exact wpx_pool.mpr ⟨hg', fun _ _ => trivial⟩
  · cases e <;> trivial

theorem runShadow_inHand (key erofs : String) : Keeps inHand (fun _ => True) (runShadow E key erofs) := by
  have htrue := Hand.grows_true
  have hacquire : Keeps inHand (fun _ => True) (acquire E) := fun g _ =>
    wpx_mono (acquire_inHand g) (fun _ _ _ => trivial) fun _ _ h => h
  have hact : ∀ a : Action, puttingKinds.elem a.kind = false → Keeps inHand (fun _ => True) (tell a) := fun a ha => inHand_act htrue ha
  exact .bind (holding_uses htrue (createDirAll_strict _).uses rfl) fun _ => .bind (.context hacquire) fun vm =>
    .bind (.context (.ask (hact _ rfl))) fun _ =>
    .bind (holding_uses htrue (connectAgent_strict _).uses rfl) fun _ =>
    .bind (holding_uses htrue (runContainerRpc_strict _ _ _).uses rfl) fun _ => .bind (hact _ rfl) fun _ =>
    .bind (holding_uses htrue (createDirAll_strict _).uses rfl) fun _ =>
    .bind (holding_uses htrue (apiRequest_strict _ _).uses rfl) fun _ =>
    .bind (holding_uses htrue (apiRequest_strict _ _).uses rfl) fun _ => .bind (.ask (hact _ rfl)) fun _ =>
    .bind (hact _ rfl) fun _ => .bind (hact _ rfl) fun _ => release_inHand htrue vm.vmId

theorem body_inHand (t : Task) (g : Hand) : wp inHand (t.body E) (fun _ _ => True) g := by
  have htrue := Hand.grows_true
  cases t with
  | main =>
    refine Keeps.toTask (K := fun _ => True) (.bind (.bind (inHand_act htrue rfl) fun _ => .ite (fillPool_inHand _)
      (.bind (holding_uses htrue (createBaseSnapshot_uses E _) rfl) fun _ => fillPool_inHand _)) fun _ =>
      .ask (inHand_act htrue rfl)) trivial
  | request r => exact serve_inHand r g
  | replenish =>
    exact Keeps.toTask (K := fun _ => True) (.bind (inHand_act htrue rfl) fun _ => replenishOne_inHand) trivial
  | shadow key erofs =>
    exact Keeps.toTask (K := fun _ => True) (.bind (.attempt (runShadow_inHand key erofs)) fun _ =>
      inHand_act htrue rfl) trivial
  | touch f t => exact ⟨trivial, fun _ _ => trivial⟩

end Tasks

/-! ### The tables -/

/-- Every CID that was drawn lies between 3 and the counter, and is in one place; the active VMs have CIDs that
tasks made active, and no two of them the same. -/
structure HandInv (w : World) (gs : List Hand) : Prop where
  range : 3 ≤ w.pool.nextCid ∧ w.pool.nextCid < 18446744073709551616
  ready : ∀ n ∈ readyCids w, 3 ≤ n ∧ n < w.pool.nextCid
  hands : ∀ g ∈ gs, ∀ n ∈ g.all, 3 ≤ n ∧ n < w.pool.nextCid
  single : Single (readyCids w) Hand.all gs
  owned : ∀ id vm, w.pool.active.lookup id = some vm → ∃ g ∈ gs, vm.cid ∈ g.out
  apart : ∀ id id' vm vm', w.pool.active.lookup id = some vm → w.pool.active.lookup id' = some vm' →
    vm.cid = vm'.cid → id = id'

section Step

variable {w w' : World} {gs : List Hand} {i : ℕ} {g g' : Hand}

/-- A step that leaves the counter alone and moves the CIDs of a thread between its hands and the ready list. -/
theorem HandInv.move (hI : HandInv w gs) (hi : gs[i]? = some g) (hcid : w'.pool.nextCid = w.pool.nextCid)
    (hcount : ∀ k, (readyCids w').count k + g'.all.count k = (readyCids w).count k + g.all.count k)
    (howned : ∀ id vm, w'.pool.active.lookup id = some vm → ∃ g ∈ gs.set i g', vm.cid ∈ g.out)
    (hapart : ∀ id id' vm vm', w'.pool.active.lookup id = some vm → w'.pool.active.lookup id' = some vm' →
      vm.cid = vm'.cid → id = id') : HandInv w' (gs.set i g') := by
  have hmem : ∀ n, n ∈ readyCids w' ∨ n ∈ g'.all → 3 ≤ n ∧ n < w.pool.nextCid := by
    intro n hn
    have hpos : 0 < (readyCids w).count n + g.all.count n := by
      rw [← hcount n]
      rcases hn with hn | hn
      · have := List.count_pos_iff.mpr hn
        omega
      · have := List.count_pos_iff.mpr hn
        omega
    by_cases hr : n ∈ readyCids w
    · exact hI.ready n hr
    · rw [List.count_eq_zero.mpr hr, Nat.zero_add] at hpos
      exact hI.hands g (List.mem_of_getElem? hi) n (List.count_pos_iff.mp hpos)
  refine ⟨hcid ▸ hI.range, fun n hn => hcid ▸ hmem n (.inl hn), fun u hu n hn => ?_, hI.single.pass hi hcount, howned, hapart⟩
  rw [hcid]
  rcases mem_set_cases hu with rfl | ⟨j, -, hj⟩
  · exact hmem n (.inr hn)
  · exact hI.hands u (List.mem_of_getElem? hj) n hn

/-- A step after which the thread has made active what it had made active before. -/
theorem owned_set (hI : HandInv w gs) (hi : gs[i]? = some g) (hout : g.out ⊆ g'.out) {id : String} {vm : PoolVm}
    (h : w.pool.active.lookup id = some vm) : ∃ u ∈ gs.set i g', vm.cid ∈ u.out :=
  exists_mem_set hi (hI.owned id vm h) fun hg => hout hg

theorem HandInv.frame (hI : HandInv w gs) (hi : gs[i]? = some g) (hpool : w'.pool.ready = w.pool.ready)
    (hactive : ∀ id vm, w'.pool.active.lookup id = some vm → w.pool.active.lookup id = some vm)
    (hcid : w'.pool.nextCid = w.pool.nextCid) (hperm : g'.all.Perm g.all) (hout : g.out ⊆ g'.out) :
    HandInv w' (gs.set i g') := by
  refine hI.move hi hcid (fun k => ?_) (fun id vm h => owned_set hI hi hout (hactive id vm h))
    fun id id' vm vm' h h' => hI.apart id id' vm vm' (hactive id vm h) (hactive id' vm' h')
  rw [hperm.count_eq, readyCids, readyCids, hpool]

/-- A VM that the task has in hand is made active: nothing that is active has its CID. -/
theorem lease_inv {vm : PoolVm} (hI : HandInv w gs) (hi : gs[i]? = some g) (hg : vm.cid ∈ g.fresh) :
    HandInv { w with pool := { w.pool with active := w.pool.active.insert vm.vmId vm } }
      (gs.set i ⟨g.fresh.erase vm.cid, vm.cid :: g.leased, g.answered⟩) := by
  have hgall : vm.cid ∈ g.all := List.mem_append_left _ hg
  have hother : ∀ id vm', w.pool.active.lookup id = some vm' → vm'.cid ≠ vm.cid := by
    intro id vm' h he
    obtain ⟨u, hu, hout⟩ := hI.owned id vm' h
    obtain ⟨j, hj⟩ := List.getElem?_of_mem hu
    have huall : vm.cid ∈ u.all := List.mem_append_right _ (he ▸ hout)
    obtain rfl := hI.single.apart hi hj hgall huall
    obtain rfl := Option.some.inj (hi.symm.trans hj)
    have hdis := List.disjoint_of_nodup_append (hI.single.nodup (List.mem_of_getElem? hi))
    exact hdis hg (he ▸ hout)
  have hlook : ∀ id vm', (w.pool.active.insert vm.vmId vm).lookup id = some vm' →
      (id = vm.vmId ∧ vm' = vm) ∨ w.pool.active.lookup id = some vm' := by
    intro id vm' h
    by_cases hid : id = vm.vmId
    · subst hid
      rw [Finmap.lookup_insert] at h
      exact .inl ⟨rfl, (Option.some.inj h).symm⟩
    · rw [Finmap.lookup_insert_of_ne _ hid] at h
      exact .inr h
  refine hI.move hi rfl (fun k => ?_) (fun id vm' h => ?_) fun id id' vm₁ vm₂ h₁ h₂ he => ?_
  · have hcount := (List.perm_cons_erase hg).count_eq k
    simp only [Hand.all, Hand.out, List.count_append, List.count_cons] at hcount ⊢
    show _ = (readyCids w).count k + _
    simp only [readyCids]
    omega
  · rcases hlook id vm' h with ⟨-, rfl⟩ | h
    · exact ⟨_, mem_set_self hi, List.mem_cons_self⟩
    · exact owned_set hI hi (List.subset_cons_self _ _) h
  · rcases hlook id vm₁ h₁ with ⟨rfl, rfl⟩ | hold₁
    · rcases hlook id' vm₂ h₂ with ⟨rfl, rfl⟩ | hold₂
      · rfl
      · exact absurd he.symm (hother id' vm₂ hold₂)
    · rcases hlook id' vm₂ h₂ with ⟨rfl, rfl⟩ | hold₂
      · exact absurd he (hother id vm₁ hold₁)
      · exact hI.apart id id' vm₁ vm₂ hold₁ hold₂ he

/-- The counter's value is nowhere yet. -/
theorem draw_cid (hI : HandInv w gs) (hi : gs[i]? = some g) (hlast : w.pool.nextCid ≠ 18446744073709551615) :
    HandInv { w with pool := { w.pool with nextCid := increment w.pool.nextCid } }
      (gs.set i { g with fresh := w.pool.nextCid :: g.fresh }) := by
  have hrange := hI.range
  have hinc : increment w.pool.nextCid = w.pool.nextCid + 1 := if_neg hlast
  have hsmall : ∀ n, 3 ≤ n ∧ n < w.pool.nextCid → 3 ≤ n ∧ n < increment w.pool.nextCid := by
    intro n hn
    rw [hinc]
    omega
  refine ⟨?_, fun n hn => hsmall n (hI.ready n hn), fun u hu n hn => ?_, ?_, fun id vm h => ?_, hI.apart⟩
  · show 3 ≤ increment _ ∧ increment _ < _
    rw [hinc]
    omega
  · rcases mem_set_cases hu with rfl | ⟨j, -, hj⟩
    · rcases List.mem_cons.mp (show n ∈ w.pool.nextCid :: g.all from hn) with rfl | hn
      · show _ ∧ _ < increment _
        rw [hinc]
        omega
      · exact hsmall n (hI.hands g (List.mem_of_getElem? hi) n hn)
    · exact hsmall n (hI.hands u (List.mem_of_getElem? hj) n hn)
  · refine hI.single.draw (k := w.pool.nextCid) hi (fun k => ?_) (fun h => ?_) fun u hu h => ?_
    · show (w.pool.nextCid :: g.all).count k = _
      rw [List.count_cons]
      by_cases hk : k = w.pool.nextCid
      · rw [if_pos hk, hk, beq_self_eq_true, if_pos rfl]
      · rw [if_neg hk, if_neg (by simpa using Ne.symm hk)]
    · exact absurd (hI.ready _ h).2 (lt_irrefl _)
    · exact absurd (hI.hands u hu _ h).2 (lt_irrefl _)
  · have hout : g.out ⊆ ({ g with fresh := w.pool.nextCid :: g.fresh } : Hand).out := List.Subset.refl _
    exact owned_set hI hi hout h

theorem push_inv {vm : PoolVm} (hI : HandInv w gs) (hi : gs[i]? = some g) (hg : vm.cid ∈ g.fresh) :
    HandInv { w with pool := { w.pool with ready := w.pool.ready ++ [vm] } }
      (gs.set i { g with fresh := g.fresh.erase vm.cid }) := by
  have hout : g.out ⊆ ({ g with fresh := g.fresh.erase vm.cid } : Hand).out := List.Subset.refl _
  refine hI.move hi rfl (fun k => ?_) (fun id vm' hl => owned_set hI hi hout hl) hI.apart
  have hcount := (List.perm_cons_erase hg).count_eq k
  simp only [readyCids, Hand.all, Hand.out, List.map_append, List.count_append, List.count_cons, List.map_cons,
    List.map_nil, List.count_nil] at hcount ⊢
  omega

theorem pop_inv {vm : PoolVm} (hI : HandInv w gs) (hi : gs[i]? = some g) (hlast : w.pool.ready.getLast? = some vm) :
    HandInv { w with pool := { w.pool with ready := w.pool.ready.dropLast } }
      (gs.set i { g with fresh := vm.cid :: g.fresh }) := by
  have hout : g.out ⊆ ({ g with fresh := vm.cid :: g.fresh } : Hand).out := List.Subset.refl _
  refine hI.move hi rfl (fun k => ?_) (fun id vm' hl => owned_set hI hi hout hl) hI.apart
  have hready : w.pool.ready = w.pool.ready.dropLast ++ [vm] := (List.dropLast_append_getLast? vm hlast).symm
  have hcount : (readyCids w).count k = (w.pool.ready.dropLast.map (·.cid)).count k + [vm.cid].count k := by
    rw [← List.count_append, readyCids, hready]
    simp
  rw [hcount]
  simp only [readyCids, Hand.all, Hand.out, List.count_append, List.count_cons, List.count_nil]
  omega

/-- A VM that the task has made active is answered. -/
theorem answer_inv {a : Acquired} (hI : HandInv w gs) (hi : gs[i]? = some g) (hg : a.cid ∈ g.leased)
    (hpool : w'.pool = w.pool) :
    HandInv w' (gs.set i ⟨g.fresh, g.leased.erase a.cid, g.answered ++ [a.cid]⟩) := by
  have hperm : (g.leased.erase a.cid ++ (g.answered ++ [a.cid])).Perm g.out := by
    have hfront : (g.leased.erase a.cid ++ (g.answered ++ [a.cid])).Perm (a.cid :: g.leased.erase a.cid ++ g.answered) := by
      rw [← List.append_assoc]
      exact List.perm_append_singleton _ _
    exact hfront.trans ((List.perm_cons_erase hg).symm.append_right _)
  refine hI.frame hi (by rw [hpool]) (fun id vm hl => hpool ▸ hl) (by rw [hpool]) (hperm.append_left _) fun n hn => ?_
  exact hperm.mem_iff.mpr hn

end Step

/-! ### Runs -/

section Runs

variable {E : Env} {h : Host} {x : DaemonConf}

theorem hand_step {w w' : World} {gs : List Hand} {i : ℕ} {g : Hand} {a : Action} {c : Choice} {r : Answer a}
    (hI : HandInv w gs) (hi : gs[i]? = some g) (hreq : g.req a) (hp : perform E w a c = some (r, w'))
    (hlast : a = .pool .cidFetchAdd → w.pool.nextCid ≠ 18446744073709551615) : HandInv w' (gs.set i (g.upd a r)) := by
  have hsame : w'.pool = w.pool → HandInv w' (gs.set i g) := fun hpool =>
    hI.frame hi (by rw [hpool]) (fun id vm hl => hpool ▸ hl) (by rw [hpool]) (List.Perm.refl _) (List.Subset.refl _)
  cases a with
  | pool b =>
    obtain ⟨rfl, rfl⟩ := perform_pool hp
    cases b with
    | cidFetchAdd => exact draw_cid hI hi (hlast rfl)
    | readyPush vm => exact push_inv hI hi hreq
    | activeInsert vm => exact lease_inv hI hi hreq
    | readyPop =>
      show HandInv _ (gs.set i (g.upd (.pool .readyPop) w.pool.ready.getLast?))
      cases hvm : w.pool.ready.getLast? with
      | some vm => exact pop_inv hI hi hvm
      | none =>
        have hnil : w.pool.ready = [] := List.getLast?_eq_none_iff.mp hvm
        refine hI.frame hi ?_ (fun _ _ hl => hl) rfl (List.Perm.refl _) (List.Subset.refl _)
        show w.pool.ready.dropLast = w.pool.ready
        rw [hnil]
        rfl
    | activeRemove id =>
      refine hI.frame hi rfl (fun id' vm hl => ?_) rfl (List.Perm.refl _) (List.Subset.refl _)
      by_cases hid : id' = id
      · have hnone : (w.pool.active.erase id).lookup id' = none := hid ▸ Finmap.lookup_erase _ _
        cases hnone.symm.trans hl
      · exact (Finmap.lookup_erase_ne hid).symm.trans hl
    | _ => exact hI.frame hi rfl (fun _ _ hl => hl) rfl (List.Perm.refl _) (List.Subset.refl _)
  | reply resp =>
    have hpool : w'.pool = w.pool := pool_frame hp fun b he => (by cases he)
    cases resp with
    | acquired a => exact answer_inv hI hi hreq hpool
    | plain p => exact hsame hpool
  | _ => exact hsame (pool_frame hp fun b he => (by cases he))

theorem hand_append {w : World} {gs new : List Hand} (hI : HandInv w gs) (hnew : ∀ g ∈ new, g = Hand.empty) :
    HandInv w (gs ++ new) := by
  have hall : ∀ g ∈ new, g.all = [] := fun g hg => (by rw [hnew g hg]; rfl)
  refine ⟨hI.range, hI.ready, fun g hg n hn => ?_, hI.single.append hall, fun id vm hl => ?_, hI.apart⟩
  · rcases List.mem_append.mp hg with hg | hg
    · exact hI.hands g hg n hn
    · rw [hall g hg] at hn
      cases hn
  · obtain ⟨g, hg, hout⟩ := hI.owned id vm hl
    exact ⟨g, List.mem_append_left _ hg, hout⟩

theorem hand_inv (hx : (daemon E).Reach (fun x e => cidsLast x e = true) (boot E h) x) :
    HandInv x.shared (x.threads.map handOf) := by
  refine (System.Reach.inv HandInv (fun _ => True) (fun t => body_inHand t Hand.empty) ?_ ?_ ?_ ?_ hx).1
  · have hone : (boot E h).threads.map handOf = [Hand.empty] := rfl
    refine ⟨⟨le_refl 3, by show (3 : ℕ) < 18446744073709551616; omega⟩, fun n hn => (by cases hn), fun g hg n hn => ?_,
      fun k => Nat.zero_le 1, fun id vm hl => ?_, fun id _ vm _ hl => ?_⟩
    · rw [List.mem_singleton.mp hg] at hn
      cases hn
    · cases hl
    · cases hl
  · intro t ht
    obtain rfl := List.mem_singleton.mp ht
    exact body_inHand .main Hand.empty
  · intro x t hI _ _
    exact hand_append hI fun g hg => List.mem_singleton.mp hg
  · intro x i g a c r w' hI hi hreq hp hok
    refine ⟨trivial, hand_append (hand_step hI hi hreq hp fun he => ?_) fun g hg => ?_⟩
    · subst he
      exact of_decide_eq_true hok
    · obtain ⟨t, -, rfl⟩ := List.mem_map.mp hg
      rfl

theorem answered_upd (g : Hand) (a : Action) (r : Answer a) :
    (g.upd a r).answered = g.answered ++ (answerCid ⟨a, r⟩).toList := by
  have hnone : g.answered = g.answered ++ (none : Option ℕ).toList := (List.append_nil _).symm
  cases a with
  | pool b =>
    cases b with
    | readyPop => cases r <;> exact hnone
    | _ => exact hnone
  | reply resp =>
    cases resp with
    | acquired b => rfl
    | plain p => exact hnone
  | _ => exact hnone

theorem handOf_answered (t : Thread Action Answer Task) : (handOf t).answered = answeredBy t := by
  have hview : (handOf t).answered = t.log.foldl (fun l e => l ++ (answerCid e).toList) [] :=
    System.ghost_view Hand.answered _ t rfl fun g a r => (answered_upd g a r).symm
  rw [hview, List.foldl_append_eq_append, answeredBy, List.filterMap_eq_flatMap_toList]
  rfl

/-- **Every VM has one holder.**  In every run of the daemon in which the CID counter does not wrap, however its
requests, shadow runs and refills interleave and whichever of their steps fail. -/
theorem one_holder (hx : (daemon E).Reach (fun x e => cidsLast x e = true) (boot E h) x) : OneHolder x := by
  have hI := hand_inv hx
  have hout : answered x = (x.threads.map handOf).flatMap Hand.answered := by
    rw [List.flatMap_map]
    exact List.flatMap_congr fun t _ => (handOf_answered t).symm
  have hmine : ∀ id vm, x.shared.pool.active.lookup id = some vm → ∃ g ∈ x.threads.map handOf, vm.cid ∈ g.all := by
    intro id vm hl
    obtain ⟨g, hg, hmem⟩ := hI.owned id vm hl
    exact ⟨g, hg, List.mem_append_right _ hmem⟩
  refine ⟨?_, ?_, fun id vm hl => ?_, hI.apart, fun id vm hl => ?_, fun n hn => ?_, fun id vm hl => ?_⟩
  · rw [hout]
    refine hI.single.nodup_parts fun g _ k => ?_
    rw [Hand.all, Hand.out, List.count_append, List.count_append]
    omega
  · have hall : (readyCids x.shared ++ (x.threads.map handOf).flatMap Hand.all).Nodup :=
      hI.single.nodup_parts fun _ _ _ => le_refl _
    rwa [List.flatMap_map] at hall
  · obtain ⟨g, hg, hmem⟩ := hI.owned id vm hl
    obtain ⟨t, ht, rfl⟩ := List.mem_map.mp hg
    exact ⟨t, ht, hmem⟩
  · obtain ⟨g, hg, hmem⟩ := hmine id vm hl
    exact hI.single.not_mem hg hmem
  · rcases List.mem_append.mp hn with hn | hn
    · exact (hI.ready n hn).1
    · rw [hout] at hn
      obtain ⟨g, hg, hmem⟩ := List.mem_flatMap.mp hn
      exact (hI.hands g hg n (List.mem_append_right _ (List.mem_append_right _ hmem))).1
  · obtain ⟨g, hg, hmem⟩ := hmine id vm hl
    exact (hI.hands g hg _ hmem).1

end Runs

/-! ### A run -/

/-- One acquire takes the pool's VM, another one restores its own in between, and the pool is refilled. -/
def threeHolders : List (Label Choice Task) :=
  steps 0 13 100 ++ [.arrive bareAcquire, .arrive bareAcquire] ++ steps 1 1 101 ++ steps 2 3 102 ++ steps 1 4 101 ++
    steps 3 13 103 ++ steps 2 12 102

theorem one_holder_three : ∃ x, (daemon poolOfOne).Reach (fun x e => cidsLast x e = true)
    (boot poolOfOne (Host.withBase poolOfOne)) x ∧ readyCids x.shared ++ answered x = [5, 3, 4] ∧ OneHolder x := by
  have hrun : ((daemon poolOfOne).exec cidsLast (boot poolOfOne (Host.withBase poolOfOne)) threeHolders).any
      (fun x => decide (readyCids x.shared ++ answered x = [5, 3, 4])) = true := by
    decide +kernel
  obtain ⟨x, hx, hP⟩ := System.exists_reach hrun
  exact ⟨x, hx, of_decide_eq_true hP, one_holder hx⟩

end CloudHv.Daemon
