import CloudHv.Daemon.Rules
import CloudHv.Lib.Ledger

/-!
# Active — whose VMs are in the active table

A request or a shadow run that has put a VM into `active` answers for it until it hands the id to the
client or takes the VM out again.  Nothing gives the VM back when a later step fails, so the table is
exactly what clients hold only in runs where no step fails in between, where clients release what they
were given, and where no VM goes in under an id that is there already.
-/

namespace CloudHv.Daemon

open Conc

/-! ### The VM a task answers for -/

/-- `mayHold`: the task is a request or a shadow run. -/
structure Holding where
  mayHold : Bool
  held : Option String

def Task.holds : Task → Bool
  | .request _ | .shadow _ _ => true
  | _ => false

def Holding.init (t : Task) : Holding := ⟨t.holds, none⟩

def Holding.upd (g : Holding) : (a : Action) → Answer a → Holding
  | .pool (.activeInsert vm), _ => ⟨g.mayHold, some vm.vmId⟩
  | .pool (.activeRemove _), _ => ⟨g.mayHold, none⟩
  | .reply _, _ => ⟨g.mayHold, none⟩
  | _, _ => g

/-- A task takes one VM at a time, and answers AcquireSandbox with the VM it has. -/
def Holding.req (g : Holding) : Action → Prop
  | .pool (.activeInsert _) => g.mayHold = true ∧ g.held = none
  | .pool (.activeRemove id) => g.held = none ∨ g.held = some id
  | .reply (.acquired a) => g.held = some a.vmId
  | .reply (.plain _) => g.held = none
  | _ => True

/-- While a task answers for a VM nothing fails. -/
def Holding.may (g : Holding) (a : Action) (r : Answer a) : Prop := g.held ≠ none → failed a r = false

def holding : Discipline Action Answer Holding := ⟨Holding.upd, Holding.req, Holding.may⟩

/-- The VM that thread `i` answers for. -/
def heldBy (x : DaemonConf) (i : ℕ) : Option String :=
  (x.threads[i]?).bind fun t => (System.ghost holding Holding.init t).held

/-- The steps that lose no VM: none fails in a task that answers for one, a release is of an id that a
client was given or that is not active (or of the shadow run's own VM), and no id goes in twice. -/
def keepsTrack (x : DaemonConf) : Event Action Answer Task → Bool
  | .arrive _ => true
  | .act i a r => ((heldBy x i).isNone || !failed a r) && match a with
    | .pool (.activeRemove id) =>
      id ∈ x.shared.handed || id ∉ x.shared.pool.active || heldBy x i = some id
    | .pool (.activeInsert vm) => vm.vmId ∉ x.shared.pool.active
    | _ => true

/-! ### The tasks -/

section Tasks

variable {E : Env}

theorem holding_plain {g : Holding} {a : Action} (h : a.kind ≠ .active) (hr : a.kind ≠ .reply) :
    holding.req g a ∧ ∀ r, holding.may g a r → holding.upd g a r = g := by
  cases a with
  | pool b => cases b <;> first | exact absurd rfl h | exact ⟨trivial, fun _ _ => rfl⟩
  | reply r => exact absurd rfl hr
  | _ => exact ⟨trivial, fun _ _ => rfl⟩

/-- Code that does not touch the active table leaves a task with the VM it has. -/
theorem uses_holding {α : Type} {ks : List Kind} {m : M α} {g : Holding} {Q : α → Holding → Prop}
    {F : Fail → Holding → Prop} (h : Uses ks m) (ha : Kind.active ∉ ks) (hr : Kind.reply ∉ ks)
    (hQ : ∀ x, Q x g) (hF : ∀ e, F e g) : wpx holding m Q F g :=
  Only.wp h (fun a hk => holding_plain (fun he => ha (he ▸ hk)) (fun he => hr (he ▸ hk))) fun r => by
    cases r with
    | ok x => exact hQ x
    | error e => exact hF e

/-- Code that stops at its first failed step does not fail while its task answers for a VM. -/
theorem strict_holding {α : Type} {ks : List Kind} {m : M α} {b : Bool} {id : String}
    {Q : α → Holding → Prop} {F : Fail → Holding → Prop} (h : Strict ks m) (ha : Kind.active ∉ ks)
    (hr : Kind.reply ∉ ks) (hQ : ∀ x, Q x ⟨b, some id⟩) : wpx holding m Q F ⟨b, some id⟩ := by
  refine FailFast.wpx h (fun a hk => ?_) hQ (fun a r e _ hm hb => ?_)
  · obtain ⟨hreq, hupd⟩ := holding_plain (g := ⟨b, some id⟩) (fun he => ha (he ▸ hk))
      (fun he => hr (he ▸ hk))
    exact ⟨hreq, fun r hm _ => hupd r hm⟩
  · have hf : failed a r = false := hm (by simp)
    rw [hf] at hb
    cases hb

theorem registerActive_holding {vm : PoolVm} {Q : Unit → Holding → Prop} {F : Fail → Holding → Prop}
    (hQ : Q () ⟨true, some vm.vmId⟩) : wpx holding (registerActive vm) Q F ⟨true, none⟩ := by
  unfold registerActive
  rw [wpx_bind, wpx_pool]
  refine ⟨trivial, fun _ _ => wpx_pool.mpr ⟨⟨rfl, rfl⟩, fun _ _ => hQ⟩⟩

theorem acquire_holding {Q : PoolVm → Holding → Prop} {F : Fail → Holding → Prop}
    (hQ : ∀ vm : PoolVm, Q vm ⟨true, some vm.vmId⟩) (hF : ∀ e, F e ⟨true, none⟩) :
    wpx holding (acquire E) Q F ⟨true, none⟩ := by
  unfold acquire
  rw [wpx_bind, wpx_pool]
  refine ⟨trivial, fun r _ => ?_⟩
  cases r with
  | some vm => exact wpx_bind.mpr (registerActive_holding (hQ vm))
  | none =>
    refine wpx_bind.mpr (uses_holding (restoreOne_strict E).uses (by simp) (by simp) (fun vm => ?_) hF)
    exact wpx_bind.mpr (registerActive_holding (hQ vm))

/-- A release takes the VM out before anything in it can fail. -/
theorem release_holding {id : String} {b : Bool} {h : Option String} {Q : Unit → Holding → Prop}
    {F : Fail → Holding → Prop} (hh : h = none ∨ h = some id) (hQ : Q () ⟨b, none⟩)
    (hF : ∀ e, F e ⟨b, none⟩) : wpx holding (release E id) Q F ⟨b, h⟩ := by
  unfold release
  rw [wpx_bind, wpx_pool]
  refine ⟨hh, fun r _ => ?_⟩
  have hd : wpx holding (destroyVm E id) Q F ⟨b, none⟩ :=
    uses_holding (destroyVm_uses E id) (by simp) (by simp) (fun _ => hQ) hF
  cases r with
  | some vm => exact wpx_bind.mpr (wpx_pool.mpr ⟨trivial, fun _ _ => hd⟩)
  | none => exact hd

/-- The answer of AcquireSandbox has the VM of the task, or the task has none. -/
def Answered (r : Response) (g : Holding) : Prop :=
  g.mayHold = true ∧ match r with
    | .acquired a => g.held = some a.vmId
    | .plain _ => g.held = none

theorem acquireWarm_holding {req : AcquireRequest} {Q : Option Response → Holding → Prop}
    {F : Fail → Holding → Prop} (hsome : ∀ r g, Answered r g → Q (some r) g) (hnone : Q none ⟨true, none⟩)
    (hF : ∀ e, F e ⟨true, none⟩) : wpx holding (acquireWarm E req) Q F ⟨true, none⟩ := by
  unfold acquireWarm
  rw [wpx_bind, wpx_tell]
  refine ⟨trivial, fun seq _ => ?_⟩
  rw [wpx_bind, wpx_attempt]
  refine uses_holding (createDirAll_strict _).uses (by simp) (by simp) (fun u => ?_) (fun e => ?_)
  · rw [wpx_bind, wpx_pool]
    refine ⟨trivial, fun cid _ => ?_⟩
    rw [wpx_bind, wpx_attempt]
    refine uses_holding (restoreFromSnapshot_strict _ _ _).uses (by simp) (by simp) (fun r => ?_) (fun e => ?_)
    · obtain ⟨pid, api, vsock⟩ := r
      refine wpx_bind.mpr (uses_holding (warmNetwork_uses req _ api vsock) (by simp) (by simp)
        (fun r => ?_) hF)
      cases r with
      | error msg => exact hsome _ _ ⟨rfl, rfl⟩
      | ok tap => exact wpx_bind.mpr (registerActive_holding (hsome _ _ ⟨rfl, rfl⟩))
    · cases e with
      | err e => exact hnone
      | panic => exact hF _
  · cases e with
    | err e => exact hsome _ _ ⟨rfl, rfl⟩
    | panic => exact hF _

theorem acquirePool_holding {req : AcquireRequest} {Q : Response → Holding → Prop}
    {F : Fail → Holding → Prop} (hQ : ∀ r g, Answered r g → Q r g) (hF : ∀ e, F e ⟨true, none⟩) :
    wpx holding (acquirePool E req) Q F ⟨true, none⟩ := by
  unfold acquirePool
  rw [wpx_bind, wpx_attempt]
  refine acquire_holding (fun vm => ?_) (fun e => ?_)
  · rw [wpx_bind, wpx_tell]
    refine ⟨trivial, fun _ _ => ?_⟩
    have hshadow : ∀ {Q : Unit → Holding → Prop}, Q () ⟨true, some vm.vmId⟩ →
        wpx holding (shadowFor req) Q F ⟨true, some vm.vmId⟩ := by
      intro Q hQ
      unfold shadowFor
      split
      · unfold triggerShadow
        rw [wpx_bind, wpx_snap]
        refine ⟨trivial, fun b _ => ?_⟩
        split
        · exact hQ
        · rw [wpx_bind, wpx_snap]
          refine ⟨trivial, fun b _ => ?_⟩
          split
          · exact hQ
          · rw [wpx_bind, wpx_tell]
            exact ⟨trivial, fun _ _ => wpx_snap.mpr ⟨trivial, fun _ _ => hQ⟩⟩
      · exact hQ
    refine wpx_bind.mpr (hshadow ?_)
    rw [wpx_bind, wpx_attempt]
    refine strict_holding (acquireContainer_strict E req vm) (by simp) (by simp) (fun r => ?_)
    obtain ⟨pid, tap⟩ := r
    exact hQ _ _ ⟨rfl, rfl⟩
  · cases e with
    | err e => exact hQ _ _ ⟨rfl, rfl⟩
    | panic => exact hF _

theorem handleAcquire_holding {req : AcquireRequest} {Q : Response → Holding → Prop}
    {F : Fail → Holding → Prop} (hQ : ∀ r g, Answered r g → Q r g) (hF : ∀ e, F e ⟨true, none⟩) :
    wpx holding (handleAcquire E req) Q F ⟨true, none⟩ := by
  unfold handleAcquire
  refine wpx_bind.mpr (uses_holding (hasWarmSnapshot_uses req) (by simp) (by simp) (fun b => ?_) hF)
  split
  · exact wpx_bind.mpr (acquireWarm_holding (fun r g hg => hQ r g hg) (acquirePool_holding hQ hF) hF)
  · exact acquirePool_holding hQ hF

theorem serve_holding (r : Request) :
    wp holding (serve E r).toTask (fun _ g => g.held = none) ⟨true, none⟩ := by
  refine wp_toTask ?_
  unfold serve
  rw [wpx_bind]
  have hreply : ∀ (resp : Response) (g : Holding), Answered resp g →
      wpx holding (tell (.reply resp)) (fun _ g => g.held = none) (fun _ g => g.held = none) g := by
    intro resp g hg
    refine wpx_tell.mpr ⟨?_, fun _ _ => rfl⟩
    cases resp with
    | acquired a => exact hg.2
    | plain p => exact hg.2
  rcases handle_call E r with ⟨req, rfl⟩ | ⟨id, rfl⟩ | ⟨m, hm, he⟩
  · exact handleAcquire_holding hreply fun _ => rfl
  · refine (wpx_bind (m := handleRelease E id)).mpr ?_
    have hplain : ∀ p : Plain, Answered (.plain p) ⟨true, none⟩ := fun p => ⟨rfl, rfl⟩
    unfold handleRelease
    split
    · exact hreply _ _ (hplain _)
    · rw [wpx_bind, wpx_tell]
      refine ⟨trivial, fun _ _ => ?_⟩
      rw [wpx_bind, wpx_attempt]
      refine release_holding (.inl rfl) (hreply _ _ (hplain _)) (fun e => ?_)
      cases e with
      | err e => exact hreply _ _ (hplain _)
      | panic => rfl
  · rw [he, wpx_bind]
    exact uses_holding hm (by simp [callKinds]) (by simp [callKinds])
      (fun p => hreply _ _ ⟨rfl, rfl⟩) (fun _ => rfl)

theorem shadow_holding (key erofs : String) :
    wp holding (shadowTask E key erofs).toTask (fun _ g => g.held = none) ⟨true, none⟩ := by
  refine wp_toTask ?_
  unfold shadowTask
  refine wpx_bind.mpr (wpx_attempt_any ?_)
  have hend : ∀ r : Except Agent.Err Unit, wpx holding (snap (.shadowsRemove key))
      (fun _ g => g.held = none) (fun _ g => g.held = none) ⟨true, none⟩ := fun _ =>
    wpx_snap.mpr ⟨trivial, fun _ _ => rfl⟩
  have herr : ∀ (_ : Fail) (_ : Agent.Err), wpx holding (snap (.shadowsRemove key)) (fun _ g => g.held = none)
      (fun _ g => g.held = none) ⟨true, none⟩ ∧ (⟨true, none⟩ : Holding).held = none :=
    fun _ q => ⟨hend (.error q), rfl⟩
  unfold runShadow
  refine wpx_bind.mpr (uses_holding (createDirAll_strict _).uses (by simp) (by simp) (fun _ => ?_) herr)
  rw [wpx_bind, wpx_context]
  refine acquire_holding (fun vm => ?_) herr
  refine wpx_bind.mpr (strict_holding (Strict.context (.askVia rfl fun _ => rfl) : Strict [.disk] _)
    (by simp) (by simp) fun _ => ?_)
  refine wpx_bind.mpr (strict_holding (connectAgent_strict _) (by simp) (by simp) fun agent => ?_)
  refine wpx_bind.mpr (strict_holding (runContainerRpc_strict _ _ _) (by simp) (by simp) fun _ => ?_)
  rw [wpx_bind, wpx_tell]
  refine ⟨trivial, fun _ _ => ?_⟩
  refine wpx_bind.mpr (strict_holding (createDirAll_strict _) (by simp) (by simp) fun _ => ?_)
  refine wpx_bind.mpr (strict_holding (apiRequest_strict _ _) (by simp) (by simp) fun _ => ?_)
  refine wpx_bind.mpr (strict_holding (apiRequest_strict _ _) (by simp) (by simp) fun _ => ?_)
  refine wpx_bind.mpr (strict_holding (Strict.askVia rfl fun _ => rfl : Strict [.file] _)
    (by simp) (by simp) fun _ => ?_)
  rw [wpx_bind, wpx_host]
  refine ⟨trivial, fun mtime _ => ?_⟩
  rw [wpx_bind, wpx_snap]
  exact ⟨trivial, fun _ _ => release_holding (.inr rfl) (hend (.ok ())) herr⟩

theorem body_holding (t : Task) : wp holding (t.body E) (fun _ g => g.held = none) (Holding.init t) := by
  cases t with
  | main =>
    exact wp_toTask (uses_holding (mainTask_uses E) (by simp [fillKinds]) (by simp [fillKinds])
      (fun _ => rfl) (fun _ => rfl))
  | request r => exact serve_holding r
  | replenish =>
    exact wp_toTask (uses_holding (replenishTask_uses E) (by simp [fillKinds]) (by simp [fillKinds])
      (fun _ => rfl) (fun _ => rfl))
  | shadow key erofs => exact shadow_holding key erofs
  | touch f t => exact ⟨trivial, fun _ _ => rfl⟩

end Tasks

/-! ### Runs -/

/-- The table's keys are handed out, or some task answers for them. -/
def HoldInv (w : World) (gs : List Holding) : Prop :=
  Ledger {id | id ∈ w.pool.active} {id | id ∈ w.handed} (slots (·.held) gs) ∧
    ∀ g ∈ gs, g.mayHold = false → g.held = none

/-- Only these actions change the active table, the handed-out ids or what a task answers for. -/
def Action.moves : Action → Bool
  | .pool (.activeInsert _) | .pool (.activeRemove _) | .reply _ => true
  | _ => false

theorem hold_frame {E : Env} {w w' : World} {a : Action} {c : Choice} {r : Answer a} {g : Holding}
    (h : perform E w a c = some (r, w')) (ha : a.moves = false) :
    w'.pool.active = w.pool.active ∧ w'.handed = w.handed ∧ holding.upd g a r = g := by
  cases a with
  | pool b =>
    obtain ⟨-, rfl⟩ := perform_pool h
    cases b <;> first | exact ⟨rfl, rfl, rfl⟩ | cases ha
  | host b =>
    obtain ⟨h', -, rfl⟩ := perform_host h
    exact ⟨rfl, rfl, rfl⟩
  | snap b =>
    obtain ⟨s, dirs, -, rfl⟩ := perform_snap h
    exact ⟨rfl, rfl, rfl⟩
  | bindSocket => rcases perform_bind h with rfl | rfl <;> exact ⟨rfl, rfl, rfl⟩
  | reply resp => cases ha
  | _ =>
    obtain ⟨rfl, rfl⟩ := Prod.mk.inj (Option.some.inj h)
    exact ⟨rfl, rfl, rfl⟩

theorem init_held (a : Action) (r : Answer a) :
    ∀ n ∈ (spawned a r).map Holding.init, n.held = none := by
  intro n hn
  obtain ⟨t, -, rfl⟩ := List.mem_map.mp hn
  rfl

theorem mem_active_insert (p : Pool) (vm : PoolVm) :
    {id | id ∈ (p.perform (.activeInsert vm)).2.active} = insert vm.vmId {id | id ∈ p.active} := by
  ext id
  simp [Pool.perform, Finmap.mem_insert]

theorem mem_active_remove (p : Pool) (vmId : String) :
    {id | id ∈ (p.perform (.activeRemove vmId)).2.active} = {id | id ∈ p.active} \ {vmId} := by
  ext id
  simp [Pool.perform, Finmap.mem_erase, and_comm]

/-- A task that is no request and no shadow run takes no VM. -/
theorem upd_mayHold (g : Holding) (a : Action) (r : Answer a) :
    (holding.upd g a r).mayHold = g.mayHold := by
  cases a with
  | pool b => cases b <;> rfl
  | reply resp => rfl
  | _ => rfl

theorem upd_held {g : Holding} {a : Action} (r : Answer a) (hreq : holding.req g a)
    (hm : g.mayHold = false) (hg : g.held = none) : (holding.upd g a r).held = none := by
  cases a with
  | pool b =>
    cases b with
    | activeInsert vm =>
      have ht : g.mayHold = true := hreq.1
      rw [hm] at ht
      cases ht
    | activeRemove id => rfl
    | _ => exact hg
  | reply resp => rfl
  | _ => exact hg

theorem hold_ledger {E : Env} {x : DaemonConf} {gs : List Holding} {i : ℕ} {g : Holding} {a : Action}
    {c : Choice} {r : Answer a} {w' : World}
    (hL : Ledger {id | id ∈ x.shared.pool.active} {id | id ∈ x.shared.handed} (slots (·.held) gs))
    (hfi : slots (·.held) gs i = g.held) (hheld : heldBy x i = g.held) (hreq : holding.req g a)
    (hp : perform E x.shared a c = some (r, w')) (hok : keepsTrack x (.act i a r) = true) :
    Ledger {id | id ∈ w'.pool.active} {id | id ∈ w'.handed}
      (Function.update (slots (·.held) gs) i (holding.upd g a r).held) := by
  simp only [keepsTrack, Bool.and_eq_true] at hok
  have hcond := hok.2
  cases hmv : a.moves with
  | false =>
    obtain ⟨hact, hhand, hupd⟩ := hold_frame (g := g) hp hmv
    rw [hact, hhand, hupd, ← hfi, Function.update_eq_self]
    exact hL
  | true =>
    cases a with
    | pool b =>
      obtain ⟨-, rfl⟩ := perform_pool hp
      cases b with
      | activeInsert vm =>
        have hfree : vm.vmId ∉ x.shared.pool.active := of_decide_eq_true hcond
        have hnone : slots (·.held) gs i = none := hfi.trans hreq.2
        rw [show {id | id ∈ (x.shared.pool.perform (.activeInsert vm)).2.active} = _ from
          mem_active_insert x.shared.pool vm]
        exact hL.take hnone hfree
      | activeRemove id =>
        have hkeys := mem_active_remove x.shared.pool id
        have hback : {k | k ∈ x.shared.handed.erase id} = {k | k ∈ x.shared.handed} \ {id} := by
          ext k
          simp [and_comm]
        show Ledger {k | k ∈ (x.shared.pool.perform (.activeRemove id)).2.active}
          {k | k ∈ x.shared.handed.erase id} (Function.update _ i none)
        rw [hkeys, hback]
        by_cases hg : g.held = some id
        · exact hL.giveBack (hfi.trans hg)
        · -- the id of a client, or one that is not there: the task itself has no VM
          have hnone : g.held = none := Or.resolve_right hreq hg
          have hwho : id ∈ x.shared.handed ∨ id ∉ x.shared.pool.active := by
            simpa [hheld, hnone] using hcond
          rw [← hnone, ← hfi, Function.update_eq_self]
          exact hL.drop hwho
      | _ => cases hmv
    | reply resp =>
      obtain ⟨-, rfl⟩ := Prod.mk.inj (Option.some.inj hp)
      cases resp with
      | acquired q =>
        have hset : {k | k ∈ insert q.vmId x.shared.handed} = insert q.vmId {k | k ∈ x.shared.handed} := by
          ext k
          simp
        show Ledger {k | k ∈ x.shared.pool.active} {k | k ∈ insert q.vmId x.shared.handed}
          (Function.update _ i none)
        rw [hset]
        exact hL.handOver (hfi.trans hreq)
      | plain p =>
        have hnone : g.held = none := hreq
        show Ledger {k | k ∈ x.shared.pool.active} {k | k ∈ x.shared.handed} (Function.update _ i none)
        rw [← hnone, ← hfi, Function.update_eq_self]
        exact hL
    | _ => cases hmv

theorem hold_step {E : Env} {x : DaemonConf} {gs : List Holding} {i : ℕ} {g : Holding} {a : Action}
    {c : Choice} {r : Answer a} {w' : World} (hI : HoldInv x.shared gs) (hi : gs[i]? = some g)
    (hheld : heldBy x i = g.held) (hreq : holding.req g a) (hp : perform E x.shared a c = some (r, w'))
    (hok : keepsTrack x (.act i a r) = true) :
    holding.may g a r ∧ HoldInv w' (gs.set i (holding.upd g a r) ++ (spawned a r).map Holding.init) := by
  obtain ⟨hL, hbg⟩ := hI
  refine ⟨fun hne => ?_, ?_, fun u hu hm => ?_⟩
  · simp only [keepsTrack, Bool.and_eq_true, Bool.or_eq_true] at hok
    rcases hok.1 with hn | hf
    · rw [hheld] at hn
      exact absurd (Option.isNone_iff_eq_none.mp hn) hne
    · simpa using hf
  · rw [slots_set hi _ (init_held a r)]
    exact hold_ledger hL (slots_of_getElem? hi) hheld hreq hp hok
  · rcases List.mem_append.mp hu with hu | hu
    · rcases List.mem_or_eq_of_mem_set hu with hu | rfl
      · exact hbg u hu hm
      · rw [upd_mayHold] at hm
        exact upd_held r hreq hm (hbg g (List.mem_of_getElem? hi) hm)
    · exact init_held a r u hu

theorem heldBy_eq {x : DaemonConf} {i : ℕ} {g : Holding}
    (hi : (x.threads.map (System.ghost holding Holding.init))[i]? = some g) : heldBy x i = g.held := by
  rw [List.getElem?_map, Option.map_eq_some_iff] at hi
  obtain ⟨t, ht, rfl⟩ := hi
  rw [heldBy, ht, Option.bind_some]

theorem hold_inv {E : Env} {h : Host} {x : DaemonConf}
    (hx : (daemon E).Reach (fun x e => keepsTrack x e = true) (boot E h) x) :
    HoldInv x.shared (x.threads.map (System.ghost holding Holding.init)) ∧
      ∀ t ∈ x.threads, wp holding t.prog (fun _ g => g.held = none) (System.ghost holding Holding.init t) := by
  refine System.Reach.inv HoldInv (fun g => g.held = none) (fun t => body_holding t) ?_ ?_ ?_ ?_ hx
  · have hnone : ∀ g ∈ (boot E h).threads.map (System.ghost holding Holding.init), g.held = none := by
      intro g hg
      rw [List.mem_singleton.mp hg]
      rfl
    have hkeys : {id | id ∈ (boot E h).shared.pool.active} = ∅ :=
      Set.eq_empty_of_forall_notMem fun _ => Finmap.notMem_empty
    have hhand : {id | id ∈ (boot E h).shared.handed} = ∅ :=
      Set.eq_empty_of_forall_notMem fun id => Finset.notMem_empty id
    refine ⟨?_, fun g hg _ => hnone g hg⟩
    rw [slots_of_none hnone, hkeys, hhand]
    exact Ledger.empty
  · intro t ht
    simp only [boot, System.init, List.mem_singleton] at ht
    subst ht
    exact body_holding .main
  · intro x t hI _ _
    have hnew : ∀ n ∈ [Holding.init t], n.held = none := by
      intro n hn
      rw [List.mem_singleton.mp hn]
      rfl
    refine ⟨?_, fun u hu hm => ?_⟩
    · rw [slots_append hnew]
      exact hI.1
    · rcases List.mem_append.mp hu with hu | hu
      · exact hI.2 u hu hm
      · exact hnew u hu
  · intro x i g a c r w' hI hi hreq hp hok
    exact hold_step hI hi (heldBy_eq hi) hreq hp hok

/-- What a task may hold is settled when it starts. -/
theorem ghost_mayHold (t : Thread Action Answer Task) :
    (System.ghost holding Holding.init t).mayHold = t.task.holds :=
  System.ghost_reading (f := Holding.mayHold) upd_mayHold t

/-- **The active table is what the clients hold.**  In every run whose steps lose no VM, whenever no
request and no shadow run is in flight, the VMs in `active` are exactly those that error-free
AcquireSandbox answers returned and that were not released since. -/
theorem active_eq_handed {E : Env} {h : Host} {x : DaemonConf}
    (hx : (daemon E).Reach (fun x e => keepsTrack x e = true) (boot E h) x)
    (hq : ∀ t ∈ x.threads, t.task.holds = true → t.prog.done = true) :
    x.shared.pool.active.keys = x.shared.handed := by
  obtain ⟨⟨hL, hbg⟩, hW⟩ := hold_inv hx
  have hnone : ∀ g ∈ x.threads.map (System.ghost holding Holding.init), g.held = none := by
    intro g hg
    obtain ⟨t, ht, rfl⟩ := List.mem_map.mp hg
    cases hm : t.task.holds with
    | false => exact hbg _ hg ((ghost_mayHold t).trans hm)
    | true =>
      have hw := hW t ht
      have hd := hq t ht hm
      cases hp : t.prog with
      | ret u => rw [hp] at hw; exact hw
      | act a k => rw [hp] at hd; cases hd
  rw [slots_of_none hnone] at hL
  ext id
  rw [Finmap.mem_keys]
  exact Set.ext_iff.mp hL.settled id

/-! ### Two runs -/

/-- A request for a VM with a container. -/
def acquireWeb : Task := .request (.acquireSandbox ⟨"", "", "/img.erofs", "web", ""⟩)

/-- The hot-plug of the container's disk fails, and the client gets an error. -/
def failedPlug : List (Label Choice Task) :=
  steps 0 13 100 ++ [.arrive acquireWeb] ++ steps 1 4 101 ++
    [.sched 1 { Choice.fine 101 with api := some (.connect "refused") }] ++ steps 1 1 101

/-- A VM that was acquired for a request that then failed stays in the table. -/
theorem failed_acquire_keeps_vm : ∃ x, (daemon poolOfOne).Reach (fun _ _ => True)
    (boot poolOfOne (Host.withBase poolOfOne)) x ∧
    (∀ t ∈ x.threads, t.task.holds = true → t.prog.done = true) ∧
    ¬ x.shared.pool.active.keys = x.shared.handed := by
  have hrun : ((daemon poolOfOne).exec (fun _ _ => true) (boot poolOfOne (Host.withBase poolOfOne))
      failedPlug).any (fun x => decide ((∀ t ∈ x.threads, t.task.holds = true → t.prog.done = true) ∧
        ¬ x.shared.pool.active.keys = x.shared.handed)) = true := by
    decide +kernel
  obtain ⟨x, hx, hP⟩ := System.exists_reach hrun
  exact ⟨x, hx.mono fun _ _ _ => trivial, of_decide_eq_true hP⟩

/-- Two acquires, and a release of the first VM. -/
def acquireTwice : List (Label Choice Task) :=
  steps 0 13 100 ++ [.arrive acquireWeb] ++ steps 1 10 101 ++ [.arrive bareAcquire] ++ steps 3 15 102 ++
    [.arrive (.request (.releaseSandbox "pool-7-3"))] ++ steps 5 8 103

theorem active_eq_handed_released : ∃ x, (daemon poolOfOne).Reach (fun x e => keepsTrack x e = true)
    (boot poolOfOne (Host.withBase poolOfOne)) x ∧ x.shared.handed = {"pool-7-4"} ∧
    x.shared.pool.active.keys = x.shared.handed := by
  have hrun : ((daemon poolOfOne).exec keepsTrack (boot poolOfOne (Host.withBase poolOfOne))
      acquireTwice).any (fun x => decide ((∀ t ∈ x.threads, t.task.holds = true → t.prog.done = true) ∧
        x.shared.handed = {"pool-7-4"})) = true := by
    decide +kernel
  obtain ⟨x, hx, hP⟩ := System.exists_reach hrun
  obtain ⟨hq, hhand⟩ := of_decide_eq_true hP
  exact ⟨x, hx, hhand, active_eq_handed hx hq⟩

end CloudHv.Daemon
