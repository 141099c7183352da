import CloudHv.Daemon.Rules

/-!
# Parts — what every task keeps

`Keeps D K m`: the code `m` meets the discipline `D` from every ghost value with `K`, and ends in one with
`K`, failed or not.  Most disciplines watch one short stretch of code and have such a `K` everywhere else.
`Parts` are the stretches that occur in several tasks; once each of them keeps `K`, every task does.
-/

namespace CloudHv.Daemon

open Conc

section Keeps

variable {γ α β ε : Type} {D : Discipline Action Answer γ} {K : γ → Prop}

def Keeps (D : Discipline Action Answer γ) (K : γ → Prop) (m : M α) : Prop :=
  ∀ g, K g → wpx D m (fun _ g' => K g') (fun _ g' => K g') g

namespace Keeps

theorem pure (x : α) : Keeps D K (pure x : M α) := fun _ hg => hg

theorem bind {m : M α} {f : α → M β} (hm : Keeps D K m) (hf : ∀ x, Keeps D K (f x)) : Keeps D K (m >>= f) :=
  fun g hg => wpx_bind.mpr (wpx_mono (hm g hg) (fun x g' hg' => hf x g' hg') fun _ _ hg' => hg')

/-- Code that keeps `K`, and then code that does not. -/
theorem seq {m : M α} {f : α → M β} {Q : β → γ → Prop} {F : Fail → γ → Prop} (hm : Keeps D K m)
    (hF : ∀ e g, K g → F e g) (hf : ∀ x g, K g → wpx D (f x) Q F g) (g : γ) (hg : K g) : wpx D (m >>= f) Q F g :=
  wpx_bind.mpr (wpx_mono (hm g hg) (fun x g' hg' => hf x g' hg') hF)

theorem tell {a : Action} (h : ∀ g, K g → D.req g a ∧ ∀ r, D.may g a r → K (D.upd g a r)) :
    Keeps D K (tell a) := fun g hg => wpx_tell.mpr (h g hg)

/-- Code whose actions all keep `K`. -/
theorem only {P : Action → Prop} {m : M α} (h : Only P m.run) (hP : ∀ a, P a → Keeps D K (Daemon.tell a)) :
    Keeps D K m := by
  intro g hg
  unfold wpx semx
  generalize m.run = p at h
  induction p generalizing g with
  | ret r => cases r <;> exact hg
  | act a k ih =>
    obtain ⟨hreq, hupd⟩ := wpx_tell.mp (hP a h.1 g hg)
    exact ⟨hreq, fun r hr => ih r (D.upd g a r) (hupd r hr) (h.2 r)⟩

theorem uses {ks : List Kind} {m : M α} (h : Uses ks m)
    (hk : ∀ a : Action, a.kind ∈ ks → Keeps D K (Daemon.tell a)) : Keeps D K m := only h hk

/-- Code that uses no kind of `out`. -/
theorem kinds {ks out : List Kind} {m : M α} (h : Uses ks m) (hks : ks.all (fun k => !out.elem k) = true)
    (hact : ∀ a : Action, a.kind ∉ out → Keeps D K (Daemon.tell a)) : Keeps D K m := by
  refine uses h fun a ha => hact a fun hm => ?_
  have hn := List.all_eq_true.mp hks _ ha
  rw [List.elem_iff.mpr hm] at hn
  cases hn

theorem ask {a : Action} {res : Answer a → Except ε α} {wrap : ε → Agent.Err} (h : Keeps D K (Daemon.tell a)) :
    Keeps D K (ask (Prog.act a fun r => .ret (res r)) wrap) := by
  intro g hg
  obtain ⟨hreq, hupd⟩ := wpx_tell.mp (h g hg)
  refine wpx_ask.mpr ⟨hreq, fun r hr => ?_⟩
  show wp D (.ret (res r)) _ _
  cases res r <;> exact hupd r hr

theorem context {m : M α} {ctx : String} (h : Keeps D K m) : Keeps D K (context m ctx) :=
  fun g hg => wpx_context.mpr (h g hg)

theorem attempt {m : M α} (h : Keeps D K m) : Keeps D K (attempt m) := by
  intro g hg
  refine wpx_attempt.mpr (wpx_mono (h g hg) (fun _ _ hg' => hg') fun e _ hg' => ?_)
  cases e <;> exact hg'

theorem ite {c : Prop} [Decidable c] {m m' : M α} (h : Keeps D K m) (h' : Keeps D K m') :
    Keeps D K (if c then m else m') := by
  split
  · exact h
  · exact h'

theorem toTask {m : M Unit} (h : Keeps D K m) {g : γ} (hg : K g) : wp D m.toTask (fun _ g' => K g') g :=
  wp_toTask (h g hg)

end Keeps

end Keeps

/-! ### The parts -/

/-- The kinds of task. -/
inductive Role where
  | main | replenish | client | shadow | other
  deriving DecidableEq

def Task.role : Task → Role
  | .main => .main
  | .replenish => .replenish
  | .request _ => .client
  | .shadow _ _ => .shadow
  | .touch _ _ => .other


/-- The actions that occur in the parts only. -/
def Action.inner : Action → Bool
  | .pool .cidLoad | .pool .countAdd | .pool (.activeInsert _) | .pool (.activeRemove _) | .pool .countSub
  | .snap (.shadowsContains _) | .spawnShadow _ _ | .snap (.shadowsInsert _) | .snap (.shadowsRemove _)
  | .snap (.cacheSnapshot _ _ _) => true
  | _ => false

/-- Those, and the actions of shadow runs, warm restores, releases and containers. -/
def Action.special : Action → Bool
  | .snap (.getSnapshotDir _) | .agentsInsert _ _ | .agentsRemove _
  | .host (.fileMtime _) | .host (.stripKernelIp _) | .host (.addDisk _ _) => true
  | a => a.inner

/-- The kinds of these actions. -/
def innerKinds : List Kind := [.counter, .active, .cache, .task]

def specialKinds : List Kind := [.counter, .active, .cache, .task, .registry, .file, .disk]

theorem inner_of_kind {a : Action} (hk : a.kind ∉ innerKinds) : a.inner = false := by
  cases a with
  | pool b => cases b <;> first | rfl | exact absurd (List.elem_iff.mp rfl) hk
  | snap b => exact absurd (List.elem_iff.mp rfl) hk
  | spawnShadow key erofs => exact absurd (List.elem_iff.mp rfl) hk
  | _ => rfl

theorem special_of_kind {a : Action} (hk : a.kind ∉ specialKinds) : a.special = false := by
  cases a with
  | pool b => cases b <;> first | rfl | exact absurd (List.elem_iff.mp rfl) hk
  | snap b => exact absurd (List.elem_iff.mp rfl) hk
  | host b => cases b <;> first | rfl | exact absurd (List.elem_iff.mp rfl) hk
  | spawnShadow key erofs => exact absurd (List.elem_iff.mp rfl) hk
  | agentsInsert id conn => exact absurd (List.elem_iff.mp rfl) hk
  | agentsRemove id => exact absurd (List.elem_iff.mp rfl) hk
  | _ => rfl

/-- The parts of the tasks that are no shadow tasks. -/
structure PlainParts {γ : Type} (D : Discipline Action Answer γ) (K : γ → Prop) (E : Env) : Prop where
  act : ∀ a : Action, a.special = false → Keeps D K (tell a)
  restore : Keeps D K (restoreOne E)
  register : ∀ vm, Keeps D K (registerActive vm)
  release : ∀ id, Keeps D K (handleRelease E id)
  trigger : ∀ key erofs, Keeps D K (triggerShadow key erofs)
  warm : ∀ req, Keeps D K (acquireWarm E req)
  container : ∀ p, Keeps D K (runContainerInVm E p)

structure Parts {γ : Type} (D : Discipline Action Answer γ) (K : γ → Prop) (E : Env) : Prop
    extends PlainParts D K E where
  shadow : ∀ key erofs, Keeps D K (runShadow E key erofs)

section Tasks

variable {γ : Type} {D : Discipline Action Answer γ} {K : γ → Prop} {E : Env}

theorem acquire_keeps (hpop : Keeps D K (pool .readyPop)) (hrestore : Keeps D K (restoreOne E))
    (hregister : ∀ vm, Keeps D K (registerActive vm)) : Keeps D K (acquire E) := by
  refine .bind hpop fun r => ?_
  cases r with
  | some vm => exact .bind (hregister vm) fun _ => .pure _
  | none => exact .bind hrestore fun vm => .bind (hregister vm) fun _ => .pure _

namespace PlainParts

variable (P : PlainParts D K E)
include P

theorem ofKinds {α : Type} {ks : List Kind} {m : M α} (h : Uses ks m)
    (hks : ks.all (fun k => !specialKinds.elem k) = true) :
    Keeps D K m := .kinds h hks fun a ha => P.act a (special_of_kind ha)

theorem acquire : Keeps D K (acquire E) := acquire_keeps (P.act _ rfl) P.restore P.register

theorem createDir (p : Path) : Keeps D K (createDirAll p) := .ask (P.act _ rfl)

theorem base (dir : Path) : Keeps D K (createBaseSnapshot E dir) :=
  .bind (P.createDir _) fun _ => .bind (P.act _ rfl) fun _ => .bind (P.createDir _) fun _ =>
  .bind (.context (.bind (P.ofKinds (spawnCh_strict _).uses rfl) fun _ =>
    .bind (P.ofKinds (waitChReady_strict _).uses rfl) fun _ => .bind (.ask (P.act _ rfl)) fun _ =>
    .bind (P.ofKinds (apiRequest_strict _ _).uses rfl) fun _ =>
    .bind (P.ofKinds (apiRequest_strict _ _).uses rfl) fun _ => .bind (.ask (P.act _ rfl)) fun _ => .pure _)) fun _ =>
  .bind (.context (P.ofKinds (waitForAgent_strict _).uses rfl)) fun _ =>
  .bind (P.ofKinds (apiRequest_strict _ _).uses rfl) fun _ =>
  .bind (P.ofKinds (apiRequest_strict _ _).uses rfl) fun _ =>
  .bind (P.act _ rfl) fun _ => .bind (P.act _ rfl) fun _ => .ite (P.act _ rfl)
    (.bind (P.act _ rfl) fun _ => .bind (P.act _ rfl) fun _ => P.act _ rfl)

theorem fill : ∀ k, Keeps D K (fillPool E k)
  | 0 => .pure _
  | k + 1 => by
    refine .bind (.attempt P.restore) fun r => ?_
    cases r with
    | ok vm => exact .bind (P.act _ rfl) fun _ => fill k
    | error e => exact fill k

theorem main : Keeps D K (mainTask E) :=
  .bind (.bind (P.act _ rfl) fun _ => .ite (P.fill _) (.bind (P.base _) fun _ => P.fill _)) fun _ =>
    .ask (P.act _ rfl)

theorem replenish : Keeps D K (replenishTask E) := by
  refine .bind (P.act _ rfl) fun _ => .bind (P.act _ rfl) fun n => .ite (.pure _)
    (.bind (.attempt P.restore) fun r => ?_)
  cases r with
  | ok vm => exact P.act _ rfl
  | error e => exact .pure _

theorem acquirePool (req : AcquireRequest) : Keeps D K (acquirePool E req) := by
  refine .bind (.attempt P.acquire) fun r => ?_
  cases r with
  | error e => exact .pure _
  | ok vm =>
    refine .bind (P.act _ rfl) fun _ => .bind (.ite (P.trigger _ _) (.pure _)) fun _ =>
      .bind (.attempt (.ite (P.container _) (.pure _))) fun r => ?_
    rcases r with e | ⟨pid, tap⟩
    · exact .pure _
    · exact .pure _

theorem handle (r : Request) : Keeps D K (r.handle E) := by
  cases r with
  | acquireSandbox req =>
    refine .bind (.ite (P.act _ rfl) (.pure _)) fun b => .ite (.bind (P.warm req) fun r => ?_) (P.acquirePool req)
    cases r with
    | some r => exact .pure _
    | none => exact P.acquirePool req
  | releaseSandbox id => exact .bind (P.release id) fun _ => .pure _
  | addContainer req =>
    refine .bind (.ite (.pure _) (.bind (P.act _ rfl) fun r => ?_)) fun _ => .pure _
    cases r with
    | none => exact .pure _
    | some vm =>
      refine .bind (.attempt (P.container _)) fun r => ?_
      rcases r with e | ⟨pid, tap⟩
      · exact .pure _
      · exact .pure _
  | killContainer vm ctr sig =>
    refine .bind (.bind (P.act _ rfl) fun r => ?_) fun _ => .pure _
    cases r with
    | none => exact .pure _
    | some agent =>
      refine .bind (P.act _ rfl) fun r => ?_
      cases r <;> exact .pure _
  | waitContainer vm ctr =>
    refine .bind (.bind (P.act _ rfl) fun r => ?_) fun _ => .pure _
    cases r with
    | none => exact .pure _
    | some agent =>
      refine .bind (P.act _ rfl) fun r => ?_
      cases r <;> exact .pure _
  | deleteContainer vm ctr =>
    refine .bind (.bind (P.act _ rfl) fun r => ?_) fun _ => .pure _
    cases r with
    | none => exact .pure _
    | some agent => exact .bind (P.act _ rfl) fun _ => .pure _
  | status =>
    exact .bind (.bind (P.act _ rfl) fun _ => .bind (P.act _ rfl) fun _ => .bind (P.act _ rfl) fun _ =>
      .bind (P.act _ rfl) fun _ => .pure _) fun _ => .pure _
  | unknown m => exact .pure _

/-- Every task but a shadow task keeps what the parts keep. -/
theorem body_ne {t : Task} (ht : ∀ key erofs, t ≠ .shadow key erofs) {g : γ} (hg : K g) :
    wp D (t.body E) (fun _ g' => K g') g := by
  cases t with
  | main => exact P.main.toTask hg
  | request r => exact Keeps.toTask (.bind (P.handle r) fun _ => P.act _ rfl) hg
  | replenish => exact P.replenish.toTask hg
  | shadow key erofs => exact absurd rfl (ht key erofs)
  | touch f t =>
    have ht := wpx_tell.mp (P.act (.touch f t) rfl g hg)
    exact ⟨ht.1, ht.2⟩

end PlainParts

/-- **Every task keeps what its parts keep.** -/
theorem Parts.body (P : Parts D K E) (hremove : ∀ key, Keeps D K (snap (.shadowsRemove key))) (t : Task) {g : γ} (hg : K g) :
    wp D (t.body E) (fun _ g' => K g') g := by
  by_cases ht : ∃ key erofs, t = .shadow key erofs
  · obtain ⟨key, erofs, rfl⟩ := ht
    exact Keeps.toTask (.bind (.attempt (P.shadow key erofs)) fun _ => hremove key) hg
  · exact P.body_ne (fun key erofs he => ht ⟨key, erofs, he⟩) hg

/-! ### Parts of actions that keep `K` -/

section Plain

variable (hact : ∀ a : Action, a.inner = false → Keeps D K (tell a))
include hact

theorem keeps_kinds {α : Type} {ks : List Kind} {m : M α} (h : Uses ks m)
    (hks : ks.all (fun k => !innerKinds.elem k) = true) : Keeps D K m :=
  .kinds h hks fun a ha => hact a (inner_of_kind ha)

theorem restore_keeps (hload : Keeps D K (pool .cidLoad)) : Keeps D K (restoreOne E) :=
  .bind hload fun _ => .bind (hact _ rfl) fun _ => keeps_kinds hact (restoreTail_strict E _ _ _ _).uses rfl

theorem destroy_keeps (id : String) : Keeps D K (destroyVm E id) := by
  have hshut : ∀ pid dir, Keeps D K (shutdownAndDestroy pid dir) := fun pid dir =>
    .bind (hact _ rfl) fun _ => .bind (hact _ rfl) fun _ => .ite (hact _ rfl)
      (.bind (hact _ rfl) fun _ => .bind (hact _ rfl) fun _ => hact _ rfl)
  refine .bind (hact _ rfl) fun r => ?_
  cases r with
  | some pid => exact hshut _ _
  | none => exact hact _ rfl

theorem trigger_keeps (key erofs : String) (hcheck : Keeps D K (snap (.shadowsContains key)))
    (hspawn : Keeps D K (tell (.spawnShadow key erofs))) (hinsert : Keeps D K (snap (.shadowsInsert key))) :
    Keeps D K (triggerShadow key erofs) :=
  .bind (hact _ rfl) fun _ => .ite (.pure _) (.bind hcheck fun _ => .ite (.pure _) (.bind hspawn fun _ => hinsert))

theorem container_keeps (p : RunContainerParams) : Keeps D K (runContainerInVm E p) :=
  keeps_kinds hact (runContainerInVm_strict E p).uses rfl

theorem warm_keeps (hregister : ∀ vm, Keeps D K (registerActive vm)) (req : AcquireRequest) :
    Keeps D K (acquireWarm E req) := by
  refine .bind (hact _ rfl) fun _ => .bind (.attempt (keeps_kinds hact (createDirAll_strict _).uses rfl)) fun r => ?_
  cases r with
  | error e => exact .pure _
  | ok u =>
    have hrestore : ∀ cid dir, Keeps D K (restoreFromSnapshot req.imageKey cid dir) := by
      intro cid dir
      refine .bind (hact _ rfl) fun r => ?_
      cases r with
      | none => exact fun g hg => hg
      | some snapDir =>
        exact .bind (keeps_kinds hact (prepareSnapshot_strict _ _ _ _).uses rfl) fun _ =>
          .bind (keeps_kinds hact (spawnCh_strict _).uses rfl) fun _ =>
          .bind (keeps_kinds hact (waitChReady_strict _).uses rfl) fun _ =>
          .bind (keeps_kinds hact (apiRequest_strict _ _).uses rfl) fun _ =>
          .bind (keeps_kinds hact (apiRequest_strict _ _).uses rfl) fun _ => .pure _
    refine .bind (hact _ rfl) fun cid => .bind (.attempt (hrestore _ _)) fun r => ?_
    rcases r with e | ⟨pid, api, vsock⟩
    · exact .pure _
    · refine .bind (keeps_kinds hact (warmNetwork_uses req _ api vsock) rfl) fun r => ?_
      cases r with
      | error msg => exact .pure _
      | ok tap => exact .bind (hregister _) fun _ => .pure _

theorem shadow_keeps (hacquire : Keeps D K (acquire E)) (hrelease : ∀ id, Keeps D K (release E id))
    (hcache : ∀ key dir mtime, Keeps D K (snap (.cacheSnapshot key dir mtime)))
    (key erofs : String) : Keeps D K (runShadow E key erofs) :=
  .bind (keeps_kinds hact (createDirAll_strict _).uses rfl) fun _ => .bind (.context hacquire) fun vm =>
  .bind (.context (.ask (hact _ rfl))) fun _ => .bind (keeps_kinds hact (connectAgent_strict _).uses rfl) fun _ =>
  .bind (keeps_kinds hact (runContainerRpc_strict _ _ _).uses rfl) fun _ => .bind (hact _ rfl) fun _ =>
  .bind (keeps_kinds hact (createDirAll_strict _).uses rfl) fun _ =>
  .bind (keeps_kinds hact (apiRequest_strict _ _).uses rfl) fun _ =>
  .bind (keeps_kinds hact (apiRequest_strict _ _).uses rfl) fun _ => .bind (.ask (hact _ rfl)) fun _ =>
  .bind (hact _ rfl) fun _ => .bind (hcache _ _ _) fun _ => hrelease vm.vmId

/-- The parts, from the actions and from the four parts with actions of their own. -/
theorem plainParts_of_actions (hrestore : Keeps D K (restoreOne E)) (hregister : ∀ vm, Keeps D K (registerActive vm))
    (hrelease : ∀ id, Keeps D K (release E id))
    (htrigger : ∀ key erofs, Keeps D K (triggerShadow key erofs)) : PlainParts D K E where
  act a ha := hact a (by
    cases hi : a.inner with
    | false => rfl
    | true =>
      have hs : a.special = a.inner ∨ a.special = true := by
        unfold Action.special
        split <;> first | exact .inr rfl | exact .inl rfl
      rcases hs with hs | hs
      · rw [hs, hi] at ha
        cases ha
      · rw [hs] at ha
        cases ha)
  restore := hrestore
  register := hregister
  release id := by
    refine .ite (.pure _) (.bind (hact _ rfl) fun _ => .bind (.attempt (hrelease id)) fun r => ?_)
    cases r <;> exact .pure _
  trigger := htrigger
  warm := warm_keeps hact hregister
  container := container_keeps hact

theorem parts_of_actions (hrestore : Keeps D K (restoreOne E)) (hregister : ∀ vm, Keeps D K (registerActive vm))
    (hrelease : ∀ id, Keeps D K (release E id)) (htrigger : ∀ key erofs, Keeps D K (triggerShadow key erofs))
    (hcache : ∀ key dir mtime, Keeps D K (snap (.cacheSnapshot key dir mtime))) : Parts D K E where
  toPlainParts := plainParts_of_actions hact hrestore hregister hrelease htrigger
  shadow := shadow_keeps hact (acquire_keeps (hact _ rfl) hrestore hregister) hrelease hcache

end Plain

end Tasks

end CloudHv.Daemon
