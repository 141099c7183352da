import CloudHv.Daemon.Frame

/-!
# Taps — the network device of a VM

`setup_vm_networking` knows its TAP by a name cut from the VM id: it deletes the link of this name,
creates it, has it hot-plugged, looks it up again and moves what it finds to the pod.  `Phase` is how
far a task is with that, with the device it met at each step.

Every task of the daemon goes through these steps in their order, at most once, with one name and for
its own pod.
-/

namespace CloudHv.Daemon

open Conc

/-! ### The phases of a setup -/

/-- The name of the TAP and the devices so far: created, hot-plugged, looked up, wired. -/
inductive Phase where
  | idle
  | cleared (tap : String)
  | created (tap : String) (dev : ℕ)
  | plugged (tap : String) (dev plug : ℕ)
  | indexed (tap : String) (dev plug link : ℕ)
  | moved (tap : String) (dev plug link : ℕ)
  | wired (tap : String) (dev plug link wire : ℕ)
  | failed
  deriving DecidableEq

namespace Phase

/-- An error ends the setup. -/
def onOk {ε α : Type} (r : Except ε α) (f : α → Phase) : Phase :=
  match r with
  | .ok x => f x
  | .error _ => failed

def after : (a : HostAct) → a.Answer → Phase → Phase
  | .delLink tap, r, _ => onOk r fun _ => cleared tap
  | .createTap _, r, .cleared tap => onOk r fun d => created tap d
  | .addNet _ _ _, r, .created tap d => onOk r fun q => plugged tap d q.2
  | .linkIndex _, r, .plugged tap d q => onOk r fun l => indexed tap d q l
  | .moveToNetns _ _ _, r, .indexed tap d q l => onOk r fun _ => moved tap d q l
  | .wireTap _ _, r, .moved tap d q l => onOk r fun v => wired tap d q l v
  | _, _, p => p

/-- The name that a setup in progress is using. -/
def name : Phase → Option String
  | .cleared n | .created n _ | .plugged n _ _ | .indexed n _ _ _ | .moved n _ _ _ => some n
  | _ => none

/-- The device of a setup that has not failed. -/
def device : Phase → Option ℕ
  | .created _ d | .plugged _ d _ | .indexed _ d _ _ | .moved _ d _ _ | .wired _ d _ _ _ => some d
  | _ => none

/-- The setup has tried to move its device. -/
def left : Phase → Bool
  | .moved _ _ _ _ | .wired _ _ _ _ _ | .failed => true
  | _ => false

end Phase

/-- The pod of a task with a network. -/
def Task.pod : Task → Option String
  | .request (.acquireSandbox req) => nonEmpty req.netns
  | _ => none

structure Setup where
  pod : Option String
  phase : Phase

def Setup.init (t : Task) : Setup := ⟨t.pod, .idle⟩

def Setup.upd (g : Setup) : (a : Action) → Answer a → Setup
  | .host a, r => { g with phase := g.phase.after a r }
  | _, _ => g

/-- The steps of a setup come in their order, on one name and for the task's pod. -/
def Setup.req (g : Setup) : Action → Prop
  | .host (.delLink _) => g.phase = .idle
  | .host (.createTap tap) => g.phase = .cleared tap
  | .host (.addNet _ tap _) => ∃ d, g.phase = .created tap d
  | .host (.linkIndex tap) => ∃ d q, g.phase = .plugged tap d q
  | .host (.moveToNetns tap l ns) => (∃ d q, g.phase = .indexed tap d q l) ∧ g.pod = some ns
  | .host (.wireTap ns tap) => (∃ d q l, g.phase = .moved tap d q l) ∧ g.pod = some ns
  | _ => True

def taps : Discipline Action Answer Setup := ⟨Setup.upd, Setup.req, fun _ _ _ => True⟩

/-! ### The tasks -/

section Tasks

variable {E : Env} {g : Setup}

theorem taps_plain {a : Action} (h : a.kind ≠ .link) :
    taps.req g a ∧ ∀ r, taps.may g a r → taps.upd g a r = g := by
  cases a with
  | host b => cases b <;> first | exact absurd rfl h | exact ⟨trivial, fun _ _ => rfl⟩
  | _ => exact ⟨trivial, fun _ _ => rfl⟩

theorem uses_taps {α : Type} {ks : List Kind} {m : M α} {Q : α → Setup → Prop} {F : Fail → Setup → Prop}
    (h : Uses ks m) (hk : ks.elem Kind.link = false) (hQ : ∀ x, Q x g) (hF : ∀ e, F e g) :
    wpx taps m Q F g := by
  refine Only.wp h (fun a ha => taps_plain fun hl => ?_) fun r => ?_
  · rw [hl] at ha
    rw [List.elem_iff.mpr ha] at hk
    cases hk
  · cases r with
    | ok x => exact hQ x
    | error e => exact hF e

theorem prepareTap_taps {netns tap : String} {Q : PodNetInfo → Setup → Prop} {F : Fail → Setup → Prop}
    (hg : g.phase = .idle) (hQ : ∀ info d, Q info { g with phase := .created tap d }) (hF : ∀ e g, F e g) :
    wpx taps (prepareTap netns tap) Q F g := by
  unfold prepareTap
  rw [wpx_bind]
  refine wpx_ask.mpr (wp_onHost.mpr ⟨trivial, fun r _ => ?_⟩)
  cases r with
  | error e => exact hF _ _
  | ok info =>
  show wpx taps (ask (onHost (.delLink tap)) id >>= _) Q F g
  rw [wpx_bind]
  refine wpx_ask.mpr (wp_onHost.mpr ⟨hg, fun r _ => ?_⟩)
  cases r with
  | error e => exact hF _ _
  | ok old =>
  show wpx taps (ask (onHost (.createTap tap)) _ >>= _) Q F { g with phase := .cleared tap }
  rw [wpx_bind]
  refine wpx_ask.mpr (wp_onHost.mpr ⟨rfl, fun r _ => ?_⟩)
  cases r with
  | error e => exact hF _ _
  | ok d => exact hQ info d

theorem activateTap_taps {netns tap : String} {d q : ℕ} {Q : Unit → Setup → Prop} {F : Fail → Setup → Prop}
    (hQ : ∀ g, Q () g) (hF : ∀ e g, F e g) :
    wpx taps (activateTap netns tap) Q F ⟨some netns, .plugged tap d q⟩ := by
  unfold activateTap
  rw [wpx_bind]
  refine wpx_ask.mpr (wp_onHost.mpr ⟨⟨d, q, rfl⟩, fun r _ => ?_⟩)
  cases r with
  | error e => exact hF _ _
  | ok l =>
  show wpx taps (ask (onHost (.moveToNetns tap l netns)) id >>= _) Q F ⟨some netns, .indexed tap d q l⟩
  rw [wpx_bind]
  refine wpx_ask.mpr (wp_onHost.mpr ⟨⟨⟨d, q, rfl⟩, rfl⟩, fun r _ => ?_⟩)
  cases r with
  | error e => exact hF _ _
  | ok u =>
  show wpx taps (ask (onHost (.wireTap netns tap)) id >>= _) Q F ⟨some netns, .moved tap d q l⟩
  rw [wpx_bind]
  refine wpx_ask.mpr (wp_onHost.mpr ⟨⟨⟨d, q, l, rfl⟩, rfl⟩, fun r _ => ?_⟩)
  cases r with
  | error e => exact hF _ _
  | ok v => exact hQ _

theorem setupVmNetworking_taps {netns vmId : String} {api : Path} {Q : String × PodNetInfo → Setup → Prop}
    {F : Fail → Setup → Prop} (hg : g = ⟨some netns, .idle⟩) (hQ : ∀ r g, Q r g) (hF : ∀ e g, F e g) :
    wpx taps (setupVmNetworking netns vmId api) Q F g := by
  subst hg
  unfold setupVmNetworking
  refine wpx_bind.mpr (uses_taps (slice_strict _ _).uses rfl (fun short => ?_) fun e => hF e _)
  rw [wpx_bind, wpx_context]
  refine prepareTap_taps rfl (fun info d => ?_) fun e g => hF _ g
  rw [wpx_bind, wpx_context]
  refine wpx_ask.mpr (wp_onHost.mpr ⟨⟨d, rfl⟩, fun r _ => ?_⟩)
  cases r with
  | error e => exact hF _ _
  | ok q =>
  show wpx taps (context (activateTap netns _) _ >>= _) Q F ⟨some netns, .plugged _ d q.2⟩
  rw [wpx_bind, wpx_context]
  exact activateTap_taps (fun g => hQ _ g) fun e g => hF _ g

theorem setupNetwork_taps {p : RunContainerParams} {Q : String × Option PodNetInfo → Setup → Prop}
    {F : Fail → Setup → Prop} (hg : p.netns ≠ "" → g = ⟨some p.netns, .idle⟩) (hQ : ∀ r g, Q r g)
    (hF : ∀ e g, F e g) : wpx taps (setupNetwork p) Q F g := by
  unfold setupNetwork
  split
  · next hn =>
    rw [wpx_bind, wpx_context]
    exact setupVmNetworking_taps (hg hn) (fun r g => hQ _ g) fun e g => hF _ g
  · exact hQ _ g

/-- The network of a container's VM comes first, and nothing after it is about links. -/
theorem runContainerInVm_taps {p : RunContainerParams} {Q : ℕ × String → Setup → Prop}
    {F : Fail → Setup → Prop} (hg : p.netns ≠ "" → g = ⟨some p.netns, .idle⟩) (hQ : ∀ r g, Q r g)
    (hF : ∀ e g, F e g) : wpx taps (runContainerInVm E p) Q F g := by
  unfold runContainerInVm
  refine wpx_bind.mpr (setupNetwork_taps hg (fun r g => ?_) hF)
  obtain ⟨tap, net⟩ := r
  refine wpx_bind.mpr (uses_taps (slice_strict _ _).uses rfl (fun short => ?_) fun e => hF e g)
  refine wpx_bind.mpr (uses_taps (.context (.ask (Uses.onHost rfl)) : Uses [.disk] _) rfl (fun d => ?_)
    fun e => hF e g)
  refine wpx_bind.mpr (uses_taps (agentFor_strict p).uses rfl (fun agent => ?_) fun e => hF e g)
  have hrun : ∀ req, wpx taps (runContainerRpc agent req "RunContainer" >>= fun pid => pure (pid, tap)) Q F g :=
    fun req => uses_taps (.bind (runContainerRpc_strict _ _ _).uses fun _ => .pure _) rfl
      (fun r => hQ r g) fun e => hF e g
  cases net with
  | none => exact hrun _
  | some info =>
    show wpx taps (context (configureGuestNetwork agent info.ipCidr info.gateway) _ >>= _) Q F _
    rw [wpx_bind, wpx_context]
    exact uses_taps (configureGuestNetwork_strict _ _ _).uses rfl (fun _ => hrun _) fun e => hF _ g

/-! ### Handlers -/

/-- A result that the caller looks at, when nothing is asked of the end. -/
theorem warmNetwork_taps {req : AcquireRequest} {vmId : String} {api vsock : Path}
    {Q : Except String String → Setup → Prop} {F : Fail → Setup → Prop}
    (hg : g = Setup.init (.request (.acquireSandbox req))) (hQ : ∀ r g, Q r g) (hF : ∀ e g, F e g) :
    wpx taps (warmNetwork req vmId api vsock) Q F g := by
  unfold warmNetwork
  split
  · next hn =>
    have hpod : g = ⟨some req.netns, .idle⟩ := by
      rw [hg]
      exact congrArg (Setup.mk · .idle) (if_neg hn)
    refine wpx_bind.mpr (wpx_attempt_any (setupVmNetworking_taps hpod (fun r g => ?_)
      fun e g q => ⟨hQ _ g, hF e g⟩))
    obtain ⟨tap, info⟩ := r
    refine wpx_bind.mpr (wpx_attempt_any (uses_taps (connectAgent_strict _).uses rfl (fun agent => ?_)
      fun e q => ⟨hQ _ g, hF e g⟩))
    refine uses_taps (.bind (.tell rfl) fun _ => .bind (.attempt ?_) fun _ => .pure _ :
      Uses [.registry, .configure] _) rfl (fun _ => hQ _ g) fun e => hF e g
    exact (configureGuestNetwork_strict _ _ _).uses.mono (by simp)
  · exact hQ _ g

theorem acquireWarm_taps {req : AcquireRequest} {Q : Option Response → Setup → Prop}
    {F : Fail → Setup → Prop} (hg : g = Setup.init (.request (.acquireSandbox req)))
    (hsome : ∀ r g, Q (some r) g) (hnone : Q none g) (hF : ∀ e g, F e g) :
    wpx taps (acquireWarm E req) Q F g := by
  unfold acquireWarm
  rw [wpx_bind, wpx_tell]
  refine ⟨trivial, fun seq _ => ?_⟩
  refine wpx_bind.mpr (wpx_attempt_any (uses_taps (createDirAll_strict _).uses rfl (fun u => ?_)
    fun e q => ⟨hsome _ _, hF e _⟩))
  show wpx taps (pool .cidFetchAdd >>= _) Q F g
  rw [wpx_bind, wpx_pool]
  refine ⟨trivial, fun cid _ => ?_⟩
  refine wpx_bind.mpr (wpx_attempt_any (uses_taps (restoreFromSnapshot_strict _ _ _).uses rfl (fun r => ?_)
    fun e q => ⟨hnone, hF e _⟩))
  obtain ⟨pid, api, vsock⟩ := r
  refine wpx_bind.mpr (warmNetwork_taps hg (fun r g => ?_) hF)
  cases r with
  | error msg => exact hsome _ _
  | ok tap =>
    exact wpx_bind.mpr (uses_taps (registerActive_uses _) rfl (fun _ => hsome _ _) fun e => hF e _)

theorem acquirePool_taps {req : AcquireRequest} {Q : Response → Setup → Prop} {F : Fail → Setup → Prop}
    (hg : g = Setup.init (.request (.acquireSandbox req))) (hQ : ∀ r g, Q r g) (hF : ∀ e g, F e g) :
    wpx taps (acquirePool E req) Q F g := by
  unfold acquirePool
  refine wpx_bind.mpr (wpx_attempt_any (uses_taps (acquire_uses E) rfl (fun vm => ?_)
    fun e q => ⟨hQ _ _, hF e _⟩))
  show wpx taps (tell .spawnReplenish >>= _) Q F g
  rw [wpx_bind, wpx_tell]
  refine ⟨trivial, fun _ _ => ?_⟩
  refine wpx_bind.mpr (uses_taps (shadowFor_uses req) rfl (fun _ => ?_) fun e => hF e _)
  rw [wpx_bind]
  unfold acquireContainer
  split
  · refine wpx_attempt_any (runContainerInVm_taps (fun hn => ?_) (fun r g => hQ _ g)
      fun e g q => ⟨hQ _ g, hF e g⟩)
    rw [hg]
    exact congrArg (Setup.mk · .idle) (if_neg hn)
  · exact hQ _ g

theorem handleAcquire_taps {req : AcquireRequest} {Q : Response → Setup → Prop} {F : Fail → Setup → Prop}
    (hg : g = Setup.init (.request (.acquireSandbox req))) (hQ : ∀ r g, Q r g) (hF : ∀ e g, F e g) :
    wpx taps (handleAcquire E req) Q F g := by
  unfold handleAcquire
  refine wpx_bind.mpr (uses_taps (hasWarmSnapshot_uses req) rfl (fun b => ?_) fun e => hF e g)
  split
  · exact wpx_bind.mpr (acquireWarm_taps hg (fun r g => hQ r g) (acquirePool_taps hg hQ hF) hF)
  · exact acquirePool_taps hg hQ hF

theorem body_taps (t : Task) : wp taps (t.body E) (fun _ _ => True) (Setup.init t) := by
  have huses : ∀ {ks : List Kind} {m : M Unit} {g : Setup}, Uses ks m → ks.elem Kind.link = false →
      wp taps m.toTask (fun _ _ => True) g := fun hm hk =>
    wp_toTask (uses_taps hm hk (fun _ => trivial) fun _ => trivial)
  cases t with
  | main => exact huses (mainTask_uses E) rfl
  | replenish => exact huses (replenishTask_uses E) rfl
  | shadow key erofs => exact huses (shadowTask_uses E key erofs) rfl
  | touch f t => exact ⟨trivial, fun _ _ => trivial⟩
  | request r =>
    refine wp_toTask (wpx_bind.mpr ?_)
    have hreply : ∀ (resp : Response) (g : Setup), wpx taps (tell (.reply resp)) (fun _ _ => True)
        (fun _ _ => True) g := fun resp g => wpx_tell.mpr ⟨trivial, fun _ _ => trivial⟩
    rcases handle_call E r with ⟨req, rfl⟩ | ⟨id, rfl⟩ | ⟨m, hm, he⟩
    · exact handleAcquire_taps rfl hreply fun _ _ => trivial
    · exact wpx_bind.mpr (uses_taps (handleRelease_uses E id) rfl (fun _ => hreply _ _) fun _ => trivial)
    · rw [he]
      exact wpx_bind.mpr (uses_taps hm rfl (fun _ => hreply _ _) fun _ => trivial)

end Tasks

end CloudHv.Daemon
