import CloudHv.Daemon.Shadows

/-!
# Registry — agent connections and the active table

`run_container_in_vm` looks for a connection, dials the agent and enters the new connection, long after
its caller found the VM in `active`; `handle_release` drops the connection and then takes the VM out of
`active`; a shadow run does the latter only.  Connections and VMs are under different locks, so a
connection can be entered for a VM that is on its way out, or gone.
-/

namespace CloudHv.Daemon

open Conc

/-! ### What a task does with a connection -/

inductive Dial where
  | idle
  /-- No connection was found (`run_container_in_vm`). -/
  | looked
  /-- The connection to a warm VM is entered, and the VM not yet. -/
  | linked (id : String)
  /-- A release has dropped the connection, and not yet taken the VM out. -/
  | dropping (id : String)
  deriving DecidableEq

/-- `held`: the VM the task put into `active` last, until it takes it out or is over. -/
structure Contact where
  role : Role
  dial : Dial
  held : Option String
  deriving DecidableEq

namespace Contact

def init (t : Task) : Contact := ⟨t.role, .idle, none⟩

def upd (g : Contact) : (a : Action) → Answer a → Contact
  | .agentsGet _, r => if r.isNone then { g with dial := .looked } else g
  | .agentsInsert id _, _ => { g with dial := if g.dial = .looked then .idle else .linked id }
  | .agentsRemove id, _ => { g with dial := .dropping id }
  | .pool (.activeInsert vm), _ =>
    { g with dial := (match g.dial with | .linked _ => .idle | d => d), held := some vm.vmId }
  | .pool (.activeRemove _), _ => { g with dial := .idle, held := none }
  | .snap (.shadowsRemove _), _ => { g with held := none }
  | _, _ => g

/-- The task is at rest: it has entered or dropped no connection whose VM has still to follow. -/
def calm (ρ : Role) (g : Contact) : Prop := g.role = ρ ∧ (g.dial = .idle ∨ g.dial = .looked)

/-- The task is going to take the VM out of `active`, and leave the registry as it is. -/
def leaving (g : Contact) (id : String) : Bool :=
  decide (g.dial = .dropping id) || (decide (g.role = .shadow) && decide (g.held = some id))

def req (g : Contact) : Action → Prop
  | .agentsGet _ | .agentsInsert _ _ | .agentsRemove _ => g.role = .client ∧ (g.dial = .idle ∨ g.dial = .looked)
  | .pool (.activeInsert vm) => g.dial = .idle ∨ g.dial = .looked ∨ g.dial = .linked vm.vmId
  | .pool (.activeRemove id) => g.leaving id = true ∧ ∀ id', g.dial ≠ .linked id'
  | _ => True

end Contact

def contacting : Discipline Action Answer Contact := ⟨Contact.upd, Contact.req, fun _ _ _ => True⟩

def contact (t : Thread Action Answer Task) : Contact := System.ghost contacting Contact.init t

/-- A connection is entered only for a VM that no task is about to take out of `active`, and by
`run_container_in_vm` only for one that is there; a shadow run gets a VM without a connection. -/
def entersLive (x : DaemonConf) : Event Action Answer Task → Bool
  | .act i (.agentsInsert id _) _ => x.threads.all (fun u => !(contact u).leaving id) &&
      (x.threads[i]?).all fun t => decide ((contact t).dial = .looked → id ∈ x.shared.pool.active)
  | .act i (.pool (.activeInsert vm)) _ =>
    (x.threads[i]?).all fun t => decide (t.task.role = .shadow → vm.vmId ∉ x.shared.agents)
  | _ => true

/-! ### The tasks -/

section Tasks

variable {E : Env} {ρ : Role}

/-- Actions that are about no connection, no active VM and no snapshot. -/
theorem contacting_skip {K : Contact → Prop} {a : Action} (hk : a.kind ∉ [.registry, .active, .cache]) :
    Keeps contacting K (tell a) := by
  refine .tell fun g hg => ?_
  cases a with
  | pool b => cases b <;> first | exact ⟨trivial, fun _ _ => hg⟩ | exact absurd (List.elem_iff.mp rfl) hk
  | snap b => exact absurd (List.elem_iff.mp rfl) hk
  | agentsGet id => exact absurd (List.elem_iff.mp rfl) hk
  | agentsInsert id conn => exact absurd (List.elem_iff.mp rfl) hk
  | agentsRemove id => exact absurd (List.elem_iff.mp rfl) hk
  | _ => exact ⟨trivial, fun _ _ => hg⟩

theorem skip_kinds {α : Type} {K : Contact → Prop} {ks : List Kind} {m : M α} (h : Uses ks m)
    (hks : ks.all (fun k => !([.registry, .active, .cache] : List Kind).elem k) = true) : Keeps contacting K m :=
  .kinds h hks fun _ => contacting_skip

theorem calm_act {a : Action} (hk : a.kind ∉ [.registry, .active]) : Keeps contacting (Contact.calm ρ) (tell a) := by
  by_cases hc : ∃ b, a = .snap b
  · obtain ⟨b, rfl⟩ := hc
    refine .tell fun g hg => ?_
    cases b <;> exact ⟨trivial, fun _ _ => hg⟩
  · refine contacting_skip fun hm => ?_
    simp only [List.mem_cons, List.not_mem_nil, or_false] at hk hm
    rcases hm with hm | hm | hm
    · exact hk (.inl hm)
    · exact hk (.inr hm)
    · cases a with
      | snap b => exact hc ⟨b, rfl⟩
      | pool b => cases b <;> cases hm
      | host b => cases b <;> cases hm
      | _ => cases hm

theorem calm_kinds {α : Type} {ks : List Kind} {m : M α} (h : Uses ks m)
    (hks : ks.all (fun k => !([.registry, .active] : List Kind).elem k) = true) :
    Keeps contacting (Contact.calm ρ) m := .kinds h hks fun _ => calm_act

theorem agentsGet_contacting (id : String) : Keeps contacting (Contact.calm .client) (tell (.agentsGet id)) := by
  refine .tell fun g hg => ⟨hg, fun r _ => ?_⟩
  cases r with
  | none => exact ⟨hg.1, .inr rfl⟩
  | some conn => exact hg

/-- A VM that the task puts into `active` is held. -/
theorem registerActive_contacting (vm : PoolVm) {g : Contact} (hg : g.calm ρ) {F : Fail → Contact → Prop} :
    wpx contacting (registerActive vm) (fun _ g' => g'.calm ρ ∧ g'.held = some vm.vmId) F g := by
  refine wpx_bind.mpr (wpx_pool.mpr ⟨trivial, fun _ _ => wpx_pool.mpr ⟨?_, fun _ _ => ?_⟩⟩)
  · exact hg.2.imp_right .inl
  · obtain ⟨s, d, o⟩ := g
    obtain ⟨rfl, rfl | rfl⟩ := hg
    · exact ⟨⟨rfl, .inl rfl⟩, rfl⟩
    · exact ⟨⟨rfl, .inr rfl⟩, rfl⟩

theorem destroyVm_contacting (id : String) : Keeps contacting (Contact.calm ρ) (destroyVm E id) :=
  calm_kinds (destroyVm_uses E id) rfl

/-- A VM can be taken out by a task that is leaving it. -/
theorem release_contacting {id : String} {g : Contact} (hs : g.role = ρ) (hg : g.leaving id = true)
    (hd : ∀ id', g.dial ≠ .linked id') :
    wpx contacting (release E id) (fun _ g' => g'.calm ρ) (fun _ g' => g'.calm ρ) g := by
  refine wpx_bind.mpr (wpx_pool.mpr ⟨⟨hg, hd⟩, fun r _ => ?_⟩)
  have hcalm : Contact.calm ρ { g with dial := .idle, held := none } := ⟨hs, .inl rfl⟩
  cases r with
  | some vm =>
    exact (Keeps.bind (calm_act (by simp [Action.kind, PoolAct.kind])) fun _ => destroyVm_contacting id) _ hcalm
  | none => exact destroyVm_contacting id _ hcalm

theorem handleRelease_contacting (id : String) : Keeps contacting (Contact.calm .client) (handleRelease E id) := by
  refine .ite (.pure _) fun g hg => wpx_bind.mpr (wpx_tell.mpr ⟨hg, fun _ _ => ?_⟩)
  refine wpx_bind.mpr (wpx_attempt.mpr (wpx_mono (release_contacting hg.1 ?_ ?_) (fun _ _ h => h) fun e g' h => ?_))
  · simp [contacting, Contact.upd, Contact.leaving]
  · simp [contacting, Contact.upd]
  · cases e <;> exact h

/-- A connection is entered after none was found. -/
theorem agentFor_contacting (p : RunContainerParams) : Keeps contacting (Contact.calm .client) (agentFor p) := by
  intro g hg
  refine wpx_bind.mpr (wpx_tell.mpr ⟨hg, fun r _ => ?_⟩)
  cases r with
  | some conn => exact hg
  | none =>
    have hdial : Keeps contacting (fun g' => g' = { g with dial := .looked })
        (context (connectAgent p.vsockSocket) "agent connect for container") :=
      .context (skip_kinds (connectAgent_strict _).uses rfl)
    refine wpx_bind.mpr (wpx_mono (hdial _ rfl) ?_ ?_)
    · rintro conn _ rfl
      exact wpx_bind.mpr (wpx_tell.mpr ⟨⟨hg.1, .inr rfl⟩, fun _ _ => ⟨hg.1, .inl rfl⟩⟩)
    · rintro e _ rfl
      exact ⟨hg.1, .inr rfl⟩

theorem runContainerInVm_contacting (p : RunContainerParams) :
    Keeps contacting (Contact.calm .client) (runContainerInVm E p) := by
  refine .bind (skip_kinds (setupNetwork_strict p).uses rfl) fun r => ?_
  refine .bind (skip_kinds (slice_strict _ _).uses rfl) fun _ => .bind (.context (.ask (contacting_skip ?_))) fun _ =>
    .bind (agentFor_contacting p) fun conn => ?_
  · simp [Action.kind, HostAct.kind]
  obtain ⟨tap, net⟩ := r
  cases net with
  | some info =>
    exact .bind (.context (skip_kinds (configureGuestNetwork_strict _ _ _).uses rfl)) fun _ =>
      .bind (skip_kinds (runContainerRpc_strict _ _ _).uses rfl) fun _ => .pure _
  | none => exact .bind (skip_kinds (runContainerRpc_strict _ _ _).uses rfl) fun _ => .pure _

/-- The task may enter the VM. -/
def Contact.enters (id : String) (g : Contact) : Prop := g.role = .client ∧ (g.dial = .idle ∨ g.dial = .looked ∨ g.dial = .linked id)

/-- The connection to a warm VM is entered before the VM, which then follows. -/
theorem warmNetwork_contacting (req : AcquireRequest) (id : String) (api vsock : Path) {g : Contact}
    (hg : g.calm .client) : wpx contacting (warmNetwork req id api vsock)
      (fun r g' => match r with
        | .ok _ => g'.enters id
        | .error _ => g'.calm .client)
      (fun _ g' => g'.calm .client) g := by
  have henters : g.enters id := ⟨hg.1, hg.2.imp_right .inl⟩
  unfold warmNetwork
  split
  · have hsetup : Keeps contacting (Contact.calm .client) (attempt (setupVmNetworking req.netns id api)) :=
      .attempt (skip_kinds (setupVmNetworking_strict _ _ _).uses rfl)
    refine wpx_bind.mpr (wpx_mono (hsetup g hg) (fun r g₁ h₁ => ?_) fun _ _ h => h)
    rcases r with e | ⟨tap, info⟩
    · exact h₁
    · have hdial : Keeps contacting (Contact.calm .client) (attempt (connectAgent vsock)) :=
        .attempt (skip_kinds (connectAgent_strict _).uses rfl)
      refine wpx_bind.mpr (wpx_mono (hdial g₁ h₁) (fun r g₂ h₂ => ?_) fun _ _ h => h)
      cases r with
      | error e => exact h₂
      | ok conn =>
        refine wpx_bind.mpr (wpx_tell.mpr ⟨h₂, fun _ _ => ?_⟩)
        have hlinked : ({ g₂ with dial := if g₂.dial = .looked then .idle else .linked id } : Contact).enters id := by
          refine ⟨h₂.1, ?_⟩
          show (if g₂.dial = .looked then _ else _) = _ ∨ _
          split
          · exact .inl rfl
          · exact .inr (.inr rfl)
        have hconf : Keeps contacting (Contact.enters id) (configureGuestNetwork conn info.ipCidr info.gateway) :=
          skip_kinds (configureGuestNetwork_strict _ _ _).uses rfl
        have hsober : Sober (configureGuestNetwork conn info.ipCidr info.gateway) := .ask
        refine wpx_bind.mpr (wpx_attempt.mpr ?_)
        exact hsober.wpx (F := fun _ g' => g'.enters id)
          (wpx_mono (hconf _ hlinked) (fun _ _ h => h) fun _ _ h => h) fun _ _ h => h
  · exact henters

theorem acquireWarm_contacting (req : AcquireRequest) :
    Keeps contacting (Contact.calm .client) (acquireWarm E req) := by
  refine .bind (contacting_skip (by simp [Action.kind])) fun seq =>
    .bind (.attempt (skip_kinds (createDirAll_strict _).uses rfl)) fun r => ?_
  cases r with
  | error e => exact .pure _
  | ok u =>
    refine .bind (contacting_skip (by simp [Action.kind, PoolAct.kind])) fun cid =>
      .bind (.attempt (calm_kinds (restoreFromSnapshot_strict _ _ _).uses rfl)) fun r => ?_
    rcases r with e | ⟨pid, api, vsock⟩
    · exact .pure _
    · intro g hg
      refine wpx_bind.mpr (wpx_mono (warmNetwork_contacting req _ api vsock hg) (fun r g₁ h₁ => ?_) fun _ _ h => h)
      cases r with
      | error msg => exact h₁
      | ok tap =>
        refine wpx_bind.mpr (wpx_bind.mpr (wpx_pool.mpr ⟨trivial, fun _ _ => wpx_pool.mpr ⟨h₁.2, fun _ _ => ?_⟩⟩))
        obtain ⟨s, d, o⟩ := g₁
        obtain ⟨rfl, rfl | rfl | rfl⟩ := h₁
        · exact ⟨rfl, .inl rfl⟩
        · exact ⟨rfl, .inr rfl⟩
        · exact ⟨rfl, .inl rfl⟩

theorem registerActive_calm (vm : PoolVm) : Keeps contacting (Contact.calm ρ) (registerActive vm) :=
  fun _ hg => wpx_mono (registerActive_contacting vm hg) (fun _ _ h => h.1) fun _ _ h => h

theorem contacting_parts : PlainParts contacting (Contact.calm .client) E where
  act a ha := by
    by_cases hget : ∃ id, a = .agentsGet id
    · obtain ⟨id, rfl⟩ := hget
      exact agentsGet_contacting id
    · refine calm_act fun hm => ?_
      cases a with
      | agentsGet id => exact hget ⟨id, rfl⟩
      | agentsInsert id conn => cases ha
      | agentsRemove id => cases ha
      | pool b => cases b <;> first | simp [Action.kind, PoolAct.kind] at hm; done | cases ha
      | host b => cases b <;> simp [Action.kind, HostAct.kind] at hm
      | _ => simp [Action.kind] at hm
  restore := calm_kinds (restoreOne_strict E).uses rfl
  register := registerActive_calm
  release := handleRelease_contacting
  trigger key erofs := calm_kinds (triggerShadow_uses key erofs) rfl
  warm := acquireWarm_contacting
  container := runContainerInVm_contacting

theorem acquire_contacting {g : Contact} (hg : g.calm ρ) : wpx contacting (acquire E)
    (fun vm g' => g'.calm ρ ∧ g'.held = some vm.vmId) (fun _ g' => g'.calm ρ) g := by
  refine Keeps.seq (calm_act (by simp [Action.kind, PoolAct.kind])) (fun _ _ h => h) (fun r g₁ h₁ => ?_) g hg
  cases r with
  | some vm => exact wpx_bind.mpr (registerActive_contacting vm h₁)
  | none =>
    refine Keeps.seq (calm_kinds (restoreOne_strict E).uses rfl) (fun _ _ h => h) (fun vm g₂ h₂ => ?_) g₁ h₁
    exact wpx_bind.mpr (registerActive_contacting vm h₂)

/-- A shadow run takes out the VM it has put in. -/
theorem runShadow_contacting (key erofs : String) : Keeps contacting (Contact.calm .shadow) (runShadow E key erofs) := by
  refine .bind (skip_kinds (createDirAll_strict _).uses rfl) fun _ g hg =>
    wpx_bind.mpr (wpx_context.mpr (wpx_mono (acquire_contacting hg) ?_ fun _ _ h => h))
  intro vm
  have hF : ∀ (e : Fail) (g' : Contact), g'.calm .shadow ∧ g'.held = some vm.vmId → g'.calm .shadow := fun _ _ h => h.1
  refine Keeps.seq (.context (.ask (contacting_skip (by simp [Action.kind, HostAct.kind])))) hF fun _ =>
    Keeps.seq (skip_kinds (connectAgent_strict _).uses rfl) hF fun _ =>
    Keeps.seq (skip_kinds (runContainerRpc_strict _ _ _).uses rfl) hF fun _ =>
    Keeps.seq (contacting_skip (by simp [Action.kind])) hF fun _ =>
    Keeps.seq (skip_kinds (createDirAll_strict _).uses rfl) hF fun _ =>
    Keeps.seq (skip_kinds (apiRequest_strict _ _).uses rfl) hF fun _ =>
    Keeps.seq (skip_kinds (apiRequest_strict _ _).uses rfl) hF fun _ =>
    Keeps.seq (.ask (contacting_skip (by simp [Action.kind, HostAct.kind]))) hF fun _ =>
    Keeps.seq (contacting_skip (by simp [Action.kind, HostAct.kind])) hF fun _ =>
    Keeps.seq (.tell fun g hg => ⟨trivial, fun _ _ => hg⟩) hF fun _ g hg => ?_
  refine release_contacting hg.1.1 ?_ fun id hd => ?_
  · rw [Contact.leaving, hg.1.1, hg.2]
    simp
  · rcases hg.1.2 with h | h
    · rw [h] at hd
      cases hd
    · rw [h] at hd
      cases hd

theorem body_contacting (t : Task) : wp contacting (t.body E) (fun _ g => g.dial = .idle ∨ g.dial = .looked)
    (Contact.init t) := by
  have hskip : ∀ {ks : List Kind} {m : M Unit}, Uses ks m →
      ks.all (fun k => !([.registry, .active, .cache] : List Kind).elem k) = true →
      wp contacting m.toTask (fun _ g => g.dial = .idle ∨ g.dial = .looked) (Contact.init t) := fun hm hks =>
    wp_mono ((skip_kinds hm hks).toTask (K := fun g => g = Contact.init t) rfl) fun _ g hg => .inl (hg ▸ rfl)
  cases t with
  | main => exact hskip (mainTask_uses E) rfl
  | replenish => exact hskip (replenishTask_uses E) rfl
  | touch f t => exact ⟨trivial, fun _ _ => .inl rfl⟩
  | request r =>
    have hkeep : Keeps contacting (Contact.calm .client) (serve E r) :=
      .bind (contacting_parts.handle r) fun _ => contacting_skip (by simp [Action.kind])
    exact wp_mono (hkeep.toTask ⟨rfl, .inl rfl⟩) fun _ _ h => h.2
  | shadow key erofs =>
    have hkeep : Keeps contacting (Contact.calm .shadow) (shadowTask E key erofs) :=
      .bind (.attempt (runShadow_contacting key erofs)) fun _ => calm_act (by simp [Action.kind])
    exact wp_mono (hkeep.toTask ⟨rfl, .inl rfl⟩) fun _ _ h => h.2

end Tasks

/-! ### One step -/

/-- Every connection is to an active VM, or to a warm one that is about to be; there is none to a VM that a
task is about to take out. -/
structure RegistryInv (w : World) (gs : List Contact) : Prop where
  covered : ∀ id ∈ w.agents, id ∈ w.pool.active ∨ ∃ g ∈ gs, g.dial = .linked id
  apart : ∀ g ∈ gs, ∀ id, g.leaving id = true → id ∉ w.agents

section Step

variable {E : Env} {w w' : World} {gs : List Contact} {i : ℕ} {g : Contact} {c : Choice}

theorem leaving_iff {id : String} :
    g.leaving id = true ↔ g.dial = .dropping id ∨ g.role = .shadow ∧ g.held = some id := by
  simp [Contact.leaving]

theorem not_linked (hg : g.dial = .idle ∨ g.dial = .looked) (id : String) : g.dial ≠ .linked id := by
  intro hd
  rcases hg with h | h
  · rw [h] at hd
    cases hd
  · rw [h] at hd
    cases hd

theorem insert_registry (hI : RegistryInv w gs) (hi : gs[i]? = some g) {id : String} {conn : ℕ}
    (hreq : contacting.req g (.agentsInsert id conn)) (hfree : ∀ u ∈ gs, u.leaving id = false)
    (hlive : g.dial = .looked → id ∈ w.pool.active) :
    RegistryInv { w with agents := w.agents.insert id conn }
      (gs.set i { g with dial := if g.dial = .looked then .idle else .linked id }) := by
  refine ⟨fun id' hid => ?_, fun u hu id' hl hid => ?_⟩
  · rcases Finmap.mem_insert.mp hid with rfl | hid
    · by_cases hd : g.dial = .looked
      · exact .inl (hlive hd)
      · exact .inr ⟨_, mem_set_self hi, if_neg hd⟩
    · exact (hI.covered id' hid).imp_right fun h => exists_mem_set hi h fun hd => absurd hd (not_linked hreq.2 id')
  · rcases mem_set_cases hu with rfl | ⟨j, -, hj⟩
    · have hno : ({ g with dial := if g.dial = .looked then .idle else .linked id } : Contact).leaving id' = false := by
        unfold Contact.leaving
        rw [hreq.1]
        by_cases hd : g.dial = .looked <;> simp [hd]
      rw [hno] at hl
      cases hl
    · rcases Finmap.mem_insert.mp hid with rfl | hid
      · rw [hfree u (List.mem_of_getElem? hj)] at hl
        cases hl
      · exact hI.apart u (List.mem_of_getElem? hj) id' hl hid

theorem remove_registry (hI : RegistryInv w gs) (hi : gs[i]? = some g) {id : String}
    (hreq : contacting.req g (.agentsRemove id)) :
    RegistryInv { w with agents := w.agents.erase id } (gs.set i { g with dial := .dropping id }) := by
  refine ⟨fun id' hid => ?_, fun u hu id' hl hid => ?_⟩
  · have hid := (Finmap.mem_erase.mp hid).2
    exact (hI.covered id' hid).imp_right fun h => exists_mem_set hi h fun hd => absurd hd (not_linked hreq.2 id')
  · obtain ⟨hne, hid⟩ := Finmap.mem_erase.mp hid
    rcases mem_set_cases hu with rfl | ⟨j, -, hj⟩
    · have hno : ({ g with dial := .dropping id } : Contact).leaving id' = false := by
        unfold Contact.leaving
        rw [hreq.1]
        simp [Ne.symm hne]
      rw [hno] at hl
      cases hl
    · exact hI.apart u (List.mem_of_getElem? hj) id' hl hid

theorem insert_active (hI : RegistryInv w gs) (hi : gs[i]? = some g) {vm : PoolVm}
    (hreq : contacting.req g (.pool (.activeInsert vm))) (hnew : g.role = .shadow → vm.vmId ∉ w.agents) :
    RegistryInv { w with pool := (w.pool.perform (.activeInsert vm)).2 }
      (gs.set i (contacting.upd g (.pool (.activeInsert vm)) ())) := by
  refine ⟨fun id hid => ?_, fun u hu id hl hid => ?_⟩
  · show id ∈ w.pool.active.insert vm.vmId vm ∨ _
    by_cases he : id = vm.vmId
    · exact .inl (Finmap.mem_insert.mpr (.inl he))
    · refine (hI.covered id hid).imp (fun h => Finmap.mem_insert.mpr (.inr h)) fun h =>
        exists_mem_set hi h fun hd => ?_
      rcases hreq with h | h | h
      · exact absurd hd (not_linked (.inl h) id)
      · exact absurd hd (not_linked (.inr h) id)
      · rw [h] at hd
        exact absurd (Dial.linked.inj hd).symm he
  · rcases mem_set_cases hu with rfl | ⟨j, -, hj⟩
    · -- the VM that a shadow run puts in has no connection
      have hrest : (contacting.upd g (.pool (.activeInsert vm)) ()).dial ≠ .dropping id := by
        intro hd
        rcases hreq with h | h | h <;> (simp only [contacting, Contact.upd, h] at hd; cases hd)
      obtain ⟨hs, hv⟩ : (contacting.upd g (.pool (.activeInsert vm)) ()).role = .shadow ∧
          (contacting.upd g (.pool (.activeInsert vm)) ()).held = some id := by
        simpa [Contact.leaving, hrest] using hl
      obtain rfl := Option.some.inj hv
      exact hnew hs hid
    · exact hI.apart u (List.mem_of_getElem? hj) id hl hid

theorem remove_active (hI : RegistryInv w gs) (hi : gs[i]? = some g) {id : String}
    (hreq : contacting.req g (.pool (.activeRemove id))) :
    RegistryInv { w.takeBack (.activeRemove id) with pool := (w.pool.perform (.activeRemove id)).2 }
      (gs.set i { g with dial := .idle, held := none }) := by
  have hgone := hI.apart g (List.mem_of_getElem? hi) id hreq.1
  refine ⟨fun id' hid => ?_, fun u hu id' hl hid => ?_⟩
  · refine (hI.covered id' hid).imp (fun h => Finmap.mem_erase.mpr ⟨?_, h⟩) fun h =>
      exists_mem_set hi h fun hd => absurd hd (hreq.2 id')
    rintro rfl
    exact hgone hid
  · rcases mem_set_cases hu with rfl | ⟨j, -, hj⟩
    · simp [Contact.leaving] at hl
    · exact hI.apart u (List.mem_of_getElem? hj) id' hl hid

/-- A step that leaves both tables alone. -/
theorem same_tables (hI : RegistryInv w gs) (hi : gs[i]? = some g) {g' : Contact} (hagents : w'.agents = w.agents)
    (hactive : w'.pool.active = w.pool.active) (hlinked : ∀ id, g.dial = .linked id → g'.dial = .linked id)
    (hleaving : ∀ id, g'.leaving id = true → g.leaving id = true) : RegistryInv w' (gs.set i g') := by
  refine ⟨fun id hid => ?_, fun u hu id hl hid => ?_⟩
  · rw [hagents] at hid
    rw [hactive]
    exact (hI.covered id hid).imp_right fun h => exists_mem_set hi h (hlinked id)
  · rw [hagents] at hid
    rcases mem_set_cases hu with rfl | ⟨j, -, hj⟩
    · exact hI.apart g (List.mem_of_getElem? hi) id (hleaving id hl) hid
    · exact hI.apart u (List.mem_of_getElem? hj) id hl hid

theorem registry_step {a : Action} {r : Answer a} (hI : RegistryInv w gs) (hi : gs[i]? = some g)
    (hreq : contacting.req g a) (hp : perform E w a c = some (r, w'))
    (henter : ∀ id conn, a = .agentsInsert id conn → (∀ u ∈ gs, u.leaving id = false) ∧
      (g.dial = .looked → id ∈ w.pool.active))
    (hnew : ∀ vm, a = .pool (.activeInsert vm) → g.role = .shadow → vm.vmId ∉ w.agents) :
    RegistryInv w' (gs.set i (contacting.upd g a r)) := by
  cases a with
  | agentsInsert id conn =>
    obtain ⟨-, rfl⟩ := Prod.mk.inj (Option.some.inj hp)
    obtain ⟨hfree, hlive⟩ := henter id conn rfl
    exact insert_registry hI hi hreq hfree hlive
  | agentsRemove id =>
    obtain ⟨-, rfl⟩ := Prod.mk.inj (Option.some.inj hp)
    exact remove_registry hI hi hreq
  | agentsGet id =>
    obtain ⟨-, rfl⟩ := Prod.mk.inj (Option.some.inj hp)
    refine same_tables hI hi rfl rfl (fun id' hd => absurd hd (not_linked hreq.2 id')) fun id' hl => ?_
    cases r with
    | some conn => exact hl
    | none =>
      have hno : ({ g with dial := .looked } : Contact).leaving id' = false := by simp [Contact.leaving, hreq.1]
      rw [show (contacting.upd g (.agentsGet id) none).leaving id' = false from hno] at hl
      cases hl
  | pool b =>
    obtain ⟨-, rfl⟩ := perform_pool hp
    cases b with
    | activeInsert vm => exact insert_active hI hi hreq (hnew vm rfl)
    | activeRemove id => exact remove_active hI hi hreq
    | _ => exact same_tables hI hi rfl rfl (fun _ hd => hd) fun _ hl => hl
  | snap b =>
    refine same_tables hI hi (agents_frame hp (by simp [Action.kind])) (active_frame hp (by simp [Action.kind]))
      (fun id hd => ?_) fun id hl => ?_
    · cases b <;> exact hd
    · cases b with
      | shadowsRemove key =>
        rw [leaving_iff] at hl ⊢
        exact .inl (hl.resolve_right fun h => (by cases h.2))
      | _ => exact hl
  | host b =>
    refine same_tables hI hi (agents_frame hp ?_) (active_frame hp ?_) (fun _ hd => hd) fun _ hl => hl
    · cases b <;> simp [Action.kind, HostAct.kind]
    · cases b <;> simp [Action.kind, HostAct.kind]
  | _ =>
    exact same_tables hI hi (agents_frame hp (by simp [Action.kind])) (active_frame hp (by simp [Action.kind]))
      (fun _ hd => hd) fun _ hl => hl

end Step

/-- Only requests enter connections. -/
def Contact.fair (g : Contact) : Prop := ∀ id, g.dial = .linked id → g.role = .client

theorem fair_upd {g : Contact} {a : Action} (r : Answer a) (hreq : contacting.req g a) (hg : g.fair) :
    (contacting.upd g a r).fair := by
  cases a with
  | agentsInsert id conn => exact fun _ _ => hreq.1
  | agentsRemove id => exact fun _ hd => (by cases hd)
  | agentsGet id =>
    cases r with
    | some conn => exact hg
    | none => exact fun _ hd => (by cases hd)
  | pool b =>
    cases b with
    | activeInsert vm =>
      intro id hd
      rcases hreq with h | h | h <;> (simp only [contacting, Contact.upd, h] at hd; cases hd)
    | activeRemove id => exact fun _ hd => (by cases hd)
    | _ => exact hg
  | snap b => cases b <;> exact hg
  | _ => exact hg

/-! ### Runs -/

section Runs

variable {E : Env} {h : Host} {x : DaemonConf}

theorem spawned_calm {a : Action} {r : Answer a} : ∀ u ∈ (spawned a r).map Contact.init,
    u.dial = .idle ∧ u.held = none := by
  intro u hu
  obtain ⟨t, -, rfl⟩ := List.mem_map.mp hu
  cases t <;> exact ⟨rfl, rfl⟩

/-- New tasks have nothing to do with any connection. -/
theorem RegistryInv.append {w : World} {l new : List Contact} (hI : RegistryInv w l)
    (hnew : ∀ u ∈ new, u.dial = .idle ∧ u.held = none) : RegistryInv w (l ++ new) := by
  refine ⟨fun id hid => (hI.covered id hid).imp_right fun ⟨g, hg, hd⟩ => ⟨g, List.mem_append_left new hg, hd⟩, ?_⟩
  intro u hu id hl
  rcases List.mem_append.mp hu with hu | hu
  · exact hI.apart u hu id hl
  · obtain ⟨hd, hh⟩ := hnew u hu
    rw [Contact.leaving, hd, hh] at hl
    simp at hl

theorem role_contact (t : Thread Action Answer Task) : (contact t).role = t.task.role := by
  refine System.ghost_reading (f := Contact.role) (fun g a r => ?_) t
  cases a with
  | agentsGet id => cases r <;> rfl
  | pool b => cases b <;> rfl
  | snap b => cases b <;> rfl
  | _ => rfl

theorem registry_inv (hx : (daemon E).Reach (fun x e => entersLive x e = true) (boot E h) x) :
    (RegistryInv x.shared (x.threads.map contact) ∧ ∀ g ∈ x.threads.map contact, g.fair) ∧
    ∀ t ∈ x.threads, wp contacting t.prog (fun _ g => g.dial = .idle ∨ g.dial = .looked) (contact t) := by
  refine System.Reach.inv (fun w gs => RegistryInv w gs ∧ ∀ g ∈ gs, g.fair) (fun g => g.dial = .idle ∨ g.dial = .looked)
    body_contacting ?_ ?_ ?_ ?_ hx
  · refine ⟨RegistryInv.append (l := []) ⟨fun id hid => ?_, fun u hu => (by cases hu)⟩ fun u hu => ?_, fun u hu => ?_⟩
    · exact absurd hid Finmap.notMem_empty
    · obtain rfl := List.mem_singleton.mp hu
      exact ⟨rfl, rfl⟩
    · obtain rfl := List.mem_singleton.mp hu
      exact fun _ hd => (by cases hd)
  · intro t ht
    obtain rfl := List.mem_singleton.mp ht
    exact body_contacting .main
  · intro x t hI _ _
    refine ⟨hI.1.append fun u hu => ?_, fun u hu => ?_⟩
    · rw [List.mem_singleton.mp hu]
      exact ⟨rfl, rfl⟩
    · rcases List.mem_append.mp hu with hu | hu
      · exact hI.2 u hu
      · rw [List.mem_singleton.mp hu]
        exact fun _ hd => (by cases hd)
  · intro x i g a c r w' hI hi hreq hp hok
    have hthread : ∃ t, x.threads[i]? = some t ∧ contact t = g := by
      rw [List.getElem?_map] at hi
      exact Option.map_eq_some_iff.mp hi
    obtain ⟨t, ht, rfl⟩ := hthread
    refine ⟨trivial, (registry_step hI.1 hi hreq hp ?_ ?_).append spawned_calm, fun u hu => ?_⟩
    · rintro id conn rfl
      obtain ⟨hfree, hlive⟩ := Bool.and_eq_true_iff.mp hok
      refine ⟨fun u hu => ?_, fun hd => ?_⟩
      · obtain ⟨v, hv, rfl⟩ := List.mem_map.mp hu
        show (contact v).leaving id = false
        simpa using List.all_eq_true.mp hfree v hv
      · rw [ht, Option.all_some] at hlive
        exact of_decide_eq_true hlive hd
    · rintro vm rfl hs
      have hnew : decide (t.task.role = .shadow → vm.vmId ∉ x.shared.agents) = true := by
        simpa only [entersLive, ht, Option.all_some] using hok
      exact of_decide_eq_true hnew ((role_contact t).symm.trans hs)
    · rcases List.mem_append.mp hu with hu | hu
      · rcases mem_set_cases hu with rfl | ⟨j, -, hj⟩
        · exact fair_upd r hreq (hI.2 _ (List.mem_of_getElem? hi))
        · exact hI.2 u (List.mem_of_getElem? hj)
      · obtain ⟨hd, -⟩ := spawned_calm u hu
        intro id hd'
        rw [hd] at hd'
        cases hd'

/-- **Connections are to active VMs.**  In every run in which a connection is entered only for a VM that no
task is about to take out of `active`, and by `run_container_in_vm` only for one that is there: when no request
is in flight, every VM in the registry is in `active`. -/
theorem registry_subset_active (hx : (daemon E).Reach (fun x e => entersLive x e = true) (boot E h) x)
    (hidle : ∀ t ∈ x.threads, (∃ r, t.task = .request r) → t.prog.done = true) :
    ∀ id ∈ x.shared.agents, id ∈ x.shared.pool.active := by
  obtain ⟨⟨hI, hfair⟩, hW⟩ := registry_inv hx
  intro id hid
  refine (hI.covered id hid).resolve_right ?_
  rintro ⟨g, hg, hd⟩
  have hrole := hfair g hg id hd
  obtain ⟨t, ht, rfl⟩ := List.mem_map.mp hg
  have hreq : ∃ r, t.task = .request r := by
    rw [role_contact] at hrole
    cases hk : t.task with
    | request r => exact ⟨r, rfl⟩
    | _ =>
      rw [hk] at hrole
      cases hrole
  exact not_linked (System.fin_of_done (hidle t ht hreq) (hW t ht)) id hd

end Runs

/-! ### Runs to evaluate -/

/-- A request for a second container in the first VM. -/
def addToFirst : Task := .request (.addContainer ⟨"pool-7-3", "/img/web", "ctr-1", ""⟩)

/-- The VM is released after the request has dialled its agent and before it enters the connection. -/
def releasedMeanwhile : List (Label Choice Task) :=
  steps 0 13 100 ++ [.arrive bareAcquire] ++ steps 1 5 101 ++ [.arrive addToFirst] ++ steps 3 4 0 ++
    [.arrive (.request (.releaseSandbox "pool-7-3"))] ++ steps 4 8 0 ++ steps 3 3 0

theorem release_leaves_connection : ∃ x, (daemon poolOfOne).Reach (fun _ _ => True)
    (boot poolOfOne (Host.withBase poolOfOne)) x ∧
    (∀ t ∈ x.threads, t.task ≠ .replenish → t.prog.done = true) ∧
    "pool-7-3" ∈ x.shared.agents ∧ "pool-7-3" ∉ x.shared.pool.active := by
  have hrun : ((daemon poolOfOne).exec (fun _ _ => true) (boot poolOfOne (Host.withBase poolOfOne))
      releasedMeanwhile).any (fun x => decide ((∀ t ∈ x.threads, t.task ≠ .replenish → t.prog.done = true) ∧
        "pool-7-3" ∈ x.shared.agents ∧ "pool-7-3" ∉ x.shared.pool.active)) = true := by
    decide +kernel
  obtain ⟨x, hx, hP⟩ := System.exists_reach hrun
  exact ⟨x, hx.mono fun _ _ _ => trivial, of_decide_eq_true hP⟩

/-- The same requests without the release. -/
def addedInPeace : List (Label Choice Task) :=
  steps 0 13 100 ++ [.arrive bareAcquire] ++ steps 1 5 101 ++ [.arrive addToFirst] ++ steps 3 7 0

theorem registry_subset_active_added : ∃ x, (daemon poolOfOne).Reach (fun x e => entersLive x e = true)
    (boot poolOfOne (Host.withBase poolOfOne)) x ∧ "pool-7-3" ∈ x.shared.agents ∧
    ∀ id ∈ x.shared.agents, id ∈ x.shared.pool.active := by
  have hrun : ((daemon poolOfOne).exec entersLive (boot poolOfOne (Host.withBase poolOfOne)) addedInPeace).any
      (fun x => decide ((∀ t ∈ x.threads, t.task ≠ .replenish → t.prog.done = true) ∧
        "pool-7-3" ∈ x.shared.agents)) = true := by
    decide +kernel
  obtain ⟨x, hx, hP⟩ := System.exists_reach hrun
  obtain ⟨hdone, hreg⟩ := of_decide_eq_true hP
  refine ⟨x, hx, hreg, registry_subset_active hx ?_⟩
  rintro t ht ⟨r, hr⟩
  exact hdone t ht (by rw [hr]; simp)

end CloudHv.Daemon
