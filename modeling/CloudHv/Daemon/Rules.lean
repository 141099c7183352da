import CloudHv.Daemon.Api

/-!
# Rules — proof rules for the daemon's code

`wpx` rules for the combinators of the monad `M`, and for every function of the daemon the kinds of
action it performs (`Uses`).  A discipline that watches one table then deals with the functions that
touch this table and passes over the others by their kinds.
-/

namespace CloudHv.Daemon

open Conc

/-! ### Rules for the monad -/

section Semx

variable {σ α ε : Type} {T : Trans Action Answer σ} {Q : α → σ → Prop} {F : Fail → σ → Prop} {s : σ}

theorem semx_tell {a : Action} {Q : Answer a → σ → Prop} : semx T (tell a) Q F s ↔ T a Q s :=
  semx_lift (p := Prog.call a)

theorem semx_ask {p : P (Except ε α)} {wrap : ε → Agent.Err} :
    semx T (ask p wrap) Q F s ↔ sem T p (fun r s' => match r with
      | .ok x => Q x s'
      | .error e => F (.err (wrap e)) s') s := by
  refine sem_bind.trans (iff_of_eq (congrArg (sem T p · s) (funext fun r => ?_)))
  cases r <;> rfl

theorem semx_context {m : M α} {ctx : String} :
    semx T (context m ctx) Q F s ↔ semx T m Q (fun e s' => F (e.within ctx) s') s := by
  refine sem_bind.trans (iff_of_eq (congrArg (sem T m.run · s) (funext fun r => ?_)))
  cases r <;> rfl

theorem semx_attempt {m : M α} {Q : Except Agent.Err α → σ → Prop} :
    semx T (attempt m) Q F s ↔ semx T m (fun x s' => Q (.ok x) s') (fun e s' => match e with
      | .err e => Q (.error e) s'
      | .panic => F .panic s') s := by
  refine sem_bind.trans (iff_of_eq (congrArg (sem T m.run · s) (funext fun r => ?_)))
  rcases r with e | x
  · cases e <;> rfl
  · rfl

end Semx

section Wpx

variable {γ α β ε : Type} {D : Discipline Action Answer γ} {Q : α → γ → Prop} {F : Fail → γ → Prop} {g : γ}

@[simp] theorem wpx_tell {a : Action} {Q : Answer a → γ → Prop} :
    wpx D (tell a) Q F g ↔ D.req g a ∧ ∀ r, D.may g a r → Q r (D.upd g a r) := semx_tell

@[simp] theorem wpx_host {a : HostAct} {Q : a.Answer → γ → Prop} :
    wpx D (host a) Q F g ↔ D.req g (.host a) ∧ ∀ r, D.may g (.host a) r → Q r (D.upd g (.host a) r) :=
  wpx_tell

@[simp] theorem wpx_pool {a : PoolAct} {Q : a.Answer → γ → Prop} :
    wpx D (pool a) Q F g ↔ D.req g (.pool a) ∧ ∀ r, D.may g (.pool a) r → Q r (D.upd g (.pool a) r) :=
  wpx_tell

@[simp] theorem wpx_snap {a : SnapAct} {Q : a.Answer → γ → Prop} :
    wpx D (snap a) Q F g ↔ D.req g (.snap a) ∧ ∀ r, D.may g (.snap a) r → Q r (D.upd g (.snap a) r) :=
  wpx_tell

@[simp] theorem wp_onHost {a : HostAct} {Q : a.Answer → γ → Prop} :
    wp D (onHost a) Q g ↔ D.req g (.host a) ∧ ∀ r, D.may g (.host a) r → Q r (D.upd g (.host a) r) :=
  wp_call

theorem wpx_ask {p : P (Except ε α)} {wrap : ε → Agent.Err} :
    wpx D (ask p wrap) Q F g ↔ wp D p (fun r g' => match r with
      | .ok x => Q x g'
      | .error e => F (.err (wrap e)) g') g := semx_ask

@[simp] theorem wpx_context {m : M α} {ctx : String} :
    wpx D (context m ctx) Q F g ↔ wpx D m Q (fun e g' => F (e.within ctx) g') g := semx_context

@[simp] theorem wpx_attempt {m : M α} {Q : Except Agent.Err α → γ → Prop} :
    wpx D (attempt m) Q F g ↔ wpx D m (fun x g' => Q (.ok x) g') (fun e g' => match e with
      | .err e => Q (.error e) g'
      | .panic => F .panic g') g := semx_attempt

/-- Code whose failure does not matter to the caller. -/
theorem wpx_attempt_any {m : M α} {Q : Except Agent.Err α → γ → Prop}
    (h : wpx D m (fun x g' => Q (.ok x) g') (fun e g' => ∀ q, Q (.error q) g' ∧ F e g') g) :
    wpx D (attempt m) Q F g := by
  rw [wpx_attempt]
  refine wpx_mono h (fun _ _ hx => hx) fun e g' he => ?_
  cases e with
  | err e => exact (he e).1
  | panic => exact (he []).2

@[simp] theorem wpx_bail {msg : String} : wpx D (bail msg : M α) Q F g ↔ F (.err [msg]) g := Iff.rfl

theorem wp_toTask {m : M Unit} {Q : Unit → γ → Prop}
    (h : wpx D m (fun _ g' => Q () g') (fun _ g' => Q () g') g) : wp D m.toTask Q g := by
  unfold M.toTask
  rw [wp_bind]
  refine wp_mono h fun r g' hr => ?_
  cases r <;> exact hr

end Wpx

/-! ### What an action does to the state -/

section Perform

variable {E : Env} {w w' : World} {c : Choice}

theorem perform_pool {b : PoolAct} {r : b.Answer} (h : perform E w (.pool b) c = some (r, w')) :
    r = (w.pool.perform b).1 ∧ w' = { w.takeBack b with pool := (w.pool.perform b).2 } := by
  obtain ⟨rfl, rfl⟩ := Prod.mk.inj (Option.some.inj h)
  exact ⟨rfl, rfl⟩

theorem perform_host {b : HostAct} {r : b.Answer} (h : perform E w (.host b) c = some (r, w')) :
    ∃ h', w.host.perform b c = some (r, h') ∧ w' = { w with host := h' } := by
  obtain ⟨⟨q, h'⟩, hp, hq⟩ := Option.map_eq_some_iff.mp h
  obtain ⟨rfl, rfl⟩ := Prod.mk.inj hq
  exact ⟨h', hp, rfl⟩

theorem perform_snap {b : SnapAct} {r : b.Answer} (h : perform E w (.snap b) c = some (r, w')) :
    ∃ s dirs, w.snapshots.perform E.cfg w.host.mtimes b c = some (r, s, dirs) ∧
      w' = { w with snapshots := s, host := dirs.foldl Host.removeDir w.host } := by
  obtain ⟨⟨q, s, dirs⟩, hp, hq⟩ := Option.map_eq_some_iff.mp h
  obtain ⟨rfl, rfl⟩ := Prod.mk.inj hq
  exact ⟨s, dirs, hp, rfl⟩

theorem perform_bind {r : Except Agent.Err Unit} (h : perform E w .bindSocket c = some (r, w')) :
    w' = w ∨ w' = { w with listening := true } := by
  simp only [perform] at h
  split at h
  · exact .inl (Prod.mk.inj (Option.some.inj h)).2.symm
  · exact .inr (Prod.mk.inj (Option.some.inj h)).2.symm

/-- What a host call and a pool action can do when the program runs alone. -/
theorem host_possible (b : HostAct) (c : Choice) (r : b.Answer) (h' : Host) {K : b.Answer → World → Prop}
    (hp : w.host.perform b c = some (r, h')) (hK : K r { w with host := h' }) :
    possible (perform E) (.host b) K w :=
  ⟨c, r, { w with host := h' }, by simp only [perform, hp, Option.map_some], hK⟩

theorem pool_possible (b : PoolAct) {K : b.Answer → World → Prop}
    (hK : K (w.pool.perform b).1 { w.takeBack b with pool := (w.pool.perform b).2 }) :
    possible (perform E) (.pool b) K w := ⟨Choice.fine 0, _, _, rfl, hK⟩

/-- Only the pool's own actions change the pool. -/
theorem pool_frame {a : Action} {r : Answer a} (h : perform E w a c = some (r, w'))
    (ha : ∀ b, a ≠ .pool b) : w'.pool = w.pool := by
  cases a with
  | pool b => exact absurd rfl (ha b)
  | host b => obtain ⟨h', -, rfl⟩ := perform_host h; rfl
  | snap b => obtain ⟨s, dirs, -, rfl⟩ := perform_snap h; rfl
  | bindSocket => rcases perform_bind h with rfl | rfl <;> rfl
  | reply resp =>
    obtain ⟨rfl, rfl⟩ := Prod.mk.inj (Option.some.inj h)
    cases resp <;> rfl
  | _ => obtain ⟨rfl, rfl⟩ := Prod.mk.inj (Option.some.inj h); rfl

end Perform

/-! ### Kinds of action -/

inductive Kind where
  | ready | pop | push | active | lookup | counter | cache | registry
  | file | remove | pidFile | spawn | signal
  | ch | disk | link | agent | configure | container
  | task | listen | panic | reply | outside
  deriving DecidableEq

def HostAct.kind : HostAct → Kind
  | .createDirAll _ | .createFile _ | .fileMtime _ | .baseSnapshotValid _ | .prepareSnapshot _ _ _ _
  | .stripKernelIp _ => .file
  | .removeDirAll _ => .remove
  | .writePid _ _ | .readPid _ => .pidFile
  | .spawnCh _ => .spawn
  | .sigterm _ | .awaitGone _ | .sigkill _ => .signal
  | .chReady _ | .api _ _ => .ch
  | .addDisk _ _ => .disk
  | .addNet _ _ _ | .probePod _ | .delLink _ | .createTap _ | .linkIndex _ | .moveToNetns _ _ _
  | .wireTap _ _ => .link
  | .agentHealthy _ | .connectAgent _ | .killContainer _ _ _ | .waitContainer _ _
  | .deleteContainer _ _ => .agent
  | .configureNetwork _ _ _ _ => .configure
  | .runContainer _ _ => .container

def PoolAct.kind : PoolAct → Kind
  | .readyLen => .ready
  | .readyPop => .pop
  | .readyPush _ => .push
  | .activeInsert _ | .activeRemove _ => .active
  | .activeGet _ => .lookup
  | .countAdd | .countSub | .countLoad | .cidLoad | .cidFetchAdd => .counter

def Action.kind : Action → Kind
  | .host a => a.kind
  | .pool a => a.kind
  | .snap _ => .cache
  | .agentsGet _ | .agentsInsert _ _ | .agentsRemove _ => .registry
  | .warmFetchAdd => .counter
  | .spawnReplenish | .spawnShadow _ _ | .sleep _ => .task
  | .bindSocket => .listen
  | .panicked => .panic
  | .reply _ => .reply
  | .touch _ _ => .outside

section Frames

variable {E : Env} {w w' : World} {a : Action} {c : Choice} {r : Answer a}

/-- Only the registry's own actions change the registry. -/
theorem agents_frame (h : perform E w a c = some (r, w'))
    (ha : a.kind ≠ .registry) : w'.agents = w.agents := by
  cases a with
  | pool b =>
    obtain ⟨-, rfl⟩ := perform_pool h
    cases b <;> rfl
  | host b => obtain ⟨h', -, rfl⟩ := perform_host h; rfl
  | snap b => obtain ⟨s, dirs, -, rfl⟩ := perform_snap h; rfl
  | bindSocket => rcases perform_bind h with rfl | rfl <;> rfl
  | reply resp =>
    obtain ⟨rfl, rfl⟩ := Prod.mk.inj (Option.some.inj h)
    cases resp <;> rfl
  | agentsGet id => exact absurd rfl ha
  | agentsInsert id conn => exact absurd rfl ha
  | agentsRemove id => exact absurd rfl ha
  | _ => obtain ⟨rfl, rfl⟩ := Prod.mk.inj (Option.some.inj h); rfl

theorem active_frame (h : perform E w a c = some (r, w')) (ha : a.kind ≠ .active) : w'.pool.active = w.pool.active := by
  by_cases hb : ∃ b, a = .pool b
  · obtain ⟨b, rfl⟩ := hb
    obtain ⟨-, rfl⟩ := perform_pool h
    cases b <;> first | rfl | exact absurd rfl ha
  · rw [pool_frame h fun b he => hb ⟨b, he⟩]

/-- Only the snapshot manager's own actions change it. -/
theorem snapshots_frame (hp : perform E w a c = some (r, w')) (ha : ∀ b, a ≠ .snap b) :
    w'.snapshots = w.snapshots := by
  cases a with
  | snap b => exact absurd rfl (ha b)
  | host b =>
    obtain ⟨h', -, rfl⟩ := perform_host hp
    rfl
  | pool b =>
    obtain ⟨-, rfl⟩ := perform_pool hp
    show (w.takeBack b).snapshots = w.snapshots
    cases b <;> rfl
  | bindSocket =>
    rcases perform_bind hp with rfl | rfl
    · rfl
    · rfl
  | reply resp =>
    obtain ⟨-, rfl⟩ := Prod.mk.inj (Option.some.inj hp)
    cases resp <;> rfl
  | _ =>
    obtain ⟨-, rfl⟩ := Prod.mk.inj (Option.some.inj hp)
    rfl

theorem listening_frame (hp : perform E w a c = some (r, w')) (ha : a ≠ .bindSocket) :
    w'.listening = w.listening := by
  cases a with
  | pool b =>
    obtain ⟨-, rfl⟩ := perform_pool hp
    cases b <;> rfl
  | host b => obtain ⟨h', -, rfl⟩ := perform_host hp; rfl
  | snap b => obtain ⟨s, dirs, -, rfl⟩ := perform_snap hp; rfl
  | bindSocket => exact absurd rfl ha
  | reply resp =>
    obtain ⟨rfl, rfl⟩ := Prod.mk.inj (Option.some.inj hp)
    cases resp <;> rfl
  | _ => obtain ⟨rfl, rfl⟩ := Prod.mk.inj (Option.some.inj hp); rfl

end Frames

/-- The code performs actions of the kinds `ks` only. -/
def Uses {α : Type} (ks : List Kind) (m : M α) : Prop := Only (fun a : Action => a.kind ∈ ks) m.run

/-- The code performs actions of the kinds `ks` only, returns an error right after a failed one, and
never returns an error otherwise. -/
def Strict {α : Type} (ks : List Kind) (m : M α) : Prop :=
  FailFast (fun a : Action => a.kind ∈ ks) failed m.run

section Only

variable {α ε : Type} {R : Action → Prop}

theorem only_ask {p : P (Except ε α)} {wrap : ε → Agent.Err} (h : Only R p) : Only R (ask p wrap).run := by
  refine h.bind fun r => ?_
  cases r with
  | ok x => trivial
  | error e => trivial

theorem only_context {m : M α} {ctx : String} (h : Only R m.run) : Only R (context m ctx).run := by
  refine h.bind fun r => ?_
  cases r with
  | ok x => trivial
  | error e => trivial

theorem only_attempt {m : M α} (h : Only R m.run) : Only R (attempt m).run := by
  refine h.bind fun r => ?_
  rcases r with e | x
  · cases e <;> trivial
  · trivial

theorem only_tell {a : Action} (h : R a) : Only R (tell a).run := ⟨h, fun _ => trivial⟩

theorem only_call {a : HostAct} (h : R (.host a)) : Only R (onHost a) := ⟨h, fun _ => trivial⟩

end Only

namespace Uses

variable {α β ε : Type} {ks : List Kind}

theorem mono {ks' : List Kind} {m : M α} (h : Uses ks m) (hk : ks ⊆ ks') : Uses ks' m :=
  Only.mono h fun _ ha => hk ha

theorem pure (x : α) : Uses ks (pure x) := trivial

theorem bind {m : M α} {f : α → M β} (hm : Uses ks m) (hf : ∀ x, Uses ks (f x)) : Uses ks (m >>= f) :=
  Only.bindE hm hf

theorem tell {a : Action} (h : ks.elem a.kind = true) : Uses ks (tell a) :=
  only_tell (List.elem_iff.mp h)

theorem host {a : HostAct} (h : ks.elem a.kind = true) : Uses ks (host a) := tell h

theorem pool {a : PoolAct} (h : ks.elem a.kind = true) : Uses ks (pool a) := tell h

theorem snap {a : SnapAct} (h : ks.elem Kind.cache = true) : Uses ks (snap a) :=
  ⟨List.elem_iff.mp h, fun _ => trivial⟩

theorem onHost {a : HostAct} (h : ks.elem a.kind = true) :
    Only (fun a : Action => a.kind ∈ ks) (onHost a) := only_call (List.elem_iff.mp h)

theorem ask {p : P (Except ε α)} {wrap : ε → Agent.Err} (h : Only (fun a : Action => a.kind ∈ ks) p) :
    Uses ks (ask p wrap) := only_ask h

theorem context {m : M α} {ctx : String} (h : Uses ks m) : Uses ks (context m ctx) := only_context h

theorem attempt {m : M α} (h : Uses ks m) : Uses ks (attempt m) := only_attempt h

theorem ite {c : Prop} [Decidable c] {m m' : M α} (h : Uses ks m) (h' : Uses ks m') :
    Uses ks (if c then m else m') := by
  split
  · exact h
  · exact h'

end Uses

namespace Strict

variable {α β ε : Type} {ks : List Kind}

theorem uses {m : M α} (h : Strict ks m) : Uses ks m := FailFast.only h

theorem mono {ks' : List Kind} {m : M α} (h : Strict ks m) (hk : ks ⊆ ks') : Strict ks' m :=
  FailFast.mono h fun _ ha => hk ha

theorem pure (x : α) : Strict ks (pure x) := trivial

theorem bind {m : M α} {f : α → M β} (hm : Strict ks m) (hf : ∀ x, Strict ks (f x)) :
    Strict ks (m >>= f) := FailFast.bindE hm hf

/-- An action that never fails. -/
theorem tell {a : Action} (h : ks.elem a.kind = true) (hf : ∀ r, failed a r = false) :
    Strict ks (tell a) :=
  ⟨List.elem_iff.mp h, fun r => ⟨fun hr => (by rw [hf r] at hr; cases hr), fun _ => trivial⟩⟩

/-- A fallible action; `res` is the result in its answer. -/
theorem askVia {a : Action} {res : Answer a → Except ε α} {wrap : ε → Agent.Err}
    (h : ks.elem a.kind = true) (hf : ∀ r, failed a r = isError (res r)) :
    Strict ks (ask (Prog.act a fun r => .ret (res r)) wrap) := by
  refine ⟨List.elem_iff.mp h, fun r => ?_⟩
  have hr := hf r
  cases hres : res r with
  | ok x =>
    refine ⟨fun hb => ?_, fun _ => ?_⟩
    · rw [hr, hres] at hb
      cases hb
    · show FailFast _ failed ((Prog.ret (res r)).bind _)
      rw [hres]
      trivial
  | error e =>
    refine ⟨fun _ => ⟨.err (wrap e), ?_⟩, fun hb => ?_⟩
    · show (Prog.ret (res r)).bind _ = _
      rw [hres]
      rfl
    · rw [hr, hres] at hb
      cases hb

/-- A poll that has to come out true. -/
theorem poll {a : HostAct} {ans : a.Answer → Bool} {msg : String} (h : ks.elem a.kind = true)
    (hf : ∀ r, a.failed r = !ans r) :
    Strict ks (Daemon.host a >>= fun r => if ans r then Pure.pure () else Daemon.bail msg) := by
  refine ⟨List.elem_iff.mp h, fun r => ?_⟩
  have hr : failed (.host a) r = !ans r := hf r
  cases hans : ans r with
  | true =>
    refine ⟨fun hb => ?_, fun _ => ?_⟩
    · rw [hr, hans] at hb
      cases hb
    · show FailFast _ failed (if ans r then Pure.pure () else Daemon.bail msg : M Unit).run
      rw [hans]
      trivial
  | false =>
    refine ⟨fun _ => ⟨.err [msg], ?_⟩, fun hb => ?_⟩
    · show (if ans r then Pure.pure () else Daemon.bail msg : M Unit).run = _
      rw [hans]
      rfl
    · rw [hr, hans] at hb
      cases hb

theorem context {m : M α} {ctx : String} (h : Strict ks m) : Strict ks (context m ctx) := by
  unfold Strict Daemon.context at *
  rw [ExceptT.run_mk]
  generalize m.run = p at h
  induction p with
  | ret x =>
    cases x with
    | ok x => trivial
    | error e => exact h.elim
  | act a k ih =>
    refine ⟨h.1, fun r => ⟨fun hr => ?_, fun hr => ih r ((h.2 r).2 hr)⟩⟩
    obtain ⟨e, he⟩ := (h.2 r).1 hr
    refine ⟨e.within ctx, ?_⟩
    show (k r >>= _) = _
    rw [he]
    rfl

theorem ite {c : Prop} [Decidable c] {m m' : M α} (h : Strict ks m) (h' : Strict ks m') :
    Strict ks (if c then m else m') := by
  split
  · exact h
  · exact h'

end Strict

/-! ### What the functions use -/

theorem apiRequest_strict (sock : Path) (c : ApiCall) : Strict [.ch] (apiRequest sock c) :=
  .askVia rfl fun _ => rfl

theorem createDirAll_strict (p : Path) : Strict [.file] (createDirAll p) := .askVia rfl fun _ => rfl

theorem spawnCh_strict (dir : Path) : Strict [.spawn, .pidFile] (spawnCh dir) :=
  .bind (.askVia rfl fun _ => rfl) fun _ => .bind (.askVia rfl fun _ => rfl) fun _ => .pure _

theorem waitChReady_strict (sock : Path) : Strict [.ch] (waitChReady sock) := .poll rfl fun _ => rfl

theorem waitForAgent_strict (vsock : Path) : Strict [.agent] (waitForAgent vsock) := .poll rfl fun _ => rfl

theorem prepareSnapshot_strict (base dir : Path) (cid : ℕ) (vsock : Path) :
    Strict [.file] (prepareSnapshot base dir cid vsock) := .askVia rfl fun _ => rfl

theorem connectAgent_strict (vsock : Path) : Strict [.agent] (connectAgent vsock) :=
  .askVia rfl fun _ => rfl

theorem bootVm_strict (E : Env) (dir : Path) (cid : ℕ) :
    Strict [.spawn, .pidFile, .ch, .file] (bootVm E dir cid) :=
  .bind ((spawnCh_strict dir).mono (by simp)) fun _ =>
  .bind ((waitChReady_strict _).mono (by simp)) fun _ => .bind (.askVia rfl fun _ => rfl) fun _ =>
  .bind ((apiRequest_strict _ _).mono (by simp)) fun _ =>
  .bind ((apiRequest_strict _ _).mono (by simp)) fun _ => .bind (.askVia rfl fun _ => rfl) fun _ => .pure _

theorem shutdownAndDestroy_uses (pid : ℕ) (dir : Path) :
    Uses [.signal, .remove, .task] (shutdownAndDestroy pid dir) :=
  .bind (.host rfl) fun _ => .bind (.host rfl) fun _ => .ite (.host rfl)
    (.bind (.host rfl) fun _ => .bind (.tell rfl) fun _ => .host rfl)

theorem slice_strict (s : String) (n : ℕ) : Strict [.panic] (slice s n) := by
  unfold slice
  split
  · exact .pure _
  · exact ⟨List.elem_iff.mp rfl, fun r => ⟨fun _ => ⟨_, rfl⟩, fun hr => (by cases hr)⟩⟩

theorem prepareTap_strict (netns tap : String) : Strict [.link] (prepareTap netns tap) :=
  .bind (.askVia rfl fun _ => rfl) fun _ => .bind (.askVia rfl fun _ => rfl) fun _ =>
  .bind (.askVia rfl fun _ => rfl) fun _ => .pure _

theorem activateTap_strict (netns tap : String) : Strict [.link] (activateTap netns tap) :=
  .bind (.askVia rfl fun _ => rfl) fun _ => .bind (.askVia rfl fun _ => rfl) fun _ =>
  .bind (.askVia rfl fun _ => rfl) fun _ => .pure _

theorem setupVmNetworking_strict (netns vmId : String) (api : Path) :
    Strict [.panic, .link] (setupVmNetworking netns vmId api) :=
  .bind ((slice_strict _ _).mono (by simp)) fun _ =>
  .bind (.context ((prepareTap_strict _ _).mono (by simp))) fun _ =>
  .bind (.context (.askVia rfl fun _ => rfl)) fun _ =>
  .bind (.context ((activateTap_strict _ _).mono (by simp))) fun _ => .pure _

theorem configureGuestNetwork_strict (conn : ℕ) (ip gw : String) :
    Strict [.configure] (configureGuestNetwork conn ip gw) := .askVia rfl fun _ => rfl

theorem agentFor_strict (p : RunContainerParams) : Strict [.registry, .agent] (agentFor p) := by
  refine .bind (.tell rfl fun _ => rfl) fun r => ?_
  cases r with
  | some a => exact .pure _
  | none =>
    exact .bind (.context ((connectAgent_strict _).mono (by simp))) fun _ =>
      .bind (.tell rfl fun _ => rfl) fun _ => .pure _

theorem runContainerRpc_strict (conn : ℕ) (req : Agent.CreateRequest) (ctx : String) :
    Strict [.container] (runContainerRpc conn req ctx) := .askVia rfl fun _ => rfl

theorem setupNetwork_strict (p : RunContainerParams) : Strict [.panic, .link] (setupNetwork p) :=
  .ite (.bind (.context (setupVmNetworking_strict _ _ _)) fun _ => .pure _) (.pure _)

/-- Running a container with the network of a VM set up in a way that uses `ks`. -/
theorem runContainerInVm_of_network {E : Env} {p : RunContainerParams} {ks : List Kind}
    (hnet : Strict ks (setupNetwork p)) (hks : [.panic, .disk, .registry, .agent, .configure, .container] ⊆ ks) :
    Strict ks (runContainerInVm E p) := by
  have hk : ∀ {k : Kind}, k ∈ [Kind.panic, .disk, .registry, .agent, .configure, .container] →
      ks.elem k = true := fun hm => List.elem_iff.mpr (hks hm)
  refine .bind hnet fun r => ?_
  refine .bind ((slice_strict _ _).mono (List.Subset.trans (by simp) hks)) fun _ =>
    .bind (.context (.askVia (hk (by simp [Action.kind, HostAct.kind])) fun _ => rfl)) fun _ =>
    .bind ((agentFor_strict p).mono (List.Subset.trans (by simp) hks)) fun _ => ?_
  obtain ⟨tap, net⟩ := r
  cases net with
  | some info =>
    exact .bind (.context ((configureGuestNetwork_strict _ _ _).mono (List.Subset.trans (by simp) hks))) fun _ =>
      .bind ((runContainerRpc_strict _ _ _).mono (List.Subset.trans (by simp) hks)) fun _ => .pure _
  | none => exact .bind ((runContainerRpc_strict _ _ _).mono (List.Subset.trans (by simp) hks)) fun _ => .pure _

theorem runContainerInVm_strict (E : Env) (p : RunContainerParams) :
    Strict [.panic, .link, .disk, .registry, .agent, .configure, .container] (runContainerInVm E p) :=
  runContainerInVm_of_network ((setupNetwork_strict p).mono (by simp)) (by simp)

/-- What `restore_one` does once it has its id and CID. -/
theorem restoreTail_strict {α : Type} (E : Env) (dir : Path) (cid : ℕ) (vsock : Path) (f : ℕ → α) :
    Strict [.file, .spawn, .pidFile, .ch, .agent] (do
      createDirAll dir
      let prepared ← prepareSnapshot E.cfg.baseSnapshotDir dir cid vsock
      let chPid ← spawnCh dir
      waitChReady (dir ++ ["api.sock"])
      apiRequest (dir ++ ["api.sock"]) (.restore prepared)
      apiRequest (dir ++ ["api.sock"]) .resume
      context (waitForAgent vsock) "agent connect after restore"
      pure (f chPid)) :=
  .bind ((createDirAll_strict _).mono (by simp)) fun _ =>
  .bind ((prepareSnapshot_strict _ _ _ _).mono (by simp)) fun _ =>
  .bind ((spawnCh_strict _).mono (by simp)) fun _ => .bind ((waitChReady_strict _).mono (by simp)) fun _ =>
  .bind ((apiRequest_strict _ _).mono (by simp)) fun _ =>
  .bind ((apiRequest_strict _ _).mono (by simp)) fun _ =>
  .bind (.context ((waitForAgent_strict _).mono (by simp))) fun _ => .pure _

theorem restoreOne_strict (E : Env) :
    Strict [.counter, .file, .spawn, .pidFile, .ch, .agent] (restoreOne E) :=
  .bind (.tell rfl fun _ => rfl) fun _ => .bind (.tell rfl fun _ => rfl) fun _ =>
  (restoreTail_strict E _ _ _ _).mono (by simp)

theorem createBaseSnapshot_uses (E : Env) (base : Path) :
    Uses [.counter, .file, .spawn, .pidFile, .ch, .agent, .signal, .remove, .task]
      (createBaseSnapshot E base) :=
  .bind ((createDirAll_strict _).mono (by simp)).uses fun _ => .bind (.pool rfl) fun _ =>
  .bind ((createDirAll_strict _).mono (by simp)).uses fun _ =>
  .bind (Strict.context ((bootVm_strict _ _ _).mono (by simp))).uses fun _ =>
  .bind (Strict.context ((waitForAgent_strict _).mono (by simp))).uses fun _ =>
  .bind ((apiRequest_strict _ _).mono (by simp)).uses fun _ =>
  .bind ((apiRequest_strict _ _).mono (by simp)).uses fun _ =>
  (shutdownAndDestroy_uses _ _).mono (by simp)

theorem destroyVm_uses (E : Env) (id : String) :
    Uses [.pidFile, .signal, .remove, .task] (destroyVm E id) := by
  refine .bind (.host rfl) fun r => ?_
  cases r with
  | some pid => exact (shutdownAndDestroy_uses _ _).mono (by simp)
  | none => exact .host rfl

theorem release_uses (E : Env) (id : String) :
    Uses [.active, .counter, .pidFile, .signal, .remove, .task] (release E id) := by
  refine .bind (.pool rfl) fun r => ?_
  cases r with
  | some vm => exact .bind (.pool rfl) fun _ => (destroyVm_uses E id).mono (by simp)
  | none => exact (destroyVm_uses E id).mono (by simp)

theorem registerActive_uses (vm : PoolVm) : Uses [.counter, .active] (registerActive vm) :=
  .bind (.pool rfl) fun _ => .pool rfl

theorem restoreFromSnapshot_strict (key : String) (cid : ℕ) (dir : Path) :
    Strict [.cache, .file, .spawn, .pidFile, .ch] (restoreFromSnapshot key cid dir) := by
  refine ⟨List.elem_iff.mp rfl, fun r => ?_⟩
  cases r with
  | none => exact ⟨fun _ => ⟨_, rfl⟩, fun hr => (by cases hr)⟩
  | some snapDir =>
    refine ⟨fun hr => (by cases hr), fun _ => ?_⟩
    exact Strict.bind ((prepareSnapshot_strict _ _ _ _).mono (by simp)) fun _ =>
      .bind ((spawnCh_strict _).mono (by simp)) fun _ =>
      .bind ((waitChReady_strict _).mono (by simp)) fun _ =>
      .bind ((apiRequest_strict _ _).mono (by simp)) fun _ =>
      .bind ((apiRequest_strict _ _).mono (by simp)) fun _ => .pure _

theorem triggerShadow_uses (key erofs : String) : Uses [.cache, .task] (triggerShadow key erofs) :=
  .bind (.snap rfl) fun _ => .ite (.pure _) (.bind (.snap rfl) fun _ => .ite (.pure _)
    (.bind (.tell rfl) fun _ => .snap rfl))

theorem shadowFor_uses (req : AcquireRequest) : Uses [.cache, .task] (shadowFor req) :=
  .ite (triggerShadow_uses _ _) (.pure _)

theorem warmNetwork_uses (req : AcquireRequest) (id : String) (api vsock : Path) :
    Uses [.panic, .link, .registry, .agent, .configure] (warmNetwork req id api vsock) := by
  refine .ite (.bind (.attempt ((setupVmNetworking_strict _ _ _).mono (by simp)).uses) fun r => ?_)
    (.pure _)
  rcases r with e | ⟨tap, info⟩
  · exact .pure _
  · refine .bind (.attempt ((connectAgent_strict _).mono (by simp)).uses) fun r => ?_
    cases r with
    | error e => exact .pure _
    | ok agent =>
      exact .bind (.tell rfl) fun _ =>
        .bind (.attempt ((configureGuestNetwork_strict _ _ _).mono (by simp)).uses) fun _ => .pure _

theorem hasWarmSnapshot_uses (req : AcquireRequest) : Uses [.cache] (hasWarmSnapshot req) :=
  .ite (.bind (.snap rfl) fun _ => .pure _) (.pure _)

theorem acquireContainer_strict (E : Env) (req : AcquireRequest) (vm : PoolVm) :
    Strict [.panic, .link, .disk, .registry, .agent, .configure, .container] (acquireContainer E req vm) :=
  .ite (runContainerInVm_strict E _) (.pure _)

theorem acquire_uses (E : Env) :
    Uses [.pop, .active, .counter, .file, .spawn, .pidFile, .ch, .agent] (acquire E) := by
  refine .bind (.pool rfl) fun r => ?_
  cases r with
  | some vm => exact .bind ((registerActive_uses vm).mono (by simp)) fun _ => .pure _
  | none =>
    exact .bind ((restoreOne_strict E).uses.mono (by simp)) fun _ =>
      .bind ((registerActive_uses _).mono (by simp)) fun _ => .pure _

/-- What a request does: everything but pushing to the ready list and listening. -/
def requestKinds : List Kind :=
  [.ready, .pop, .active, .lookup, .counter, .cache, .registry, .file, .remove, .pidFile, .spawn, .signal,
    .ch, .disk, .link, .agent, .configure, .container, .task, .panic, .reply]

/-- What the warm path does. -/
def warmKinds : List Kind :=
  [.active, .counter, .cache, .registry, .file, .pidFile, .spawn, .ch, .link, .agent, .configure, .panic]

theorem acquireWarm_uses (E : Env) (req : AcquireRequest) : Uses warmKinds (acquireWarm E req) := by
  refine .bind (.tell rfl) fun _ =>
    .bind (.attempt ((createDirAll_strict _).uses.mono (by simp [warmKinds]))) fun r => ?_
  cases r with
  | error e => exact .pure _
  | ok u =>
    refine .bind (.pool rfl) fun _ =>
      .bind (.attempt ((restoreFromSnapshot_strict _ _ _).uses.mono (by simp [warmKinds]))) fun r => ?_
    rcases r with e | ⟨pid, api, vsock⟩
    · exact .pure _
    · refine .bind ((warmNetwork_uses req _ api vsock).mono (by simp [warmKinds])) fun r => ?_
      cases r with
      | error msg => exact .pure _
      | ok tap =>
        exact .bind ((registerActive_uses _).mono (by simp [warmKinds])) fun _ => .pure _

theorem acquirePool_uses (E : Env) (req : AcquireRequest) : Uses requestKinds (acquirePool E req) := by
  refine .bind (.attempt ((acquire_uses E).mono (by simp [requestKinds]))) fun r => ?_
  cases r with
  | error e => exact .pure _
  | ok vm =>
    refine .bind (.tell rfl) fun _ =>
      .bind ((shadowFor_uses req).mono (by simp [requestKinds])) fun _ =>
      .bind (.attempt ((acquireContainer_strict E req vm).uses.mono (by simp [requestKinds]))) fun r => ?_
    rcases r with e | ⟨pid, tap⟩
    · exact .pure _
    · exact .pure _

theorem handleAcquire_uses (E : Env) (req : AcquireRequest) : Uses requestKinds (handleAcquire E req) := by
  refine .bind ((hasWarmSnapshot_uses req).mono (by simp [requestKinds])) fun b => .ite ?_
    (acquirePool_uses E req)
  refine .bind ((acquireWarm_uses E req).mono (by simp [warmKinds, requestKinds])) fun r => ?_
  cases r with
  | some r => exact .pure _
  | none => exact acquirePool_uses E req

theorem handleRelease_uses (E : Env) (id : String) :
    Uses [.registry, .active, .counter, .pidFile, .signal, .remove, .task] (handleRelease E id) := by
  refine .ite (.pure _) (.bind (.tell rfl) fun _ =>
    .bind (.attempt ((release_uses E id).mono (by simp))) fun r => ?_)
  cases r <;> exact .pure _

/-- What a request does that neither acquires nor releases a VM. -/
def callKinds : List Kind :=
  [.ready, .lookup, .counter, .cache, .registry, .disk, .agent, .configure, .container, .panic]

theorem handleAddContainer_uses (E : Env) (req : AddRequest) : Uses callKinds (handleAddContainer E req) := by
  refine .ite (.pure _) (.bind (.pool rfl) fun r => ?_)
  cases r with
  | none => exact .pure _
  | some vm =>
    -- without a namespace there is no network to set up
    have hrun := runContainerInVm_of_network (E := E) (p := ⟨vm.apiSocket, vm.vsockSocket, req.vmId, "",
      req.erofsPath, req.containerId, req.configJson⟩) (.pure _) (List.Subset.refl _)
    refine .bind (.attempt (hrun.uses.mono (by simp [callKinds]))) fun r => ?_
    rcases r with e | ⟨pid, tap⟩
    · exact .pure _
    · exact .pure _

/-- What a request does that only looks at tables and calls an agent. -/
def pollKinds : List Kind := [.ready, .counter, .cache, .registry, .agent]

/-- A request that neither acquires nor releases a VM nor adds a container: its handler, and what the handler uses. -/
theorem handle_poll (E : Env) (r : Request) :
    (∃ req, r = .acquireSandbox req) ∨ (∃ id, r = .releaseSandbox id) ∨ (∃ req, r = .addContainer req) ∨
      ∃ m : M Plain, Uses pollKinds m ∧ r.handle E = do return .plain (← m) := by
  cases r with
  | acquireSandbox req => exact .inl ⟨req, rfl⟩
  | releaseSandbox id => exact .inr (.inl ⟨id, rfl⟩)
  | addContainer req => exact .inr (.inr (.inl ⟨req, rfl⟩))
  | killContainer vm ctr sig =>
    refine .inr (.inr (.inr ⟨_, Uses.bind (.tell rfl) fun r => ?_, rfl⟩))
    cases r with
    | none => exact .pure _
    | some agent =>
      refine .bind (.host rfl) fun r => ?_
      cases r <;> exact .pure _
  | waitContainer vm ctr =>
    refine .inr (.inr (.inr ⟨_, Uses.bind (.tell rfl) fun r => ?_, rfl⟩))
    cases r with
    | none => exact .pure _
    | some agent =>
      refine .bind (.host rfl) fun r => ?_
      cases r <;> exact .pure _
  | deleteContainer vm ctr =>
    refine .inr (.inr (.inr ⟨_, Uses.bind (.tell rfl) fun r => ?_, rfl⟩))
    cases r with
    | none => exact .pure _
    | some agent => exact .bind (.host rfl) fun _ => .pure _
  | status =>
    exact .inr (.inr (.inr ⟨_, .bind (.pool rfl) fun _ => .bind (.pool rfl) fun _ => .bind (.snap rfl) fun _ =>
      .bind (.snap rfl) fun _ => .pure _, rfl⟩))
  | unknown m => exact .inr (.inr (.inr ⟨pure (.error ("unknown method: " ++ m)), .pure _, rfl⟩))

/-- A request that neither acquires nor releases a VM: its handler, and what the handler uses. -/
theorem handle_call (E : Env) (r : Request) :
    (∃ req, r = .acquireSandbox req) ∨ (∃ id, r = .releaseSandbox id) ∨
      ∃ m : M Plain, Uses callKinds m ∧ r.handle E = do return .plain (← m) := by
  rcases handle_poll E r with hacq | hrel | ⟨req, rfl⟩ | ⟨m, hm, he⟩
  · exact .inl hacq
  · exact .inr (.inl hrel)
  · exact .inr (.inr ⟨_, handleAddContainer_uses E req, rfl⟩)
  · exact .inr (.inr ⟨m, hm.mono (by simp [pollKinds, callKinds]), he⟩)

theorem handle_uses (E : Env) (r : Request) : Uses requestKinds (r.handle E) := by
  rcases handle_call E r with ⟨req, rfl⟩ | ⟨id, rfl⟩ | ⟨m, hm, he⟩
  · exact handleAcquire_uses E req
  · exact .bind ((handleRelease_uses E id).mono (by simp [requestKinds])) fun _ => .pure _
  · rw [he]
    exact .bind (hm.mono (by simp [callKinds, requestKinds])) fun _ => .pure _

theorem serve_uses (E : Env) (r : Request) : Uses requestKinds (serve E r) :=
  .bind (handle_uses E r) fun _ => .tell rfl

/-- What a shadow run does: no request's network, and nothing of the registry. -/
def shadowKinds : List Kind :=
  [.pop, .active, .counter, .cache, .file, .remove, .pidFile, .spawn, .signal, .ch, .disk, .agent, .container,
    .task]

theorem shadowTask_uses (E : Env) (key erofs : String) : Uses shadowKinds (shadowTask E key erofs) := by
  refine .bind (.attempt ?_) fun _ => .snap rfl
  exact .bind ((createDirAll_strict _).uses.mono (by simp [shadowKinds])) fun _ =>
    .bind (.context ((acquire_uses E).mono (by simp [shadowKinds]))) fun _ =>
    .bind (.context (.ask (Uses.onHost rfl))) fun _ =>
    .bind ((connectAgent_strict _).uses.mono (by simp [shadowKinds])) fun _ =>
    .bind ((runContainerRpc_strict _ _ _).uses.mono (by simp [shadowKinds])) fun _ =>
    .bind (.tell rfl) fun _ => .bind ((createDirAll_strict _).uses.mono (by simp [shadowKinds])) fun _ =>
    .bind ((apiRequest_strict _ _).uses.mono (by simp [shadowKinds])) fun _ =>
    .bind ((apiRequest_strict _ _).uses.mono (by simp [shadowKinds])) fun _ =>
    .bind (.ask (Uses.onHost rfl)) fun _ => .bind (.host rfl) fun _ => .bind (.snap rfl) fun _ =>
    (release_uses E _).mono (by simp [shadowKinds])

/-- What the main task and the replenish tasks do: they fill the ready list. -/
def fillKinds : List Kind :=
  [.ready, .push, .counter, .file, .remove, .pidFile, .spawn, .signal, .ch, .agent, .task, .listen]

theorem fillPool_uses (E : Env) : ∀ k, Uses fillKinds (fillPool E k)
  | 0 => .pure _
  | k + 1 => by
    refine .bind (.attempt ((restoreOne_strict E).uses.mono (by simp [fillKinds]))) fun r => ?_
    cases r with
    | ok vm => exact .bind (.pool rfl) fun _ => fillPool_uses E k
    | error e => exact fillPool_uses E k

theorem mainTask_uses (E : Env) : Uses fillKinds (mainTask E) := by
  refine .bind (.bind (.host rfl) fun b => .ite (fillPool_uses E _) ?_) fun _ =>
    .ask ⟨List.elem_iff.mp rfl, fun _ => trivial⟩
  exact .bind ((createBaseSnapshot_uses E _).mono (by simp [fillKinds])) fun _ => fillPool_uses E _

theorem replenishTask_uses (E : Env) : Uses fillKinds (replenishTask E) := by
  refine .bind (.tell rfl) fun _ => .bind (.pool rfl) fun n => .ite (.pure _)
    (.bind (.attempt ((restoreOne_strict E).uses.mono (by simp [fillKinds]))) fun r => ?_)
  cases r with
  | ok vm => exact .pool rfl
  | error e => exact .pure _

end CloudHv.Daemon
