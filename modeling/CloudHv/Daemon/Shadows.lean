import CloudHv.Daemon.Parts
import CloudHv.Daemon.Names

/-!
# Shadows — shadow tasks and the keys of `active_shadows`

`trigger_shadow` looks for the image key in `active_shadows`, spawns the task, and only then enters the
key; the task removes it at its end.  Two triggers that overlap can both spawn, and a task that is over
before its key is entered leaves the key behind.
-/

namespace CloudHv.Daemon

open Conc

/-! ### What a task knows of a shadow -/

inductive Trigger where
  | idle
  /-- The key was not there, and the task is not spawned yet. -/
  | checked (key : String)
  /-- The task is spawned, and the key not entered yet. -/
  | spawned (key : String)
  deriving DecidableEq

/-- `running`: the key of a shadow task, until the task removes it. -/
structure Shade where
  running : Option String
  stage : Trigger
  deriving DecidableEq

namespace Shade

def init : Task → Shade
  | .shadow key _ => ⟨some key, .idle⟩
  | _ => ⟨none, .idle⟩

def upd (g : Shade) : (a : Action) → Answer a → Shade
  | .snap (.shadowsContains key), r => if r then g else ⟨g.running, .checked key⟩
  | .spawnShadow key _, _ => ⟨g.running, .spawned key⟩
  | .snap (.shadowsInsert _), _ => ⟨g.running, .idle⟩
  | .snap (.shadowsRemove _), _ => ⟨none, g.stage⟩
  | _, _ => g

def req (g : Shade) : Action → Prop
  | .snap (.shadowsContains _) => g.stage = .idle
  | .spawnShadow key _ => g.stage = .checked key
  | .snap (.shadowsInsert key) => g.stage = .spawned key
  | .snap (.shadowsRemove key) => g.running = some key
  | _ => True

/-- The key that the task is about to enter. -/
def triggering (g : Shade) : Option String :=
  match g.stage with
  | .idle => none
  | .checked key | .spawned key => some key

end Shade

def shading : Discipline Action Answer Shade := ⟨Shade.upd, Shade.req, fun _ _ _ => True⟩

def shade (t : Thread Action Answer Task) : Shade := System.ghost shading Shade.init t

/-- The key that a trigger has not found. -/
def missed : (a : Action) → Answer a → Option String
  | .snap (.shadowsContains key), r => if r then none else some key
  | _, _ => none

/-- A trigger that does not find the key finds no other trigger on its way to enter it. -/
def checksApart (x : DaemonConf) : Event Action Answer Task → Bool
  | .act i a r => match missed a r with
    | some key => x.threads.zipIdx.all fun (u, j) => decide (j = i ∨ (shade u).triggering ≠ some key)
    | none => true
  | _ => true

/-- The tasks for a key, and the triggers that have still to spawn one or to enter the key. -/
def running (gs : List Shade) (key : String) : ℕ := gs.countP fun g => decide (g.running = some key)

def spawning (gs : List Shade) (key : String) : ℕ := gs.countP fun g => decide (g.stage = .checked key)

def entering (gs : List Shade) (key : String) : ℕ := gs.countP fun g => decide (g.stage = .spawned key)

/-- A shadow task removes its key when no trigger is about to enter it, or another task for it runs. -/
def endsEntered (x : DaemonConf) : Event Action Answer Task → Bool
  | .act _ (.snap (.shadowsRemove key)) _ =>
    decide (entering (x.threads.map shade) key = 0 ∨ 2 ≤ running (x.threads.map shade) key)
  | _ => true

/-! ### Code that does not panic -/

section Sober

variable {α β ε γ : Type}

def SoberP : P (Except Fail α) → Prop
  | .ret (.error .panic) => False
  | .ret _ => True
  | .act _ k => ∀ r, SoberP (k r)

/-- The code never ends in a panic. -/
def Sober (m : M α) : Prop := SoberP m.run

namespace Sober

theorem pure (x : α) : Sober (pure x : M α) := trivial

theorem tell (a : Action) : Sober (tell a) := fun _ => trivial

theorem ask {a : Action} {res : Answer a → Except ε α} {wrap : ε → Agent.Err} :
    Sober (ask (Prog.act a fun r => .ret (res r)) wrap) := by
  intro r
  show SoberP (Prog.bind (.ret (res r)) _)
  cases res r <;> trivial

theorem bind {m : M α} {f : α → M β} (hm : Sober m) (hf : ∀ x, Sober (f x)) : Sober (m >>= f) := by
  unfold Sober at *
  rw [ExceptT.run_bind]
  generalize m.run = p at hm
  induction p with
  | ret r =>
    rcases r with e | x
    · cases e with
      | err e => trivial
      | panic => exact hm.elim
    · exact hf x
  | act a k ih => exact fun r => ih r (hm r)

theorem context {m : M α} {ctx : String} (h : Sober m) : Sober (context m ctx) := by
  unfold Sober Daemon.context at *
  rw [ExceptT.run_mk]
  generalize m.run = p at h
  induction p with
  | ret r =>
    rcases r with e | x
    · cases e with
      | err e => trivial
      | panic => exact h.elim
    · trivial
  | act a k ih => exact fun r => ih r (h r)

theorem ite {c : Prop} [Decidable c] {m m' : M α} (h : Sober m) (h' : Sober m') :
    Sober (if c then m else m') := by
  split
  · exact h
  · exact h'

/-- Nothing has to be shown for a panic. -/
theorem wpx {D : Discipline Action Answer γ} {m : M α} {Q : α → γ → Prop} {F F' : Fail → γ → Prop} {g : γ}
    (hs : Sober m) (h : wpx D m Q F g) (hF : ∀ e g', F (.err e) g' → F' (.err e) g') : wpx D m Q F' g := by
  unfold Sober at hs
  unfold Conc.wpx semx at *
  generalize m.run = p at hs h
  induction p generalizing g with
  | ret r =>
    rcases r with e | x
    · cases e with
      | err e => exact hF e g h
      | panic => exact hs.elim
    · exact h
  | act a k ih => exact ⟨h.1, fun r hr => ih r (hs r) (h.2 r hr)⟩

end Sober

variable {E : Env}

theorem spawnCh_sober (dir : Path) : Sober (spawnCh dir) := .bind .ask fun _ => .bind .ask fun _ => .pure _

theorem waitChReady_sober (sock : Path) : Sober (waitChReady sock) := .bind (.tell _) fun _ => .ite (.pure _) trivial

theorem waitForAgent_sober (vsock : Path) : Sober (waitForAgent vsock) :=
  .bind (.tell _) fun _ => .ite (.pure _) trivial

theorem restoreOne_sober : Sober (restoreOne E) :=
  .bind (.tell _) fun _ => .bind (.tell _) fun _ => .bind .ask fun _ => .bind .ask fun _ =>
  .bind (spawnCh_sober _) fun _ => .bind (waitChReady_sober _) fun _ => .bind .ask fun _ => .bind .ask fun _ =>
  .bind (.context (waitForAgent_sober _)) fun _ => .pure _

theorem acquire_sober : Sober (acquire E) := by
  have hregister : ∀ vm, Sober (registerActive vm) := fun vm => .bind (.tell _) fun _ => .tell _
  refine .bind (.tell _) fun r => ?_
  cases r with
  | some vm => exact .bind (hregister vm) fun _ => .pure _
  | none => exact .bind restoreOne_sober fun vm => .bind (hregister vm) fun _ => .pure _

theorem release_sober (id : String) : Sober (release E id) := by
  have hdestroy : Sober (destroyVm E id) := by
    refine .bind (.tell _) fun r => ?_
    cases r with
    | some pid =>
      exact .bind (.tell _) fun _ => .bind (.tell _) fun _ => .ite (.tell _)
        (.bind (.tell _) fun _ => .bind (.tell _) fun _ => .tell _)
    | none => exact .tell _
  refine .bind (.tell _) fun r => ?_
  cases r with
  | some vm => exact .bind (.tell _) fun _ => hdestroy
  | none => exact hdestroy

theorem runShadow_sober (key erofs : String) : Sober (runShadow E key erofs) :=
  .bind .ask fun _ => .bind (.context acquire_sober) fun _ => .bind (.context .ask) fun _ => .bind .ask fun _ =>
  .bind .ask fun _ => .bind (.tell _) fun _ => .bind .ask fun _ => .bind .ask fun _ => .bind .ask fun _ =>
  .bind .ask fun _ => .bind (.tell _) fun _ => .bind (.tell _) fun _ => release_sober _

end Sober

/-! ### The tasks -/

section Tasks

variable {E : Env}

/-- The task is at no shadow, but for the one it is. -/
def Shade.calm (o : Option String) (g : Shade) : Prop := g = ⟨o, .idle⟩

theorem shading_other {o : Option String} {a : Action} (h : ∀ b, a ≠ .snap b) (hs : ∀ key erofs, a ≠ .spawnShadow key erofs) :
    Keeps shading (Shade.calm o) (tell a) := by
  refine .tell fun g hg => ?_
  cases a with
  | snap b => exact absurd rfl (h b)
  | spawnShadow key erofs => exact absurd rfl (hs key erofs)
  | _ => exact ⟨trivial, fun _ _ => hg⟩

theorem shading_plain {o : Option String} (a : Action) (ha : a.inner = false) :
    Keeps shading (Shade.calm o) (tell a) := by
  refine .tell fun g hg => ?_
  cases a with
  | snap b => cases b <;> first | exact ⟨trivial, fun _ _ => hg⟩ | cases ha
  | spawnShadow key erofs => cases ha
  | _ => exact ⟨trivial, fun _ _ => hg⟩

theorem triggerShadow_shading {o : Option String} (key erofs : String) :
    Keeps shading (Shade.calm o) (triggerShadow key erofs) := by
  intro g hg
  obtain rfl : g = ⟨o, .idle⟩ := hg
  unfold triggerShadow
  rw [wpx_bind, wpx_snap]
  refine ⟨trivial, fun b _ => ?_⟩
  split
  · exact rfl
  · rw [wpx_bind, wpx_snap]
    refine ⟨rfl, fun r _ => ?_⟩
    cases r with
    | true => exact rfl
    | false =>
      refine (wpx_bind (m := tell (.spawnShadow key erofs))).mpr (wpx_tell.mpr ⟨rfl, fun _ _ => ?_⟩)
      exact wpx_snap.mpr ⟨rfl, fun _ _ => rfl⟩

theorem shading_parts (o : Option String) : Parts shading (Shade.calm o) E := by
  have hother : ∀ a : Action, (∀ b, a ≠ .snap b) → (∀ key erofs, a ≠ .spawnShadow key erofs) →
      Keeps shading (Shade.calm o) (tell a) := fun _ => shading_other
  refine parts_of_actions shading_plain (restore_keeps shading_plain (hother _ (by simp) (by simp))) (fun vm => ?_)
    (fun id => ?_) triggerShadow_shading (fun key dir mtime => .tell fun g hg => ⟨trivial, fun _ _ => hg⟩)
  · exact .bind (hother _ (by simp) (by simp)) fun _ => hother _ (by simp) (by simp)
  · refine .bind (hother _ (by simp) (by simp)) fun r => ?_
    cases r with
    | some vm => exact .bind (hother _ (by simp) (by simp)) fun _ => destroy_keeps shading_plain id
    | none => exact destroy_keeps shading_plain id

theorem body_shading (t : Task) : wp shading (t.body E) (fun _ g => g.calm none) (Shade.init t) := by
  by_cases ht : ∃ key erofs, t = .shadow key erofs
  · obtain ⟨key, erofs, rfl⟩ := ht
    refine wp_toTask ?_
    unfold shadowTask
    rw [wpx_bind, wpx_attempt]
    have hrun := (shading_parts (E := E) (some key)).shadow key erofs ⟨some key, .idle⟩ rfl
    have hend : ∀ g : Shade, g.calm (some key) → wpx shading (snap (.shadowsRemove key)) (fun _ g => g.calm none)
        (fun _ g => g.calm none) g := by
      rintro g rfl
      exact wpx_snap.mpr ⟨rfl, fun _ _ => rfl⟩
    refine (runShadow_sober key erofs).wpx (F := fun _ g => wpx shading (snap (.shadowsRemove key))
      (fun _ g => g.calm none) (fun _ g => g.calm none) g) ?_ fun _ _ h => h
    exact wpx_mono hrun (fun _ g hg => hend g hg) fun _ g hg => hend g hg
  · have hne : ∀ key erofs, t ≠ .shadow key erofs := fun key erofs he => ht ⟨key, erofs, he⟩
    have hinit : Shade.init t = ⟨none, .idle⟩ := by
      cases t with
      | shadow key erofs => exact absurd rfl (hne key erofs)
      | _ => rfl
    rw [hinit]
    exact (shading_parts none).body_ne hne rfl

end Tasks

/-! ### One step -/

section Step

variable {E : Env} {w w' : World} {gs : List Shade} {i : ℕ} {g : Shade} {c : Choice}

/-- The key table after a step. -/
def shadowsAfter (s : Finset String) : Action → Finset String
  | .snap (.shadowsInsert key) => insert key s
  | .snap (.shadowsRemove key) => s.erase key
  | _ => s

theorem shadows_step {a : Action} {r : Answer a} (hp : perform E w a c = some (r, w')) :
    w'.snapshots.activeShadows = shadowsAfter w.snapshots.activeShadows a := by
  cases a with
  | pool b =>
    obtain ⟨-, rfl⟩ := perform_pool hp
    cases b <;> rfl
  | host b =>
    obtain ⟨h', -, rfl⟩ := perform_host hp
    rfl
  | bindSocket => rcases perform_bind hp with rfl | rfl <;> rfl
  | reply resp =>
    obtain ⟨rfl, rfl⟩ := Prod.mk.inj (Option.some.inj hp)
    cases resp <;> rfl
  | snap b =>
    obtain ⟨s, dirs, hs, rfl⟩ := perform_snap hp
    have hfst : ∀ {β : Type} {q q' : β} {s' : Snapshots} {ds : List Path},
        some (q, s', ds) = some (q', s, dirs) → s = s' := fun he => (congrArg (·.2.1) (Option.some.inj he)).symm
    cases b with
    | hasSnapshot key erofs =>
      simp only [Snapshots.perform] at hs
      split at hs
      · rw [hfst hs]; rfl
      · split at hs <;> (rw [hfst hs]; rfl)
    | getSnapshotDir key =>
      simp only [Snapshots.perform] at hs
      split at hs <;> (rw [hfst hs]; rfl)
    | cacheSnapshot key dir mtime =>
      simp only [Snapshots.perform] at hs
      split at hs
      · cases hs
      · rw [hfst hs]; rfl
    | _ => rw [hfst hs]; rfl
  | _ =>
    obtain ⟨rfl, rfl⟩ := Prod.mk.inj (Option.some.inj hp)
    rfl

theorem contains_answer {key : String} {r : Bool}
    (hp : perform E w (.snap (.shadowsContains key)) c = some (r, w')) :
    r = decide (key ∈ w.snapshots.activeShadows) := by
  obtain ⟨s, dirs, hs, -⟩ := perform_snap hp
  exact (congrArg (·.1) (Option.some.inj hs)).symm

/-- The counts after task `i` has changed and tasks have been spawned. -/
theorem counts_step (hi : gs[i]? = some g) (g' : Shade) (key : String) :
    running (gs.set i g') key + (if g.running = some key then 1 else 0) =
        running gs key + (if g'.running = some key then 1 else 0) ∧
      spawning (gs.set i g') key + (if g.stage = .checked key then 1 else 0) =
        spawning gs key + (if g'.stage = .checked key then 1 else 0) ∧
      entering (gs.set i g') key + (if g.stage = .spawned key then 1 else 0) =
        entering gs key + (if g'.stage = .spawned key then 1 else 0) := by
  have h1 := countP_set (fun g : Shade => decide (g.running = some key)) hi g'
  have h2 := countP_set (fun g : Shade => decide (g.stage = .checked key)) hi g'
  have h3 := countP_set (fun g : Shade => decide (g.stage = .spawned key)) hi g'
  simp only [decide_eq_true_eq] at h1 h2 h3
  exact ⟨h1, h2, h3⟩

theorem counts_concat (gs : List Shade) (t : Task) (key : String) :
    running (gs ++ [Shade.init t]) key = running gs key + (if (Shade.init t).running = some key then 1 else 0) ∧
      spawning (gs ++ [Shade.init t]) key = spawning gs key ∧ entering (gs ++ [Shade.init t]) key = entering gs key := by
  have hidle : (Shade.init t).stage = .idle := by
    cases t <;> rfl
  unfold running spawning entering
  simp [List.countP_append, List.countP_cons, hidle]

/-- What a step of task `i` does, as far as shadows are concerned. -/
theorem shade_cases (hi : gs[i]? = some g) {a : Action} {r : Answer a} (hreq : shading.req g a)
    (hp : perform E w a c = some (r, w')) :
    (∃ key, missed a r = some key ∧ g.stage = .idle ∧ key ∉ w.snapshots.activeShadows ∧
      w'.snapshots.activeShadows = w.snapshots.activeShadows ∧
      gs.set i (shading.upd g a r) ++ (spawned a r).map Shade.init = gs.set i ⟨g.running, .checked key⟩) ∨
    (∃ key erofs, g.stage = .checked key ∧ w'.snapshots.activeShadows = w.snapshots.activeShadows ∧
      gs.set i (shading.upd g a r) ++ (spawned a r).map Shade.init =
        gs.set i ⟨g.running, .spawned key⟩ ++ [Shade.init (.shadow key erofs)]) ∨
    (∃ key, g.stage = .spawned key ∧ w'.snapshots.activeShadows = insert key w.snapshots.activeShadows ∧
      gs.set i (shading.upd g a r) ++ (spawned a r).map Shade.init = gs.set i ⟨g.running, .idle⟩) ∨
    (∃ key, a = .snap (.shadowsRemove key) ∧ g.running = some key ∧
      w'.snapshots.activeShadows = w.snapshots.activeShadows.erase key ∧
      gs.set i (shading.upd g a r) ++ (spawned a r).map Shade.init = gs.set i ⟨none, g.stage⟩) ∨
    (w'.snapshots.activeShadows = w.snapshots.activeShadows ∧
      (gs.set i (shading.upd g a r) ++ (spawned a r).map Shade.init = gs ∨
        gs.set i (shading.upd g a r) ++ (spawned a r).map Shade.init = gs ++ [Shade.init .replenish])) := by
  have hs := shadows_step hp
  have hself : gs.set i g = gs := set_self hi
  have hsame : shading.upd g a r = g → (spawned a r) = [] → gs.set i (shading.upd g a r) ++
      (spawned a r).map Shade.init = gs := by
    intro hg hnew
    rw [hg, hnew, hself, List.map_nil, List.append_nil]
  cases a with
  | snap b =>
    cases b with
    | shadowsContains key =>
      have hr := contains_answer hp
      cases r with
      | true => exact .inr (.inr (.inr (.inr ⟨hs, .inl (hsame rfl rfl)⟩)))
      | false =>
        have hkey : key ∉ w.snapshots.activeShadows := of_decide_eq_false hr.symm
        exact .inl ⟨key, rfl, hreq, hkey, hs, List.append_nil _⟩
    | shadowsInsert key => exact .inr (.inr (.inl ⟨key, hreq, hs, List.append_nil _⟩))
    | shadowsRemove key => exact .inr (.inr (.inr (.inl ⟨key, rfl, hreq, hs, List.append_nil _⟩)))
    | _ => exact .inr (.inr (.inr (.inr ⟨hs, .inl (hsame rfl rfl)⟩)))
  | spawnShadow key erofs => exact .inr (.inl ⟨key, erofs, hreq, hs, rfl⟩)
  | spawnReplenish =>
    refine .inr (.inr (.inr (.inr ⟨hs, .inr ?_⟩)))
    show gs.set i g ++ [Shade.init .replenish] = _
    rw [hself]
  | _ => exact .inr (.inr (.inr (.inr ⟨hs, .inl (hsame rfl rfl)⟩)))

/-! ### One task for a key -/

/-- At most one trigger is on its way for a key; while a task for the key runs, the key is entered or about
to be; and there is at most one task. -/
structure OneInv (w : World) (gs : List Shade) : Prop where
  apart : ∀ key, spawning gs key + entering gs key ≤ 1
  covered : ∀ key, 0 < running gs key → key ∈ w.snapshots.activeShadows ∨ 0 < entering gs key
  before : ∀ key, 0 < spawning gs key → running gs key = 0
  single : ∀ key, running gs key ≤ 1

theorem OneInv.concat (hI : OneInv w gs) {t : Task} (ht : (Shade.init t).running = none) :
    OneInv w (gs ++ [Shade.init t]) := by
  have hc : ∀ key, running (gs ++ [Shade.init t]) key = running gs key ∧
      spawning (gs ++ [Shade.init t]) key = spawning gs key ∧ entering (gs ++ [Shade.init t]) key = entering gs key := by
    intro key
    obtain ⟨h1, h2, h3⟩ := counts_concat gs t key
    rw [ht, if_neg (by simp), Nat.add_zero] at h1
    exact ⟨h1, h2, h3⟩
  refine ⟨fun key => ?_, fun key => ?_, fun key => ?_, fun key => ?_⟩ <;> obtain ⟨h1, h2, h3⟩ := hc key
  · rw [h2, h3]
    exact hI.apart key
  · rw [h1, h3]
    exact hI.covered key
  · rw [h1, h2]
    exact hI.before key
  · rw [h1]
    exact hI.single key

theorem check_one (hI : OneInv w gs) (hi : gs[i]? = some g) {key : String} (hstage : g.stage = .idle)
    (hkey : key ∉ w.snapshots.activeShadows) (hw : w'.snapshots.activeShadows = w.snapshots.activeShadows)
    (hnone : spawning gs key = 0 ∧ entering gs key = 0) : OneInv w' (gs.set i ⟨g.running, .checked key⟩) := by
  have hc := fun k => counts_step hi ⟨g.running, .checked key⟩ k
  simp only [hstage, reduceCtorEq, if_false, Nat.add_zero, Trigger.checked.injEq] at hc
  -- no task runs for the key: it would be entered, or about to be
  have hrun : running gs key = 0 := by
    by_contra hne
    rcases hI.covered key (by omega) with hm | hm
    · exact hkey hm
    · omega
  refine ⟨fun k => ?_, fun k hk => ?_, fun k hk => ?_, fun k => ?_⟩ <;> obtain ⟨h1, h2, h3⟩ := hc k
  · have := hI.apart k
    by_cases he : key = k
    · subst he
      rw [if_pos rfl] at h2
      omega
    · rw [if_neg he] at h2
      omega
  · rw [hw]
    have := hI.covered k (by omega)
    rw [h3]
    exact this
  · by_cases he : key = k
    · subst he
      omega
    · rw [if_neg he] at h2
      have := hI.before k (by omega)
      omega
  · have := hI.single k
    omega

theorem spawn_one (hI : OneInv w gs) (hi : gs[i]? = some g) {key erofs : String} (hstage : g.stage = .checked key)
    (hw : w'.snapshots.activeShadows = w.snapshots.activeShadows) :
    OneInv w' (gs.set i ⟨g.running, .spawned key⟩ ++ [Shade.init (.shadow key erofs)]) := by
  have hone : 0 < spawning gs key := List.countP_pos_iff.mpr ⟨g, List.mem_of_getElem? hi, decide_eq_true hstage⟩
  have hrun := hI.before key hone
  have hc : ∀ k, running (gs.set i ⟨g.running, .spawned key⟩ ++ [Shade.init (.shadow key erofs)]) k =
        running gs k + (if key = k then 1 else 0) ∧
      spawning (gs.set i ⟨g.running, .spawned key⟩ ++ [Shade.init (.shadow key erofs)]) k + (if key = k then 1 else 0) =
        spawning gs k ∧
      entering (gs.set i ⟨g.running, .spawned key⟩ ++ [Shade.init (.shadow key erofs)]) k =
        entering gs k + (if key = k then 1 else 0) := by
    intro k
    obtain ⟨h1, h2, h3⟩ := counts_step hi ⟨g.running, .spawned key⟩ k
    obtain ⟨h4, h5, h6⟩ := counts_concat (gs.set i ⟨g.running, .spawned key⟩) (.shadow key erofs) k
    simp only [hstage, reduceCtorEq, if_false, Nat.add_zero, Trigger.checked.injEq, Trigger.spawned.injEq] at h1 h2 h3
    simp only [Shade.init, Option.some.injEq] at h4 h5 h6
    refine ⟨?_, ?_, ?_⟩
    · show running (gs.set i ⟨g.running, .spawned key⟩ ++ [⟨some key, .idle⟩]) k = _
      omega
    · show spawning (gs.set i ⟨g.running, .spawned key⟩ ++ [⟨some key, .idle⟩]) k + _ = _
      omega
    · show entering (gs.set i ⟨g.running, .spawned key⟩ ++ [⟨some key, .idle⟩]) k = _
      omega
  refine ⟨fun k => ?_, fun k hk => ?_, fun k hk => ?_, fun k => ?_⟩ <;> obtain ⟨h1, h2, h3⟩ := hc k <;>
    have ha := hI.apart k <;> have hb := hI.before k <;> have hs := hI.single k
  · split_ifs at h2 h3 <;> omega
  · by_cases he : key = k
    · rw [if_pos he] at h3
      exact .inr (by omega)
    · rw [if_neg he] at h1 h3
      rw [hw, h3]
      exact hI.covered k (by omega)
  · by_cases he : key = k
    · subst he
      rw [if_pos rfl] at h2
      omega
    · rw [if_neg he] at h1 h2
      rw [h1]
      exact hb (by omega)
  · by_cases he : key = k
    · subst he
      rw [if_pos rfl] at h1
      omega
    · rw [if_neg he] at h1
      omega

theorem enter_one (hI : OneInv w gs) (hi : gs[i]? = some g) {key : String} (hstage : g.stage = .spawned key)
    (hw : w'.snapshots.activeShadows = insert key w.snapshots.activeShadows) :
    OneInv w' (gs.set i ⟨g.running, .idle⟩) := by
  have hc := fun k => counts_step hi ⟨g.running, .idle⟩ k
  simp only [hstage, reduceCtorEq, if_false, Nat.add_zero, Trigger.spawned.injEq] at hc
  refine ⟨fun k => ?_, fun k hk => ?_, fun k hk => ?_, fun k => ?_⟩ <;> obtain ⟨h1, h2, h3⟩ := hc k
  · have := hI.apart k
    omega
  · rw [hw]
    by_cases he : key = k
    · exact .inl (he ▸ Finset.mem_insert_self key _)
    · rw [if_neg he] at h3
      refine (hI.covered k (by omega)).imp (fun hm => Finset.mem_insert_of_mem hm) fun hm => ?_
      omega
  · have := hI.before k (by omega)
    omega
  · have := hI.single k
    omega

theorem leave_one (hI : OneInv w gs) (hi : gs[i]? = some g) {key : String} (hrun : g.running = some key)
    (hw : w'.snapshots.activeShadows = w.snapshots.activeShadows.erase key) :
    OneInv w' (gs.set i ⟨none, g.stage⟩) := by
  have hc := fun k => counts_step hi ⟨none, g.stage⟩ k
  simp only [hrun, reduceCtorEq, if_false, Nat.add_zero, Option.some.injEq] at hc
  refine ⟨fun k => ?_, fun k hk => ?_, fun k hk => ?_, fun k => ?_⟩ <;> obtain ⟨h1, h2, h3⟩ := hc k <;>
    have hs := hI.single k
  · have := hI.apart k
    omega
  · by_cases he : key = k
    · -- the task was the only one for its key
      rw [if_pos he] at h1
      omega
    · rw [if_neg he] at h1
      rw [hw]
      refine (hI.covered k (by omega)).imp (fun hm => Finset.mem_erase.mpr ⟨Ne.symm he, hm⟩) fun hm => ?_
      omega
  · have := hI.before k (by omega)
    omega
  · omega

/-! ### Every entered key has a task -/

structure LiveInv (w : World) (gs : List Shade) : Prop where
  live : ∀ key ∈ w.snapshots.activeShadows, 0 < running gs key
  soon : ∀ key, 0 < entering gs key → 0 < running gs key

theorem live_step (hI : LiveInv w gs) (hi : gs[i]? = some g) {a : Action} {r : Answer a} (hreq : shading.req g a)
    (hp : perform E w a c = some (r, w'))
    (hok : ∀ key, a = .snap (.shadowsRemove key) → entering gs key = 0 ∨ 2 ≤ running gs key) :
    LiveInv w' (gs.set i (shading.upd g a r) ++ (spawned a r).map Shade.init) := by
  rcases shade_cases hi hreq hp with ⟨key, -, hstage, -, hw, he⟩ | ⟨key, erofs, hstage, hw, he⟩ |
    ⟨key, hstage, hw, he⟩ | ⟨key, ha, hrun, hw, he⟩ | ⟨hw, he⟩
  · rw [he]
    have hc := fun k => counts_step hi ⟨g.running, .checked key⟩ k
    simp only [hstage, reduceCtorEq, if_false, Nat.add_zero] at hc
    refine ⟨fun k hk => ?_, fun k hk => ?_⟩ <;> obtain ⟨h1, -, h3⟩ := hc k
    · rw [hw] at hk
      have := hI.live k hk
      omega
    · have := hI.soon k (by omega)
      omega
  · rw [he]
    have hc := fun k => counts_step hi ⟨g.running, .spawned key⟩ k
    simp only [hstage, reduceCtorEq, if_false, Nat.add_zero, Trigger.spawned.injEq] at hc
    have hc' := fun k => counts_concat (gs.set i ⟨g.running, .spawned key⟩) (.shadow key erofs) k
    simp only [Shade.init, Option.some.injEq] at hc'
    refine ⟨fun k hk => ?_, fun k hk => ?_⟩ <;> obtain ⟨h1, -, h3⟩ := hc k <;> obtain ⟨h4, -, h6⟩ := hc' k <;>
      simp only [Shade.init] at hk ⊢
    · rw [hw] at hk
      have := hI.live k hk
      omega
    · by_cases hkey : key = k
      · rw [if_pos hkey] at h4
        omega
      · rw [if_neg hkey] at h3
        have := hI.soon k (by omega)
        omega
  · rw [he]
    have hone : 0 < entering gs key := List.countP_pos_iff.mpr ⟨g, List.mem_of_getElem? hi, decide_eq_true hstage⟩
    have hc := fun k => counts_step hi ⟨g.running, .idle⟩ k
    simp only [hstage, reduceCtorEq, if_false, Nat.add_zero] at hc
    refine ⟨fun k hk => ?_, fun k hk => ?_⟩ <;> obtain ⟨h1, -, h3⟩ := hc k
    · rw [hw] at hk
      rcases Finset.mem_insert.mp hk with rfl | hk
      · have := hI.soon k hone
        omega
      · have := hI.live k hk
        omega
    · have := hI.soon k (by omega)
      omega
  · rw [he]
    have hc := fun k => counts_step hi ⟨none, g.stage⟩ k
    simp only [hrun, reduceCtorEq, if_false, Nat.add_zero, Option.some.injEq] at hc
    refine ⟨fun k hk => ?_, fun k hk => ?_⟩ <;> obtain ⟨h1, -, h3⟩ := hc k
    · rw [hw] at hk
      obtain ⟨hne, hk⟩ := Finset.mem_erase.mp hk
      rw [if_neg (Ne.symm hne)] at h1
      have := hI.live k hk
      omega
    · have hsoon := hI.soon k (by omega)
      by_cases hkey : key = k
      · subst hkey
        rw [if_pos rfl] at h1
        rcases hok key ha with h0 | h2 <;> omega
      · rw [if_neg hkey] at h1
        omega
  · have hrest : ∀ k, running (gs.set i (shading.upd g a r) ++ (spawned a r).map Shade.init) k = running gs k ∧
        entering (gs.set i (shading.upd g a r) ++ (spawned a r).map Shade.init) k = entering gs k := by
      intro k
      rcases he with he | he
      · rw [he]
        exact ⟨rfl, rfl⟩
      · rw [he]
        obtain ⟨h1, -, h3⟩ := counts_concat gs .replenish k
        rw [h1, h3]
        exact ⟨by simp [Shade.init], rfl⟩
    refine ⟨fun k hk => ?_, fun k hk => ?_⟩
    · rw [(hrest k).1]
      rw [hw] at hk
      exact hI.live k hk
    · rw [(hrest k).1]
      rw [(hrest k).2] at hk
      exact hI.soon k hk

end Step

/-! ### Runs -/

section Runs

variable {E : Env} {h : Host} {x : DaemonConf}

theorem one_step {i : ℕ} {g : Shade} {a : Action} {c : Choice} {r : Answer a} {w' : World}
    (hI : OneInv x.shared (x.threads.map shade)) (hi : (x.threads.map shade)[i]? = some g)
    (hreq : shading.req g a) (hp : perform E x.shared a c = some (r, w'))
    (hok : checksApart x (.act i a r) = true) :
    OneInv w' ((x.threads.map shade).set i (shading.upd g a r) ++ (spawned a r).map Shade.init) := by
  rcases shade_cases hi hreq hp with ⟨key, hmiss, hstage, hkey, hw, he⟩ | ⟨key, erofs, hstage, hw, he⟩ |
    ⟨key, hstage, hw, he⟩ | ⟨key, -, hrun, hw, he⟩ | ⟨hw, he⟩
  · rw [he]
    refine check_one hI hi hstage hkey hw ?_
    -- nobody is on the way to enter the key: not the task itself, and by the condition no other
    have hfree : ∀ u ∈ x.threads.map shade, u.triggering ≠ some key := by
      intro u hu
      obtain ⟨j, hj⟩ := List.getElem?_of_mem hu
      by_cases hji : j = i
      · subst hji
        obtain rfl := Option.some.inj (hi.symm.trans hj)
        simp [Shade.triggering, hstage]
      · simp only [checksApart, hmiss] at hok
        obtain ⟨t, -, rfl, hother⟩ := others_of_all (P := fun u => (shade u).triggering ≠ some key) shade hok hji hj
        exact hother
    constructor
    · refine List.countP_eq_zero.mpr fun u hu hs => hfree u hu ?_
      rw [Shade.triggering, of_decide_eq_true hs]
    · refine List.countP_eq_zero.mpr fun u hu hs => hfree u hu ?_
      rw [Shade.triggering, of_decide_eq_true hs]
  · rw [he]
    exact spawn_one hI hi hstage hw
  · rw [he]
    exact enter_one hI hi hstage hw
  · rw [he]
    exact leave_one hI hi hrun hw
  · have hsame : OneInv w' (x.threads.map shade) := by
      refine ⟨hI.apart, fun key => ?_, hI.before, hI.single⟩
      rw [hw]
      exact hI.covered key
    rcases he with he | he
    · rw [he]
      exact hsame
    · rw [he]
      exact hsame.concat rfl

theorem external_shade {w : World} {t : Task} (ht : external w t = true) : (Shade.init t).running = none := by
  cases t with
  | shadow key erofs => cases ht
  | _ => rfl

theorem one_inv (hx : (daemon E).Reach (fun x e => checksApart x e = true) (boot E h) x) :
    OneInv x.shared (x.threads.map shade) := by
  refine (System.Reach.inv OneInv (Shade.calm none) body_shading ?_ ?_ ?_ ?_ hx).1
  · exact ⟨fun _ => Nat.zero_le _, fun _ hk => absurd hk (Nat.lt_irrefl 0), fun _ hk => absurd hk (Nat.lt_irrefl 0),
      fun _ => Nat.zero_le _⟩
  · intro t ht
    obtain rfl := List.mem_singleton.mp ht
    exact body_shading .main
  · intro x t hI ht _
    exact hI.concat (external_shade ht)
  · intro x i g a c r w' hI hi hreq hp hok
    exact ⟨trivial, one_step hI hi hreq hp hok⟩

/-- A thread's task is a shadow task for the key it runs for. -/
theorem task_of_running {t : Thread Action Answer Task} {key : String} (ht : (shade t).running = some key) :
    ∃ erofs, t.task = .shadow key erofs := by
  have hfold : ∀ (l : List (Act Action Answer)) (g : Shade),
      (l.foldl (fun g e => shading.upd g e.1 e.2) g).running = some key → g.running = some key := by
    intro l
    induction l with
    | nil => exact fun g hg => hg
    | cons e l ih =>
      intro g hg
      have he := ih _ hg
      obtain ⟨a, r⟩ := e
      cases a with
      | snap b =>
        cases b with
        | shadowsContains k =>
          cases r <;> exact he
        | shadowsRemove k => cases he
        | _ => exact he
      | _ => exact he
  have hinit := hfold t.log _ ht
  cases hk : t.task with
  | shadow k erofs =>
    rw [hk] at hinit
    obtain rfl := Option.some.inj hinit
    exact ⟨erofs, rfl⟩
  | _ =>
    rw [hk] at hinit
    cases hinit

/-- Shadow tasks that have not removed their key are shadow tasks that run. -/
theorem not_done_of_running {t : Thread Action Answer Task} {key : String} (ht : (shade t).running = some key)
    (hw : wp shading t.prog (fun _ g => g.calm none) (shade t)) : t.prog.done = false := by
  cases hp : t.prog with
  | act a k => rfl
  | ret u =>
    rw [hp] at hw
    rw [show shade t = ⟨none, .idle⟩ from hw] at ht
    cases ht

/-- **One shadow at a time.**  In every run in which a trigger that does not find its key finds no other
trigger for the key between its check and its entry, at most one shadow task runs for a key.  So no two
write one snapshot directory, where the keys are plain names. -/
theorem one_shadow_for_key (hx : (daemon E).Reach (fun x e => checksApart x e = true) (boot E h) x)
    {i j : ℕ} {t u : Thread Action Answer Task} {key key' : String} (hi : x.threads[i]? = some t)
    (hj : x.threads[j]? = some u) (ht : (shade t).running = some key) (hu : (shade u).running = some key') :
    (key = key' → i = j) ∧
      (i ≠ j → PlainName key → PlainName key' → E.cfg.snapshotCacheDir.join key ≠ E.cfg.snapshotCacheDir.join key') := by
  have hsame : key = key' → i = j := by
    rintro rfl
    by_contra hij
    have hgi : (x.threads.map shade)[i]? = some (shade t) := by rw [List.getElem?_map, hi]; rfl
    have hgj : (x.threads.map shade)[j]? = some (shade u) := by rw [List.getElem?_map, hj]; rfl
    -- without the first of them there would still be one
    obtain ⟨h1, -, -⟩ := counts_step hgi ⟨none, .idle⟩ key
    have hleft : 0 < running ((x.threads.map shade).set i ⟨none, .idle⟩) key := by
      refine List.countP_pos_iff.mpr ⟨shade u, List.mem_of_getElem? (i := j) ?_, decide_eq_true hu⟩
      rw [List.getElem?_set_ne hij]
      exact hgj
    have hone := (one_inv hx).single key
    rw [if_pos ht, if_neg (by simp)] at h1
    omega
  exact ⟨hsame, fun hij hk hk' he => hij (hsame (join_plain_inj hk hk' he))⟩

theorem live_inv (hx : (daemon E).Reach (fun x e => endsEntered x e = true) (boot E h) x) :
    LiveInv x.shared (x.threads.map shade) ∧
      ∀ t ∈ x.threads, wp shading t.prog (fun _ g => g.calm none) (shade t) := by
  refine System.Reach.inv LiveInv (Shade.calm none) body_shading ?_ ?_ ?_ ?_ hx
  · exact ⟨fun _ hk => absurd hk (Finset.notMem_empty _), fun _ hk => absurd hk (Nat.lt_irrefl 0)⟩
  · intro t ht
    obtain rfl := List.mem_singleton.mp ht
    exact body_shading .main
  · intro x t hI ht _
    have hc := fun key => counts_concat (x.threads.map shade) t key
    refine ⟨fun key hk => ?_, fun key hk => ?_⟩ <;> obtain ⟨h1, -, h3⟩ := hc key
    · exact h1 ▸ Nat.lt_add_right _ (hI.live key hk)
    · exact h1 ▸ Nat.lt_add_right _ (hI.soon key (h3 ▸ hk))
  · intro x i g a c r w' hI hi hreq hp hok
    refine ⟨trivial, live_step hI hi hreq hp fun key ha => ?_⟩
    subst ha
    exact of_decide_eq_true hok

/-- What Status reports as `shadow_vms_running` is the number of entered keys. -/
theorem status_shadows (w : World) : semx (always (perform E)) handleStatus
    (fun p _ => ∃ ready active keys, p = .status ready active w.snapshots.activeShadows.card keys)
    (fun _ _ => False) w := by
  unfold handleStatus
  refine semx_bind.mpr (semx_tell.mpr fun c n w₁ hp => ?_)
  obtain ⟨-, rfl⟩ := perform_pool hp
  refine semx_bind.mpr (semx_tell.mpr fun c m w₂ hp => ?_)
  obtain ⟨-, rfl⟩ := perform_pool hp
  refine semx_bind.mpr (semx_tell.mpr fun c k w₃ hp => ?_)
  obtain ⟨s, dirs, hs, rfl⟩ := perform_snap hp
  obtain rfl : k = w.snapshots.activeShadows.card := (congrArg (·.1) (Option.some.inj hs)).symm
  refine semx_bind.mpr (semx_tell.mpr fun c keys w₄ _ => ?_)
  exact ⟨n, m, keys, rfl⟩

/-- A shadow task for the key has still something to do. -/
def ShadowRuns (x : DaemonConf) (key : String) : Prop :=
  ∃ t ∈ x.threads, (∃ erofs, t.task = .shadow key erofs) ∧ t.prog.done = false

/-- **Entered keys have a task.**  In every run in which a shadow task removes its key only when no trigger
is about to enter the key (or another task for it runs), every entered key has a running task.  So Status
reports no shadows when none runs, and a key without a running task does not stop a trigger. -/
theorem entered_keys_run (hx : (daemon E).Reach (fun x e => endsEntered x e = true) (boot E h) x) :
    (∀ key ∈ x.shared.snapshots.activeShadows, ShadowRuns x key) ∧
    ((∀ key, ¬ ShadowRuns x key) → ∀ cs p w',
      eval (perform E) handleStatus.run cs x.shared = some (.ok p, w', []) →
      ∃ ready active keys, p = .status ready active 0 keys) ∧
    ∀ key, ¬ ShadowRuns x key → ∀ c r w',
      perform E x.shared (.snap (.shadowsContains key)) c = some (r, w') → r = false := by
  obtain ⟨hI, hW⟩ := live_inv hx
  have hruns : ∀ key ∈ x.shared.snapshots.activeShadows, ShadowRuns x key := by
    intro key hkey
    obtain ⟨g, hg, hrun⟩ := List.countP_pos_iff.mp (hI.live key hkey)
    obtain ⟨t, ht, rfl⟩ := List.mem_map.mp hg
    have hrun := of_decide_eq_true hrun
    exact ⟨t, ht, task_of_running hrun, not_done_of_running hrun (hW t ht)⟩
  refine ⟨hruns, fun hnone cs p w' he => ?_, fun key hnone c r w' hp => ?_⟩
  · have hempty : x.shared.snapshots.activeShadows = ∅ :=
      Finset.eq_empty_iff_forall_notMem.mpr fun key hkey => hnone key (hruns key hkey)
    obtain ⟨ready, active, keys, rfl⟩ := sem_always (status_shadows x.shared) he
    refine ⟨ready, active, keys, ?_⟩
    rw [hempty, Finset.card_empty]
  · rw [contains_answer hp]
    exact decide_eq_false fun hkey => hnone (hruns key hkey)

end Runs

/-! ### Runs to evaluate -/

/-- A daemon with a pool of two. -/
def poolOfTwo : Env := ⟨{ poolSize := 2, rootfsPath := "/rootfs", stateDir := "/s" }, 7, fun _ => none⟩

/-- A request for a VM with an image, without a container. -/
def acquireImage : Task := .request (.acquireSandbox ⟨"", "web", "/img/web", "", ""⟩)

def filled : List (Label Choice Task) := steps 0 12 100 ++ steps 0 12 101

/-- Two requests for one image both look for its key before either has entered it. -/
def triggersCross : List (Label Choice Task) :=
  filled ++ [.arrive acquireImage, .arrive acquireImage] ++ steps 1 7 0 ++ steps 2 7 0 ++ steps 1 1 0 ++ steps 2 1 0

theorem crossed_triggers_spawn_two : ∃ x, (daemon poolOfTwo).Reach (fun _ _ => True)
    (boot poolOfTwo (Host.withBase poolOfTwo)) x ∧
    ∃ t u, x.threads[5]? = some t ∧ x.threads[6]? = some u ∧ (shade t).running = some "web" ∧
      (shade u).running = some "web" := by
  have hrun : ((daemon poolOfTwo).exec (fun _ _ => true) (boot poolOfTwo (Host.withBase poolOfTwo))
      triggersCross).any (fun x => (x.threads[5]?).any (fun t => decide ((shade t).running = some "web")) &&
        (x.threads[6]?).any (fun t => decide ((shade t).running = some "web"))) = true := by
    decide +kernel
  obtain ⟨x, hx, hP⟩ := System.exists_reach hrun
  obtain ⟨h5, h6⟩ := Bool.and_eq_true_iff.mp hP
  obtain ⟨t, ht, hrt⟩ := (Option.any_eq_true _ _).mp h5
  obtain ⟨u, hu, hru⟩ := (Option.any_eq_true _ _).mp h6
  exact ⟨x, hx.mono fun _ _ _ => trivial, t, u, ht, hu, of_decide_eq_true hrt, of_decide_eq_true hru⟩

/-- The second request comes to its check when the first has entered the key. -/
def triggersInTurn : List (Label Choice Task) :=
  filled ++ [.arrive acquireImage, .arrive acquireImage] ++ steps 1 9 0 ++ steps 2 8 0

theorem one_shadow_for_key_inTurn : ∃ x, (daemon poolOfTwo).Reach (fun x e => checksApart x e = true)
    (boot poolOfTwo (Host.withBase poolOfTwo)) x ∧ (∃ t, x.threads[4]? = some t ∧ (shade t).running = some "web") ∧
    ∀ (i : ℕ) (t : Thread Action Answer Task), x.threads[i]? = some t → (shade t).running = some "web" → i = 4 := by
  have hrun : ((daemon poolOfTwo).exec checksApart (boot poolOfTwo (Host.withBase poolOfTwo))
      triggersInTurn).any (fun x => (x.threads[4]?).any (fun t => decide ((shade t).running = some "web"))) = true := by
    decide +kernel
  obtain ⟨x, hx, hP⟩ := System.exists_reach hrun
  obtain ⟨t, ht, hrt⟩ := (Option.any_eq_true _ _).mp hP
  refine ⟨x, hx, ⟨t, ht, of_decide_eq_true hrt⟩, fun i u hu hru => ?_⟩
  exact (one_shadow_for_key hx hu ht hru (of_decide_eq_true hrt)).1 rfl

/-- A host call that fails. -/
def failing : Choice := { Choice.fine 0 with err := some ["no space left on device"] }

/-- The shadow task fails at its first step and is over before its key is entered. -/
def endsBeforeEntry : List (Label Choice Task) :=
  filled ++ [.arrive acquireImage] ++ steps 1 8 0 ++ [.sched 3 failing] ++ steps 3 1 0 ++ steps 1 2 0

theorem early_end_leaves_key : ∃ x, (daemon poolOfTwo).Reach (fun _ _ => True)
    (boot poolOfTwo (Host.withBase poolOfTwo)) x ∧ (∀ t ∈ x.threads, t.task ≠ .replenish → t.prog.done = true) ∧
    "web" ∈ x.shared.snapshots.activeShadows ∧ ¬ ShadowRuns x "web" := by
  have hrun : ((daemon poolOfTwo).exec (fun _ _ => true) (boot poolOfTwo (Host.withBase poolOfTwo))
      endsBeforeEntry).any (fun x => decide ((∀ t ∈ x.threads, t.task ≠ .replenish → t.prog.done = true) ∧
        "web" ∈ x.shared.snapshots.activeShadows)) = true := by
    decide +kernel
  obtain ⟨x, hx, hP⟩ := System.exists_reach hrun
  obtain ⟨hdone, hkey⟩ := of_decide_eq_true hP
  refine ⟨x, hx.mono fun _ _ _ => trivial, hdone, hkey, ?_⟩
  rintro ⟨t, ht, ⟨erofs, hshadow⟩, hnot⟩
  rw [hdone t ht (by rw [hshadow]; simp)] at hnot
  cases hnot

/-- The key is entered before the task fails. -/
def endsAfterEntry : List (Label Choice Task) :=
  filled ++ [.arrive acquireImage] ++ steps 1 9 0 ++ [.sched 3 failing] ++ steps 3 1 0

theorem entered_keys_run_ended : ∃ x, (daemon poolOfTwo).Reach (fun x e => endsEntered x e = true)
    (boot poolOfTwo (Host.withBase poolOfTwo)) x ∧ (∃ t ∈ x.threads, t.task = .shadow "web" "/img/web") ∧
    ¬ ShadowRuns x "web" ∧ "web" ∉ x.shared.snapshots.activeShadows := by
  have hrun : ((daemon poolOfTwo).exec endsEntered (boot poolOfTwo (Host.withBase poolOfTwo))
      endsAfterEntry).any (fun x => decide ((∃ t ∈ x.threads, t.task = .shadow "web" "/img/web") ∧
        ∀ t ∈ x.threads, t.task = acquireImage ∨ t.task = .replenish ∨ t.prog.done = true)) = true := by
    decide +kernel
  obtain ⟨x, hx, hP⟩ := System.exists_reach hrun
  obtain ⟨hshadow, hover⟩ := of_decide_eq_true hP
  have hnone : ¬ ShadowRuns x "web" := by
    rintro ⟨t, ht, ⟨erofs, htask⟩, hnot⟩
    rcases hover t ht with h | h | h
    · rw [htask] at h
      cases h
    · rw [htask] at h
      cases h
    · rw [h] at hnot
      cases hnot
  exact ⟨x, hx, hshadow, hnone, fun hkey => hnone ((entered_keys_run hx).1 "web" hkey)⟩

end CloudHv.Daemon
