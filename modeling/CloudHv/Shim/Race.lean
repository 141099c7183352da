import CloudHv.Shim.Count

/-!
# Race — the calls of a sandbox at the same time

The calls on the instances of a sandbox as a system of tasks, from the state that the start of the sandbox
leaves.  `Hand` is what a task has in hand: the record it looked up, and the VM it acquired.

A start that finds no VM acquires one and puts a new record in the place of the old one.  As long as no
other call of the sandbox takes a step meanwhile, the sandbox has one VM at most, and the VM is released
and the sandbox forgotten when all its instances have been deleted.
-/

namespace CloudHv.Shim

open Conc

/-! ### The system -/

/-- A call ends with its program, failed or not. -/
def Call.body (c : Call) : P Unit := do
  let _ ← c.run.run
  pure ()

def shim : System World Choice Action Answer Call where
  body := Call.body
  perform := perform
  spawned := fun _ _ => []
  external := fun _ _ => true

abbrev ShimConf := Conf World Action Answer Call

/-- The shim after the start of the sandbox `s`, with the fields of its record. -/
def sandboxUp (s : String) (netns cgroupsPath : Option String) (socket : String) : World :=
  ⟨Finmap.singleton s 0, [⟨0, 1, none, netns, cgroupsPath, "", socket⟩], ∅, []⟩

/-! ### What a task has in hand -/

inductive Phase where
  | idle
  /-- A start with a record and the VM id in it, after failed conversions of the image. -/
  | found (rec : ℕ) (vm : String) (tries : ℕ)
  /-- A start with a new VM, and the count it has read. -/
  | acquired (rec : ℕ) (vm : String) (count : Option ℕ)
  /-- A start whose container runs and is not counted yet. -/
  | joined (rec : ℕ)
  | added
  /-- A delete that has not lowered the count yet. -/
  | looked (rec : ℕ) (vm : String)
  /-- About to release the VM. -/
  | removing (rec : ℕ) (vm : String)
  /-- About to forget the sandbox. -/
  | released (rec : ℕ)
  | ended
  deriving DecidableEq

structure Hand where
  call : Call
  phase : Phase
  /-- The call has lowered the count. -/
  lowered : Bool

/-- The call ends the sandbox. -/
def Call.endsSandbox : Call → Bool
  | .kill i signal => decide (i.id = i.sandboxId ∧ (signal = 9 ∨ signal = 15))
  | _ => false

namespace Hand

def init (c : Call) : Hand := ⟨c, .idle, false⟩

/-- The phase after a lookup that found a record. -/
def lookedUp (g : Hand) (rec : ℕ) (vm : String) : Phase :=
  match g.call with
  | .start _ => .found rec vm 0
  | .delete _ => .looked rec vm
  | .kill _ _ => if g.call.endsSandbox then (if vm ≠ "" then .removing rec vm else .released rec) else .ended

/-- The third failed conversion is the last. -/
def retried : Phase → Phase
  | .found rec vm tries => if tries < 2 then .found rec vm (tries + 1) else .ended
  | p => p

def recOf : Phase → ℕ
  | .found r _ _ | .acquired r _ _ | .joined r | .looked r _ | .removing r _ | .released r => r
  | _ => 0

def upd (g : Hand) : (a : Action) → Answer a → Hand
  | .readSpec, r => match r with
    | .ok _ => g
    | .error _ => { g with phase := .ended }
  | .vmsGet _, r => match r with
    | some (rec, st) => { g with phase := g.lookedUp rec st.daemonVmId }
    | none => { g with phase := .ended }
  | .prepareErofs _, r => match r with
    | .ok _ => g
    | .error _ => { g with phase := retried g.phase }
  | .addContainer _ _ _ _ _, r => match r with
    | .ok _ => { g with phase := .joined (recOf g.phase) }
    | .error _ => { g with phase := .ended }
  | .acquireSandbox _ _, r => match r with
    | .ok vm => { g with phase := .acquired (recOf g.phase) vm.vmId none }
    | .error _ => { g with phase := .ended }
  | .countLoad rec, n => match g.phase with
    | .acquired _ vm _ => { g with phase := .acquired rec vm (some n) }
    | _ => g
  | .vmsInsert _ _, rec => { g with phase := .joined rec }
  | .countAdd _, _ => { g with phase := .added }
  | .countSub rec, n => match g.phase with
    | .looked _ vm => { g with phase := if n ≤ 1 then .removing rec vm else .ended, lowered := true }
    | _ => g
  | .releaseSandbox _ _, _ => { g with phase := .released (recOf g.phase) }
  | .vmsRemove _, _ => { g with phase := .ended }
  | _, _ => g

def req (s : String) (g : Hand) : Action → Prop
  | .readSpec => g.phase = .idle ∧ ∃ i, g.call = .start i
  | .vmsGet s' => s' = s ∧ g.phase = .idle
  | .prepareErofs _ => ∃ r v t, g.phase = .found r v t
  | .addContainer _ _ _ _ _ => ∃ r v t, g.phase = .found r v t ∧ v ≠ ""
  | .acquireSandbox _ _ => ∃ r t, g.phase = .found r "" t
  | .countLoad r => ∃ v, g.phase = .acquired r v none
  | .vmsInsert s' st => s' = s ∧ ∃ r, g.phase = .acquired r st.daemonVmId (some st.containerCount)
  | .countAdd r => g.phase = .joined r
  | .countSub r => ∃ v, g.phase = .looked r v
  | .releaseSandbox _ v => ∃ r, g.phase = .removing r v
  | .vmsRemove s' => s' = s ∧ ∃ r, g.phase = .released r
  | _ => True

end Hand

def handling (s : String) : Discipline Action Answer Hand := ⟨Hand.upd, Hand.req s, fun _ _ _ => True⟩

/-- The call is over. -/
def Hand.over (g : Hand) : Prop := g.phase = .added ∨ g.phase = .ended

/-! ### The calls -/

section Calls

variable {s : String} {α : Type} {g : Hand}

theorem wpx_tell {γ : Type} {D : Discipline Action Answer γ} {a : Action} {Q : Answer a → γ → Prop}
    {F : String → γ → Prop} {g : γ} :
    wpx D (tell a) Q F g ↔ D.req g a ∧ ∀ r, D.may g a r → Q r (D.upd g a r) := semx_tell

/-- The actions that leave a task's hand as it is. -/
def Action.unwatched : Action → Bool
  | .sandboxSpec _ | .loadConfig | .imageKey | .sleep _ | .readConfig | .killContainer _ _ _ _
  | .deleteContainer _ _ _ | .cleanupTap _ _ | .placeInCgroup _ _ | .spawnWatcher _ _ _ _ | .exitSet _ _ => true
  | _ => false

theorem tell_unwatched {a : Action} (ha : a.unwatched = true) {Q : Answer a → Hand → Prop}
    {F : String → Hand → Prop} (hQ : ∀ r, Q r g) : wpx (handling s) (tell a) Q F g := by
  refine wpx_tell.mpr ?_
  cases a <;> first | exact ⟨trivial, fun r _ => hQ r⟩ | cases ha

variable {F : String → Hand → Prop}

theorem cleanupTap_hand {st : SharedVmState} {Q : Unit → Hand → Prop} (hQ : Q () g) :
    wpx (handling s) (cleanupTap st) Q F g := by
  unfold cleanupTap
  split
  · exact tell_unwatched rfl fun _ => hQ
  · exact hQ

theorem placeVm_hand {st : SharedVmState} {Q : Unit → Hand → Prop} (hQ : Q () g) :
    wpx (handling s) (placeVm st) Q F g := by
  unfold placeVm
  split
  · exact wpx_bind.mpr (tell_unwatched rfl fun _ => hQ)
  · exact hQ

/-- A conversion that succeeds leaves the record in hand, three failures end the call. -/
theorem erofsImage_hand {key : String} {c : Call} {r : ℕ} {v : String} {b : Bool} {Q : String → Hand → Prop}
    (hQ : ∀ p t, Q p ⟨c, .found r v t, b⟩) (hF : ∀ e, F e ⟨c, .ended, b⟩) :
    ∀ (left attempt t : ℕ) (last : String), t + left + 1 = 3 →
      wpx (handling s) (CloudHvInstance.erofsImage key attempt (left + 1) last) Q F ⟨c, .found r v t, b⟩
  | left, attempt, t, last, ht => by
    unfold CloudHvInstance.erofsImage
    refine wpx_bind.mpr (wpx_tell.mpr ⟨⟨r, v, t, rfl⟩, fun res _ => ?_⟩)
    cases res with
    | ok path => exact hQ path t
    | error e =>
      refine wpx_bind.mpr (tell_unwatched rfl fun _ => ?_)
      cases left with
      | zero =>
        have hend : (handling s).upd ⟨c, .found r v t, b⟩ (.prepareErofs key) (.error e) = ⟨c, .ended, b⟩ := by
          show (⟨c, Hand.retried (.found r v t), b⟩ : Hand) = _
          rw [Hand.retried, if_neg (by omega)]
        rw [hend]
        exact hF _
      | succ left =>
        have hnext : (handling s).upd ⟨c, .found r v t, b⟩ (.prepareErofs key) (.error e) =
            ⟨c, .found r v (t + 1), b⟩ := by
          show (⟨c, Hand.retried (.found r v t), b⟩ : Hand) = _
          rw [Hand.retried, if_pos (by omega)]
        rw [hnext]
        exact erofsImage_hand hQ hF left (attempt + 1) (t + 1) e (by omega)

variable {i : CloudHvInstance} {c : Call} {b : Bool} {st : SharedVmState}

theorem joinVm_hand {r t : ℕ} {path : String} {config : List UInt8} {Q : ℕ × SharedVmState × ℕ → Hand → Prop}
    (hv : st.daemonVmId ≠ "") (hQ : ∀ x : ℕ × SharedVmState × ℕ, x.1 = r → Q x ⟨c, .joined r, b⟩)
    (hF : ∀ e, F e ⟨c, .ended, b⟩) :
    wpx (handling s) (i.joinVm r st path config) Q F ⟨c, .found r st.daemonVmId t, b⟩ := by
  unfold CloudHvInstance.joinVm
  refine wpx_bind.mpr (wpx_tell.mpr ⟨⟨r, _, t, rfl, hv⟩, fun res _ => ?_⟩)
  cases res with
  | ok pid => exact hQ _ rfl
  | error e => exact hF _

theorem acquireVm_hand {r t : ℕ} {key path : String} {config : List UInt8}
    {Q : ℕ × SharedVmState × ℕ → Hand → Prop} (hs : i.sandboxId = s)
    (hQ : ∀ x : ℕ × SharedVmState × ℕ, Q x ⟨c, .joined x.1, b⟩) (hF : ∀ e, F e ⟨c, .ended, b⟩) :
    wpx (handling s) (i.acquireVm r st key path config) Q F ⟨c, .found r "" t, b⟩ := by
  unfold CloudHvInstance.acquireVm
  refine wpx_bind.mpr (wpx_tell.mpr ⟨⟨r, t, rfl⟩, fun res _ => ?_⟩)
  cases res with
  | error e => exact hF _
  | ok vm =>
    refine wpx_bind.mpr ?_
    refine wpx_bind.mpr (wpx_tell.mpr ⟨⟨vm.vmId, rfl⟩, fun n _ => ?_⟩)
    refine wpx_bind.mpr (wpx_tell.mpr ⟨⟨hs, r, rfl⟩, fun r' _ => ?_⟩)
    exact wpx_bind.mpr (placeVm_hand (hQ _))

theorem startContainer_hand {Q : ℕ → Hand → Prop} (hc : c = .start i) (hs : i.sandboxId = s)
    (hQ : ∀ x, Q x ⟨c, .added, b⟩) (hF : ∀ e, F e ⟨c, .ended, b⟩) :
    wpx (handling s) i.startContainer Q F ⟨c, .idle, b⟩ := by
  subst hc
  unfold CloudHvInstance.startContainer
  refine wpx_bind.mpr (wpx_tell.mpr ⟨⟨hs, rfl⟩, fun res _ => ?_⟩)
  cases res with
  | none => exact hF _
  | some x =>
    obtain ⟨r, st⟩ := x
    show wpx (handling s) (tell .imageKey >>= _) Q F ⟨.start i, .found r st.daemonVmId 0, b⟩
    refine wpx_bind.mpr (tell_unwatched rfl fun key => ?_)
    refine wpx_bind.mpr (erofsImage_hand (fun path t => ?_) hF 2 0 0 "" rfl)
    refine wpx_bind.mpr (tell_unwatched rfl fun config => ?_)
    have hrest : ∀ x : ℕ × SharedVmState × ℕ, wpx (handling s) (do
        tell (.spawnWatcher x.2.1.daemonSocket x.2.1.daemonVmId i.id x.2.1.chPid)
        let _ ← tell (.countAdd x.1)
        pure x.2.2) Q F ⟨.start i, .joined x.1, b⟩ := fun x =>
      wpx_bind.mpr (tell_unwatched rfl fun _ => wpx_bind.mpr (wpx_tell.mpr ⟨rfl, fun _ _ => hQ _⟩))
    refine wpx_bind.mpr ?_
    unfold CloudHvInstance.vmFor
    by_cases hv : st.daemonVmId = ""
    · rw [if_neg (not_not.mpr hv), hv]
      exact acquireVm_hand hs hrest hF
    · rw [if_pos hv]
      refine joinVm_hand hv (fun x hx => ?_) hF
      rw [← hx]
      exact hrest x

theorem releaseVm_hand {r : ℕ} {Q : Unit → Hand → Prop} (hs : i.sandboxId = s)
    (hQ : Q () ⟨c, .ended, b⟩) :
    wpx (handling s) (i.releaseVm st) Q F ⟨c, .removing r st.daemonVmId, b⟩ := by
  unfold CloudHvInstance.releaseVm
  refine wpx_bind.mpr (wpx_tell.mpr ⟨⟨r, rfl⟩, fun _ _ => ?_⟩)
  refine wpx_bind.mpr (cleanupTap_hand ?_)
  exact wpx_tell.mpr ⟨⟨hs, r, rfl⟩, fun _ _ => hQ⟩

theorem kill_hand {signal : ℕ} {Q : Unit → Hand → Prop} (hs : i.sandboxId = s)
    (hQ : Q () ⟨.kill i signal, .ended, b⟩) :
    wpx (handling s) (i.kill signal) Q F ⟨.kill i signal, .idle, b⟩ := by
  unfold CloudHvInstance.kill
  refine wpx_bind.mpr (wpx_tell.mpr ⟨⟨hs, rfl⟩, fun res _ => ?_⟩)
  cases res with
  | none => exact tell_unwatched rfl fun _ => hQ
  | some x =>
    obtain ⟨r, st⟩ := x
    have hupd : (handling s).upd ⟨.kill i signal, .idle, b⟩ (.vmsGet i.sandboxId) (some (r, st)) =
        ⟨.kill i signal, if (Call.kill i signal).endsSandbox then
          (if st.daemonVmId ≠ "" then .removing r st.daemonVmId else .released r) else .ended, b⟩ := rfl
    rw [hupd]
    by_cases hk : i.id = i.sandboxId ∧ (signal = 9 ∨ signal = 15)
    · have he : (Call.kill i signal).endsSandbox = true := decide_eq_true hk
      simp only [if_pos hk, if_pos he]
      refine wpx_bind.mpr ?_
      unfold CloudHvInstance.killSandbox
      by_cases hv : st.daemonVmId = ""
      · simp only [if_neg (not_not.mpr hv)]
        refine wpx_bind.mpr (cleanupTap_hand ?_)
        exact wpx_tell.mpr ⟨⟨hs, r, rfl⟩, fun _ _ => tell_unwatched rfl fun _ => hQ⟩
      · simp only [if_pos hv]
        exact releaseVm_hand hs (tell_unwatched rfl fun _ => hQ)
    · have he : ¬ (Call.kill i signal).endsSandbox = true := fun he => hk (of_decide_eq_true he)
      simp only [if_neg hk, if_neg he]
      exact wpx_bind.mpr (tell_unwatched rfl fun _ => hQ)

theorem delete_hand {Q : Unit → Hand → Prop} (hs : i.sandboxId = s)
    (hQ : ∀ b, Q () ⟨.delete i, .ended, b⟩) : wpx (handling s) i.delete Q F ⟨.delete i, .idle, b⟩ := by
  unfold CloudHvInstance.delete
  refine wpx_bind.mpr (wpx_tell.mpr ⟨⟨hs, rfl⟩, fun res _ => ?_⟩)
  cases res with
  | none => exact tell_unwatched rfl fun _ => hQ b
  | some x =>
    obtain ⟨r, st⟩ := x
    refine wpx_bind.mpr (wpx_tell.mpr ⟨⟨_, rfl⟩, fun n _ => ?_⟩)
    have hupd : (handling s).upd ⟨.delete i, .looked r st.daemonVmId, b⟩ (.countSub r) n =
        ⟨.delete i, if n ≤ 1 then .removing r st.daemonVmId else .ended, true⟩ := rfl
    show wpx (handling s) _ Q F ((handling s).upd ⟨.delete i, .looked r st.daemonVmId, b⟩ (.countSub r) n)
    rw [hupd]
    by_cases hn : n ≤ 1
    · simp only [if_pos hn]
      exact wpx_bind.mpr (releaseVm_hand hs (tell_unwatched rfl fun _ => hQ true))
    · simp only [if_neg hn]
      exact wpx_bind.mpr (tell_unwatched rfl fun _ => tell_unwatched rfl fun _ => hQ true)

/-- Every call on an instance of the sandbox, but the start of the sandbox itself. -/
def Concurrent (s : String) (c : Call) : Prop :=
  InPod s c.instance ∧ ∀ i, c = .start i → ¬ i.isSandbox

theorem body_hand (hc : Concurrent s c) : wp (handling s) c.body (fun _ g => g.over) (Hand.init c) := by
  unfold Call.body
  refine wp_bind.mpr (wp_mono (?_ : wpx (handling s) c.run (fun _ g => g.over) (fun _ g => g.over)
    (Hand.init c)) fun r g hr => ?_)
  · have hs := hc.1.1
    cases c with
    | start i =>
      refine wpx_bind.mpr (wpx_bind.mpr (wpx_tell.mpr ⟨⟨rfl, i, rfl⟩, fun res _ => ?_⟩))
      cases res with
      | error e => exact .inr rfl
      | ok u =>
        show wpx (handling s) (if i.isSandbox then i.startSandbox else i.startContainer) _ _ _
        rw [if_neg (hc.2 i rfl)]
        exact startContainer_hand rfl hs (fun _ => .inl rfl) fun _ => .inr rfl
    | kill i signal => exact kill_hand hs (.inr rfl)
    | delete i => exact delete_hand hs fun _ => .inr rfl
  · cases r <;> exact hr

end Calls

/-! ### The invariant -/

namespace Phase

/-- A start that has found no VM, and has not put a new record in the table. -/
def acquiring : Phase → Bool
  | .found _ v _ => v = ""
  | .acquired _ _ _ => true
  | _ => false

/-- The call has no record in hand. -/
def resting : Phase → Bool
  | .idle | .added | .ended => true
  | _ => false

/-- The call is about to release the VM and forget the sandbox. -/
def leaving : Phase → Bool
  | .removing _ _ | .released _ => true
  | _ => false

end Phase

/-- What a task has in hand is of the sandbox's last record. -/
def Hand.Knows (cur : ℕ) (st : SharedVmState) (g : Hand) : Prop :=
  match g.phase with
  | .found r v _ => r = cur ∧ v = st.daemonVmId ∧ g.lowered = false ∧ ∃ i, g.call = .start i
  | .acquired r v n => r = cur ∧ st.daemonVmId = "" ∧ (∀ m, n = some m → m = st.containerCount) ∧
    v ≠ "" ∧ g.lowered = false ∧ ∃ i, g.call = .start i
  | .joined r => r = cur ∧ g.lowered = false ∧ ∃ i, g.call = .start i
  | .added => ∃ i, g.call = .start i
  | .looked r v => r = cur ∧ v = st.daemonVmId ∧ g.lowered = false ∧ ∃ i, g.call = .delete i
  | .removing r v => r = cur ∧ v = st.daemonVmId
  | .released r => r = cur
  | .idle => g.lowered = false
  | .ended => True

def addedCount (gs : List Hand) : ℕ := gs.countP fun g => decide (g.phase = .added)

def loweredCount (gs : List Hand) : ℕ := gs.countP fun g => g.lowered

def SharedVmState.withCount (st : SharedVmState) (n : ℕ) : SharedVmState := { st with containerCount := n }

theorem SharedVmState.withCount_count (st : SharedVmState) (n : ℕ) : (st.withCount n).containerCount = n := rfl

theorem two_le_usize : 2 ≤ usize := by
  rw [usize]
  exact Nat.le_of_ble_eq_true rfl

/-- No task but `i` is acquiring. -/
def Sole (gs : List Hand) (i : ℕ) : Prop :=
  ∀ (j : ℕ) (u : Hand), j ≠ i → gs[j]? = some u → u.phase.acquiring = false

/-- No task but `i` has a record in hand. -/
def OthersRest (gs : List Hand) (i : ℕ) : Prop :=
  ∀ (j : ℕ) (u : Hand), j ≠ i → gs[j]? = some u → u.phase.resting = true

/-- The state of the sandbox `s` with its last record `cur`. -/
structure Race (s : String) (w : World) (gs : List Hand) (cur : ℕ) (st : SharedVmState) : Prop where
  last : w.records.length = cur + 1
  entry : w.records[cur]? = some st
  table : w.vms.lookup s = none ∨ w.vms.lookup s = some cur
  knows : ∀ g ∈ gs, g.Knows cur st
  alone : ∀ (i : ℕ) (g : Hand), gs[i]? = some g → g.phase.acquiring = true →
    w.vms.lookup s = some cur ∧ OthersRest gs i
  held : ∀ v ∈ w.held, v ≠ "" ∧ (v = st.daemonVmId ∨ ∃ g ∈ gs, ∃ n, g.phase = .acquired cur v n)
  freed : (w.vms.lookup s = none ∨ ∃ g ∈ gs, g.phase = .released cur) → st.daemonVmId ∉ w.held
  counted : w.vms.lookup s = some cur → (∃ g ∈ gs, g.phase.leaving = true) ∨
    (loweredCount gs < 1 + addedCount gs ∧
      st.containerCount = (1 + addedCount gs - loweredCount gs) % usize)
  deletes : w.vms.lookup s = some cur → ∀ g ∈ gs, ∀ i, g.call = .delete i →
    g.phase = .idle ∨ (∃ v, g.phase = .looked cur v) ∨ g.lowered = true
  calls : ∀ g ∈ gs, Concurrent s g.call

def RaceInv (s : String) (w : World) (gs : List Hand) : Prop := ∃ cur st, Race s w gs cur st

section Step

variable {s : String} {w : World} {gs : List Hand} {cur : ℕ} {st : SharedVmState} {i : ℕ} {g g' : Hand}

/-- What is held, when no other task is acquiring. -/
theorem Race.heldBy (hR : Race s w gs cur st) (hi : gs[i]? = some g)
    (hsole : Sole gs i) {v : String}
    (hv : v ∈ w.held) : v ≠ "" ∧ (v = st.daemonVmId ∨ ∃ n, g.phase = .acquired cur v n) := by
  obtain ⟨hne, hcase⟩ := hR.held v hv
  refine ⟨hne, hcase.imp id fun ⟨u, hu, n, hn⟩ => ?_⟩
  obtain ⟨j, hj⟩ := List.getElem?_of_mem hu
  by_cases hji : j = i
  · subst hji
    obtain rfl := Option.some.inj (hi.symm.trans hj)
    exact ⟨n, hn⟩
  · have hq := hsole j u hji hj
    rw [hn] at hq
    cases hq

/-- A step of task `i` that leaves the sandbox its record, while no other task is acquiring. -/
theorem Race.set (hR : Race s w gs cur st) (hi : gs[i]? = some g)
    (hsole : Sole gs i)
    {w' : World} {st' : SharedVmState} (hcall : g'.call = g.call) (hlast : w'.records.length = cur + 1)
    (hentry : w'.records[cur]? = some st') (hvm : st'.daemonVmId = st.daemonVmId)
    (htable : w'.vms.lookup s = none ∨ w'.vms.lookup s = w.vms.lookup s) (hknows : g'.Knows cur st')
    (halone : g'.phase.acquiring = true → w'.vms.lookup s = some cur ∧ OthersRest gs i)
    (hheld : ∀ v ∈ w'.held, v ≠ "" ∧ (v = st.daemonVmId ∨ ∃ n, g'.phase = .acquired cur v n))
    (hfreed : (w'.vms.lookup s = none ∨ g'.phase = .released cur ∨ ∃ g ∈ gs, g.phase = .released cur) →
      st.daemonVmId ∉ w'.held)
    (hcounted : w'.vms.lookup s = some cur → (∃ g ∈ gs.set i g', g.phase.leaving = true) ∨
      (loweredCount (gs.set i g') < 1 + addedCount (gs.set i g') ∧
        st'.containerCount = (1 + addedCount (gs.set i g') - loweredCount (gs.set i g')) % usize))
    (hdeletes : w'.vms.lookup s = some cur → ∀ d, g'.call = .delete d →
      g'.phase = .idle ∨ (∃ v, g'.phase = .looked cur v) ∨ g'.lowered = true) :
    Race s w' (gs.set i g') cur st' := by
  have hsome : w'.vms.lookup s = some cur → w.vms.lookup s = some cur := by
    intro hs
    rcases htable with hn | he
    · rw [hn] at hs
      cases hs
    · rw [← he]
      exact hs
  refine ⟨hlast, hentry, ?_, fun u hu => ?_, fun j u hj hu => ?_, fun v hv => ?_, fun hfree => ?_, hcounted,
    fun hs u hu d hd => ?_, fun u hu => ?_⟩
  · rcases htable with hn | he
    · exact .inl hn
    · rw [he]
      exact hR.table
  · rcases mem_set_cases hu with rfl | ⟨j, hji, hj⟩
    · exact hknows
    · -- the count of the record matters to a task that is acquiring only
      have hk := hR.knows u (List.mem_of_getElem? hj)
      have hq := hsole j u hji hj
      unfold Hand.Knows at hk ⊢
      cases hp : u.phase with
      | acquired r v n =>
        rw [hp] at hq
        cases hq
      | ended => trivial
      | _ => simpa only [hp, hvm] using hk
  · rcases getElem?_set_cases hj with ⟨rfl, rfl⟩ | ⟨hji, hj'⟩
    · obtain ⟨h1, h2⟩ := halone hu
      refine ⟨h1, fun k v hk hv => ?_⟩
      rcases getElem?_set_cases hv with ⟨rfl, -⟩ | ⟨-, hv'⟩
      · exact absurd rfl hk
      · exact h2 k v hk hv'
    · rw [hsole j u hji hj'] at hu
      cases hu
  · obtain ⟨hne, hcase⟩ := hheld v hv
    refine ⟨hne, hcase.imp (fun he => he.trans hvm.symm) fun ⟨n, hn⟩ => ⟨g', mem_set_self hi, n, hn⟩⟩
  · rw [hvm]
    refine hfreed (hfree.imp id fun ⟨u, hu, hp⟩ => ?_)
    rcases mem_set_cases hu with rfl | ⟨j, hji, hj⟩
    · exact .inl hp
    · exact .inr ⟨u, List.mem_of_getElem? hj, hp⟩
  · rcases mem_set_cases hu with rfl | ⟨j, hji, hj⟩
    · exact hdeletes hs d hd
    · exact hR.deletes (hsome hs) u (List.mem_of_getElem? hj) d hd
  · rcases mem_set_cases hu with rfl | ⟨j, hji, hj⟩
    · rw [hcall]
      exact hR.calls g (List.mem_of_getElem? hi)
    · exact hR.calls u (List.mem_of_getElem? hj)

/-- The counts after a step that adds no container and lowers no count. -/
theorem counts_same (hi : gs[i]? = some g) (g' : Hand) (h1 : g.phase ≠ .added) (h2 : g'.phase ≠ .added)
    (h3 : g'.lowered = g.lowered) :
    addedCount (gs.set i g') = addedCount gs ∧ loweredCount (gs.set i g') = loweredCount gs := by
  have ha := countP_set (fun g : Hand => decide (g.phase = .added)) hi g'
  have hl := countP_set (fun g : Hand => g.lowered) hi g'
  rw [h3] at hl
  simp only [decide_eq_true_eq, if_neg h1, if_neg h2] at ha
  exact ⟨by unfold addedCount; omega, by unfold loweredCount; omega⟩

/-- The sandbox's count after such a step of a task that is not about to forget the sandbox. -/
theorem Race.counted_same (hR : Race s w gs cur st) (hi : gs[i]? = some g) (h1 : g.phase ≠ .added)
    (h2 : g'.phase ≠ .added) (h3 : g'.lowered = g.lowered) (hleave : g.phase.leaving = false)
    (hs : w.vms.lookup s = some cur) : (∃ g ∈ gs.set i g', g.phase.leaving = true) ∨
      (loweredCount (gs.set i g') < 1 + addedCount (gs.set i g') ∧
        st.containerCount = (1 + addedCount (gs.set i g') - loweredCount (gs.set i g')) % usize) := by
  obtain ⟨ha, hl⟩ := counts_same hi g' h1 h2 h3
  rw [ha, hl]
  exact (hR.counted hs).imp (fun h => exists_mem_set hi h fun hp => (by rw [hleave] at hp; cases hp)) id

/-- A step after which only the task itself knows more. -/
theorem Race.keep (hR : Race s w gs cur st) (hi : gs[i]? = some g)
    (hsole : Sole gs i)
    (hcall : g'.call = g.call) (hlow : g'.lowered = g.lowered) (hadd : g.phase ≠ .added)
    (hadd' : g'.phase ≠ .added) (hleave : g.phase.leaving = false) (hknows : g'.Knows cur st)
    (halone : g'.phase.acquiring = true → w.vms.lookup s = some cur ∧ OthersRest gs i)
    (hacq : ∀ v n, g.phase = .acquired cur v n → ∃ m, g'.phase = .acquired cur v m)
    (hfreed : g'.phase = .released cur → st.daemonVmId ∉ w.held)
    (hdeletes : w.vms.lookup s = some cur → ∀ d, g.call = .delete d →
      g'.phase = .idle ∨ (∃ v, g'.phase = .looked cur v) ∨ g'.lowered = true) : Race s w (gs.set i g') cur st := by
  refine hR.set hi hsole hcall hR.last hR.entry rfl (.inr rfl) hknows halone (fun v hv => ?_)
    (fun hfree => ?_) (hR.counted_same hi hadd hadd' hlow hleave) (fun hs d hd => hdeletes hs d ?_)
  · obtain ⟨hne, hcase⟩ := hR.heldBy hi hsole hv
    exact ⟨hne, hcase.imp id fun ⟨n, hn⟩ => hacq v n hn⟩
  · rcases hfree with hn | hrel | hother
    · exact hR.freed (.inl hn)
    · exact hfreed hrel
    · exact hR.freed (.inr hother)
  · rw [← hcall]
    exact hd

/-- A start that fails, or a call that finds no record. -/
theorem Race.quit (hR : Race s w gs cur st) (hi : gs[i]? = some g)
    (hsole : Sole gs i)
    (hphase : g.phase = .idle ∨ ∃ r v t, g.phase = .found r v t)
    (hdel : w.vms.lookup s = some cur → ∀ d, g.call ≠ .delete d) :
    Race s w (gs.set i { g with phase := .ended }) cur st := by
  have hno : g.phase ≠ .added ∧ g.phase.leaving = false ∧ ∀ r v n, g.phase ≠ .acquired r v n := by
    rcases hphase with hp | ⟨r, v, t, hp⟩ <;> rw [hp] <;> exact ⟨by simp, rfl, by simp⟩
  refine hR.keep hi hsole rfl rfl hno.1 (by simp) hno.2.1 trivial (fun h => (by cases h))
    (fun v n hn => absurd hn (hno.2.2 _ _ _)) (fun h => (by cases h)) (fun hs d hd => absurd hd (hdel hs d))

/-- The sandbox's record is the one a lookup finds. -/
theorem vmsGet_answer (hR : Race s w gs cur st) {c : Choice} {r : Option (ℕ × SharedVmState)} {w' : World}
    (hp : perform w (.vmsGet s) c = some (r, w')) :
    w' = w ∧ ((r = none ∧ w.vms.lookup s = none) ∨ (r = some (cur, st) ∧ w.vms.lookup s = some cur)) := by
  obtain ⟨rfl, rfl⟩ := Prod.mk.inj (Option.some.inj hp)
  refine ⟨rfl, ?_⟩
  rcases hR.table with hn | hs
  · rw [hn]
    exact .inl ⟨rfl, rfl⟩
  · rw [hs, Option.bind_some, hR.entry]
    exact .inr ⟨rfl, rfl⟩

theorem vmsGet_race (hR : Race s w gs cur st) (hi : gs[i]? = some g)
    (hsole : Sole gs i)
    (hidle : g.phase = .idle) (hs : w.vms.lookup s = some cur)
    (hrest : (g.lookedUp cur st.daemonVmId).acquiring = true → OthersRest gs i) :
    Race s w (gs.set i { g with phase := g.lookedUp cur st.daemonVmId }) cur st := by
  obtain ⟨call, phase, low⟩ := g
  obtain rfl : phase = .idle := hidle
  have hlow : low = false := hR.knows _ (List.mem_of_getElem? hi)
  have hacq : ∀ v n, Phase.idle = .acquired cur v n → ∀ p : Phase, ∃ m, p = .acquired cur v m :=
    fun v n hn => (by cases hn)
  cases call with
  | start d =>
    exact hR.keep hi hsole rfl rfl (by simp) (by simp [Hand.lookedUp]) rfl ⟨rfl, rfl, hlow, d, rfl⟩
      (fun h => ⟨hs, hrest h⟩) (fun v n hn => hacq v n hn _) (fun h => (by cases h))
      (fun _ d hd => (by cases hd))
  | delete d =>
    exact hR.keep hi hsole rfl rfl (by simp) (by simp [Hand.lookedUp]) rfl ⟨rfl, rfl, hlow, d, rfl⟩
      (fun h => ⟨hs, hrest h⟩) (fun v n hn => hacq v n hn _) (fun h => (by cases h))
      (fun _ d hd => .inr (.inl ⟨_, rfl⟩))
  | kill d signal =>
    unfold Hand.lookedUp
    by_cases he : (Call.kill d signal).endsSandbox = true
    · simp only [if_pos he]
      by_cases hv : st.daemonVmId = ""
      · simp only [if_neg (not_not.mpr hv)]
        -- there is no VM to release
        refine hR.keep hi hsole rfl rfl (by simp) (by simp) rfl rfl (fun h => (by cases h))
          (fun v n hn => hacq v n hn _) (fun _ hheld => (hR.held _ hheld).1 hv) (fun _ d hd => (by cases hd))
      · simp only [if_pos hv]
        exact hR.keep hi hsole rfl rfl (by simp) (by simp) rfl ⟨rfl, rfl⟩ (fun h => (by cases h))
          (fun v n hn => hacq v n hn _) (fun h => (by cases h)) (fun _ d hd => (by cases hd))
    · simp only [if_neg he]
      exact hR.keep hi hsole rfl rfl (by simp) (by simp) rfl trivial (fun h => (by cases h))
        (fun v n hn => hacq v n hn _) (fun h => (by cases h)) (fun _ d hd => (by cases hd))

/-- AcquireSandbox answers with a new VM. -/
theorem acquire_race (hR : Race s w gs cur st) (hi : gs[i]? = some g)
    (hsole : Sole gs i) {r t : ℕ}
    (hphase : g.phase = .found r "" t) {v : String} (hv : v ≠ "") :
    Race s { w with held := insert v w.held } (gs.set i { g with phase := .acquired r v none }) cur st := by
  have hk := hR.knows g (List.mem_of_getElem? hi)
  unfold Hand.Knows at hk
  rw [hphase] at hk
  obtain ⟨rfl, hvm, hlow, d, hd⟩ := hk
  obtain ⟨hs, hrest⟩ := hR.alone i g hi (by rw [hphase]; rfl)
  have hempty : ∀ u ∈ w.held, False := by
    intro u hu
    obtain ⟨hne, hcase⟩ := hR.heldBy hi hsole hu
    rcases hcase with he | ⟨n, hn⟩
    · exact hne (he.trans hvm.symm)
    · rw [hphase] at hn
      cases hn
  refine hR.set hi hsole rfl hR.last hR.entry rfl (.inr rfl)
    ⟨rfl, hvm.symm, fun m hm => (by cases hm), hv, hlow, d, hd⟩ (fun _ => ⟨hs, hrest⟩) (fun u hu => ?_) (fun _ hm => ?_)
    (hR.counted_same hi (by simp [hphase]) (by simp) rfl (by rw [hphase]; rfl)) (fun _ d' hd' => ?_)
  · rcases Finset.mem_insert.mp hu with rfl | hu'
    · exact ⟨hv, .inr ⟨none, rfl⟩⟩
    · exact (hempty u hu').elim
  · rcases Finset.mem_insert.mp hm with he | hm'
    · exact hv (he.symm.trans hvm.symm)
    · exact hempty _ hm'
  · rw [show ({ g with phase := .acquired r v none } : Hand).call = .start d from hd] at hd'
    cases hd'

theorem countLoad_race (hR : Race s w gs cur st) (hi : gs[i]? = some g)
    (hsole : Sole gs i) {r : ℕ} {v : String}
    (hphase : g.phase = .acquired r v none) :
    Race s w (gs.set i { g with phase := .acquired r v (some st.containerCount) }) cur st := by
  have hk := hR.knows g (List.mem_of_getElem? hi)
  unfold Hand.Knows at hk
  rw [hphase] at hk
  obtain ⟨rfl, hvm, -, hv, hlow, d, hd⟩ := hk
  refine hR.keep hi hsole rfl rfl (by simp [hphase]) (by simp) (by rw [hphase]; rfl)
    ⟨rfl, hvm, fun m hm => (Option.some.inj hm).symm, hv, hlow, d, hd⟩ (fun _ => hR.alone i g hi (by rw [hphase]; rfl))
    (fun u n hn => ?_) (fun h => (by cases h)) (fun _ d' hd' => ?_)
  · rw [hphase] at hn
    cases hn
    exact ⟨_, rfl⟩
  · rw [hd] at hd'
    cases hd'

/-- A new record takes the place of the old one: nobody else has the old one in hand. -/
theorem vmsInsert_race (hR : Race s w gs cur st) (hi : gs[i]? = some g)
    (hsole : Sole gs i) {r : ℕ}
    {new : SharedVmState} (hphase : g.phase = .acquired r new.daemonVmId (some new.containerCount)) :
    Race s { w with vms := w.vms.insert s w.records.length, records := w.records ++ [new] }
      (gs.set i { g with phase := .joined w.records.length }) w.records.length new := by
  have hk := hR.knows g (List.mem_of_getElem? hi)
  unfold Hand.Knows at hk
  rw [hphase] at hk
  obtain ⟨rfl, hvm, hcount, hv, hlow, d, hd⟩ := hk
  obtain ⟨hs, hrest⟩ := hR.alone i g hi (by rw [hphase]; rfl)
  have hnew : (w.vms.insert s w.records.length).lookup s = some w.records.length := Finmap.lookup_insert _
  have hothers : ∀ u ∈ gs.set i { g with phase := .joined w.records.length },
      u = { g with phase := .joined w.records.length } ∨ u ∈ gs ∧ u.phase.resting = true := by
    intro u hu
    rcases mem_set_cases hu with rfl | ⟨j, hji, hj⟩
    · exact .inl rfl
    · exact .inr ⟨List.mem_of_getElem? hj, hrest j u hji hj⟩
  refine ⟨by simp, List.getElem?_concat_length, .inr hnew, fun u hu => ?_, fun j u hj hu => ?_, fun v hm => ?_,
    fun hfree => ?_, fun _ => .inr ?_, fun _ u hu e he => ?_, fun u hu => ?_⟩
  · rcases hothers u hu with rfl | ⟨hm, hq⟩
    · exact ⟨rfl, hlow, d, hd⟩
    · have hk' := hR.knows u hm
      unfold Hand.Knows at hk' ⊢
      cases hp : u.phase with
      | ended => trivial
      | idle =>
        rw [hp] at hk'
        exact hk'
      | added =>
        rw [hp] at hk'
        exact hk'
      | _ =>
        rw [hp] at hq
        cases hq
  · rcases hothers u (List.mem_of_getElem? hj) with rfl | ⟨-, hq⟩
    · cases hu
    · cases hp : u.phase with
      | found _ _ _ => rw [hp] at hq; cases hq
      | acquired _ _ _ => rw [hp] at hq; cases hq
      | _ => rw [hp] at hu; cases hu
  · obtain ⟨hne, hcase⟩ := hR.heldBy hi hsole hm
    refine ⟨hne, .inl ?_⟩
    rcases hcase with he | ⟨n, hn⟩
    · exact absurd (he.trans hvm) hne
    · rw [hphase] at hn
      cases hn
      rfl
  · rcases hfree with hn | ⟨u, hu, hp⟩
    · rw [hnew] at hn
      cases hn
    · rcases hothers u hu with rfl | ⟨-, hq⟩
      · cases hp
      · rw [hp] at hq
        cases hq
  · -- no call is about to forget the sandbox, so the old record's count is right
    obtain ⟨ha, hl⟩ := counts_same hi { g with phase := .joined w.records.length }
      (by simp [hphase]) (by simp) rfl
    rw [ha, hl, hcount _ rfl]
    refine (hR.counted hs).resolve_left ?_
    rintro ⟨u, hu, hp⟩
    obtain ⟨j, hj⟩ := List.getElem?_of_mem hu
    by_cases hji : j = i
    · subst hji
      obtain rfl := Option.some.inj (hi.symm.trans hj)
      rw [hphase] at hp
      cases hp
    · have hq := hrest j u hji hj
      cases hpu : u.phase with
      | removing _ _ => rw [hpu] at hq; cases hq
      | released _ => rw [hpu] at hq; cases hq
      | _ => rw [hpu] at hp; cases hp
  · rcases hothers u hu with rfl | ⟨hm, hq⟩
    · rw [show ({ g with phase := .joined w.records.length } : Hand).call = .start d from hd] at he
      cases he
    · rcases hR.deletes hs u hm e he with hidle | ⟨v, hlook⟩ | hlow
      · exact .inl hidle
      · rw [hlook] at hq
        cases hq
      · exact .inr (.inr hlow)
  · rcases hothers u hu with rfl | ⟨hm, -⟩
    · exact hR.calls g (List.mem_of_getElem? hi)
    · exact hR.calls u hm

theorem Race.join (hR : Race s w gs cur st) (hi : gs[i]? = some g) (hsole : Sole gs i) {r t : ℕ} {v : String}
    (hphase : g.phase = .found r v t) : Race s w (gs.set i { g with phase := .joined r }) cur st := by
  have hk := hR.knows g (List.mem_of_getElem? hi)
  unfold Hand.Knows at hk
  rw [hphase] at hk
  obtain ⟨rfl, -, hlow, d, hd⟩ := hk
  refine hR.keep hi hsole rfl rfl (by simp [hphase]) (by simp) (by rw [hphase]; rfl) ⟨rfl, hlow, d, hd⟩
    (fun h => (by cases h)) (fun u n hn => ?_) (fun h => (by cases h)) (fun _ d' hd' => ?_)
  · rw [hphase] at hn
    cases hn
  · rw [hd] at hd'
    cases hd'

/-- A failed conversion of the image. -/
theorem Race.retry (hR : Race s w gs cur st) (hi : gs[i]? = some g) (hsole : Sole gs i) {r t : ℕ} {v : String}
    (hphase : g.phase = .found r v t) : Race s w (gs.set i { g with phase := Hand.retried g.phase }) cur st := by
  have hk := hR.knows g (List.mem_of_getElem? hi)
  unfold Hand.Knows at hk
  rw [hphase] at hk
  obtain ⟨rfl, hvm, hlow, d, hd⟩ := hk
  have hdel : ∀ e, g.call ≠ .delete e := fun e he => (by rw [hd] at he; cases he)
  rw [hphase, Hand.retried]
  by_cases ht : t < 2
  · rw [if_pos ht]
    refine hR.keep hi hsole rfl rfl (by simp [hphase]) (by simp) (by rw [hphase]; rfl) ⟨rfl, hvm, hlow, d, hd⟩
      (fun h => hR.alone i g hi (by rw [hphase]; exact h)) (fun u n hn => ?_) (fun h => (by cases h))
      (fun _ e he => absurd he (hdel e))
    · rw [hphase] at hn
      cases hn
  · rw [if_neg ht]
    exact hR.quit hi hsole (.inr ⟨_, _, _, hphase⟩) fun _ => hdel

/-- The records with another count in the last one. -/
theorem Race.entry_set (hR : Race s w gs cur st) (st' : SharedVmState) :
    (w.records.set cur st').length = cur + 1 ∧ (w.records.set cur st')[cur]? = some st' := by
  refine ⟨(List.length_set).trans hR.last, List.getElem?_set_self ?_⟩
  rw [hR.last]
  exact Nat.lt_succ_self cur

/-- The counts after a step that adds a container or lowers the count. -/
theorem counts_next (hi : gs[i]? = some g) (g' : Hand) (h1 : g.phase ≠ .added) (h2 : g.lowered = false) :
    addedCount (gs.set i g') = addedCount gs + (if g'.phase = .added then 1 else 0) ∧
      loweredCount (gs.set i g') = loweredCount gs + (if g'.lowered then 1 else 0) := by
  have ha := countP_set (fun g : Hand => decide (g.phase = .added)) hi g'
  have hl := countP_set (fun g : Hand => g.lowered) hi g'
  simp only [decide_eq_true_eq, if_neg h1] at ha
  simp only [h2, Bool.false_eq_true, if_false] at hl
  exact ⟨ha, hl⟩

/-- A task that was about to forget the sandbox still is after a step of another one. -/
theorem leaving_set (hi : gs[i]? = some g) (hg : g.phase.leaving = false)
    (h : ∃ u ∈ gs, u.phase.leaving = true) : ∃ u ∈ gs.set i g', u.phase.leaving = true :=
  exists_mem_set hi h fun hp => (by rw [hg] at hp; cases hp)

theorem countAdd_race (hR : Race s w gs cur st) (hi : gs[i]? = some g) (hsole : Sole gs i) {r : ℕ}
    (hphase : g.phase = .joined r) {n : ℕ} (hn : n = (st.containerCount + 1) % usize) :
    Race s { w with records := w.records.set cur (st.withCount n) } (gs.set i { g with phase := .added }) cur
      (st.withCount n) := by
  have hk := hR.knows g (List.mem_of_getElem? hi)
  unfold Hand.Knows at hk
  rw [hphase] at hk
  obtain ⟨rfl, hlow, d, hd⟩ := hk
  obtain ⟨hlast, hentry⟩ := hR.entry_set (st.withCount n)
  refine hR.set hi hsole rfl hlast hentry rfl (.inr rfl) ⟨d, hd⟩ (fun h => (by cases h)) (fun v hv => ?_)
    (fun hfree => ?_) (fun hs => ?_) (fun _ e he => ?_)
  · obtain ⟨hne, hcase⟩ := hR.heldBy hi hsole hv
    refine ⟨hne, hcase.imp id fun ⟨m, hm⟩ => ?_⟩
    rw [hphase] at hm
    cases hm
  · rcases hfree with hnone | hrel | hother
    · exact hR.freed (.inl hnone)
    · cases hrel
    · exact hR.freed (.inr hother)
  · refine (hR.counted hs).imp (leaving_set hi (by rw [hphase]; rfl)) fun ⟨hlt, hcount⟩ => ?_
    obtain ⟨ha, hl⟩ := counts_next hi { g with phase := .added } (by simp [hphase]) hlow
    rw [ha, hl, if_pos rfl, if_neg (by simp [hlow]), Nat.add_zero]
    refine ⟨by omega, ?_⟩
    have he : 1 + (addedCount gs + 1) - loweredCount gs = 1 + addedCount gs - loweredCount gs + 1 := by omega
    rw [SharedVmState.withCount_count, hn, he, hcount, Nat.mod_add_mod]
  · rw [show ({ g with phase := .added } : Hand).call = .start d from hd] at he
    cases he

/-- The last container to go is about to forget the sandbox. -/
theorem countSub_race (hR : Race s w gs cur st) (hi : gs[i]? = some g) (hsole : Sole gs i) {r : ℕ} {v : String}
    (hphase : g.phase = .looked r v) {n : ℕ} (hn : n = (st.containerCount + (usize - 1)) % usize) :
    Race s { w with records := w.records.set cur (st.withCount n) }
      (gs.set i ⟨g.call, if st.containerCount ≤ 1 then .removing r v else .ended, true⟩) cur (st.withCount n) := by
  have hk := hR.knows g (List.mem_of_getElem? hi)
  unfold Hand.Knows at hk
  rw [hphase] at hk
  obtain ⟨rfl, hvm, hlow, d, hd⟩ := hk
  have husize := two_le_usize
  obtain ⟨hlast, hentry⟩ := hR.entry_set (st.withCount n)
  refine hR.set hi hsole rfl hlast hentry rfl (.inr rfl) ?_ (fun h => ?_) (fun u hu => ?_) (fun hfree => ?_)
    (fun hs => ?_) (fun _ e he => .inr (.inr rfl))
  · unfold Hand.Knows
    by_cases hle : st.containerCount ≤ 1
    · simp only [if_pos hle]
      exact ⟨trivial, hvm⟩
    · simp only [if_neg hle]
  · split at h <;> cases h
  · obtain ⟨hne, hcase⟩ := hR.heldBy hi hsole hu
    refine ⟨hne, hcase.imp id fun ⟨m, hm⟩ => ?_⟩
    rw [hphase] at hm
    cases hm
  · rcases hfree with hnone | hrel | hother
    · exact hR.freed (.inl hnone)
    · split at hrel <;> cases hrel
    · exact hR.freed (.inr hother)
  · by_cases hle : st.containerCount ≤ 1
    · refine .inl ⟨_, mem_set_self hi, ?_⟩
      simp only [if_pos hle]
      rfl
    · simp only [if_neg hle]
      refine (hR.counted hs).imp (leaving_set hi (by rw [hphase]; rfl)) fun ⟨hlt, hcount⟩ => ?_
      obtain ⟨ha, hl⟩ := counts_next hi ⟨g.call, .ended, true⟩ (by simp [hphase]) hlow
      simp only [reduceCtorEq, if_false, if_true, Nat.add_zero] at ha hl
      rw [ha, hl]
      -- with one instance left the count would be one
      have hone : 1 + addedCount gs - loweredCount gs ≠ 1 := by
        intro h1
        rw [h1, Nat.mod_eq_of_lt (by omega)] at hcount
        omega
      refine ⟨by omega, ?_⟩
      have he : 1 + addedCount gs - loweredCount gs + (usize - 1) =
          1 + addedCount gs - (loweredCount gs + 1) + usize := by omega
      rw [SharedVmState.withCount_count, hn, hcount, Nat.mod_add_mod, he, Nat.add_mod_right]

/-- The VM of the sandbox is released, whether the daemon reports an error or not. -/
theorem release_race (hR : Race s w gs cur st) (hi : gs[i]? = some g) (hsole : Sole gs i) {r : ℕ} {v : String}
    (hphase : g.phase = .removing r v) (rel : List String) :
    Race s { w with held := w.held.erase v, releases := rel } (gs.set i { g with phase := .released r }) cur st := by
  have hk := hR.knows g (List.mem_of_getElem? hi)
  unfold Hand.Knows at hk
  rw [hphase] at hk
  obtain ⟨rfl, rfl⟩ := hk
  refine hR.set hi hsole rfl hR.last hR.entry rfl (.inr rfl) rfl (fun h => (by cases h)) (fun u hu => ?_)
    (fun _ => Finset.notMem_erase _ _) (fun _ => .inl ⟨_, mem_set_self hi, rfl⟩) (fun hs d hd => .inr (.inr ?_))
  · obtain ⟨hne, hcase⟩ := hR.heldBy hi hsole (Finset.mem_of_mem_erase hu)
    refine ⟨hne, hcase.imp id fun ⟨n, hn⟩ => ?_⟩
    rw [hphase] at hn
    cases hn
  · rcases hR.deletes hs g (List.mem_of_getElem? hi) d hd with hidle | ⟨v, hlook⟩ | hlow
    · rw [hphase] at hidle
      cases hidle
    · rw [hphase] at hlook
      cases hlook
    · exact hlow

/-- The sandbox is forgotten: its VM has been released. -/
theorem vmsRemove_race (hR : Race s w gs cur st) (hi : gs[i]? = some g) (hsole : Sole gs i) {r : ℕ}
    (hphase : g.phase = .released r) :
    Race s { w with vms := w.vms.erase s } (gs.set i { g with phase := .ended }) cur st := by
  have hk := hR.knows g (List.mem_of_getElem? hi)
  unfold Hand.Knows at hk
  rw [hphase] at hk
  obtain rfl := hk
  have hgone : (w.vms.erase s).lookup s = none := Finmap.lookup_erase s w.vms
  have hno : ∀ k : ℕ, (w.vms.erase s).lookup s ≠ some k := fun k hk => (by rw [hgone] at hk; cases hk)
  refine hR.set hi hsole rfl hR.last hR.entry rfl (.inl hgone) trivial (fun h => (by cases h)) (fun u hu => ?_)
    (fun _ => hR.freed (.inr ⟨g, List.mem_of_getElem? hi, hphase⟩)) (fun hs => absurd hs (hno _))
    (fun hs => absurd hs (hno _))
  · obtain ⟨hne, hcase⟩ := hR.heldBy hi hsole hu
    refine ⟨hne, hcase.imp id fun ⟨n, hn⟩ => ?_⟩
    rw [hphase] at hn
    cases hn

/-- An action that the shim's state does not show, and a task that knows no more after it. -/
theorem unwatched_race (hR : RaceInv s w gs) (hi : gs[i]? = some g) {w' : World} (hw : w' = w) :
    RaceInv s w' (gs.set i g) := by
  rw [hw, set_self hi]
  exact hR

/-- The record a task has in hand is the last one. -/
theorem Race.rec_eq (hR : Race s w gs cur st) (hi : gs[i]? = some g) {p : Phase} (hphase : g.phase = p)
    (hp : p.resting = false) : Hand.recOf p = cur := by
  have hk := hR.knows g (List.mem_of_getElem? hi)
  unfold Hand.Knows at hk
  rw [hphase] at hk
  cases p with
  | released r => exact hk
  | idle => cases hp
  | added => cases hp
  | ended => cases hp
  | _ => exact hk.1

/-- A task that looks for the image is a start. -/
theorem Race.found_start (hR : Race s w gs cur st) (hi : gs[i]? = some g) {r t : ℕ} {v : String}
    (hphase : g.phase = .found r v t) (d : CloudHvInstance) : g.call ≠ .delete d := by
  have hk := hR.knows g (List.mem_of_getElem? hi)
  unfold Hand.Knows at hk
  rw [hphase] at hk
  obtain ⟨-, -, -, e, he⟩ := hk
  rw [he]
  exact fun h => (by cases h)

/-- **One step of a call.**  The other calls are not acquiring; a call that finds no VM finds the other calls
without a record. -/
theorem race_step (hI : RaceInv s w gs) (hi : gs[i]? = some g) (hsole : Sole gs i) {a : Action} {c : Choice}
    {r : Answer a} {w' : World} (hreq : g.req s a) (hp : perform w a c = some (r, w'))
    (hrest : (g.upd a r).phase.acquiring = true → OthersRest gs i) : RaceInv s w' (gs.set i (g.upd a r)) := by
  have hun := fun (w' : World) (hw : w' = w) => unwatched_race hI hi hw
  obtain ⟨cur, st, hR⟩ := hI
  cases a with
  | readSpec =>
    obtain rfl := quiet_frame hp rfl
    obtain ⟨hidle, d, hd⟩ := hreq
    cases r with
    | ok u => exact hun _ rfl
    | error e => exact ⟨cur, st, hR.quit hi hsole (.inl hidle) fun _ e he => (by rw [hd] at he; cases he)⟩
  | vmsGet s' =>
    obtain ⟨rfl, hidle⟩ := hreq
    obtain ⟨rfl, ⟨rfl, hnone⟩ | ⟨rfl, hs⟩⟩ := vmsGet_answer hR hp
    · refine ⟨cur, st, hR.quit hi hsole (.inl hidle) fun hs => ?_⟩
      rw [hnone] at hs
      cases hs
    · exact ⟨cur, st, vmsGet_race hR hi hsole hidle hs hrest⟩
  | vmsInsert s' new =>
    obtain ⟨rfl, r', hphase⟩ := hreq
    obtain ⟨rfl, rfl⟩ := Prod.mk.inj (Option.some.inj hp)
    exact ⟨_, new, vmsInsert_race hR hi hsole hphase⟩
  | vmsRemove s' =>
    obtain ⟨rfl, r', hphase⟩ := hreq
    obtain ⟨-, rfl⟩ := Prod.mk.inj (Option.some.inj hp)
    exact ⟨cur, st, vmsRemove_race hR hi hsole hphase⟩
  | countLoad r' =>
    obtain ⟨v, hphase⟩ := hreq
    obtain rfl : r' = cur := hR.rec_eq hi hphase rfl
    simp only [perform, hR.entry, Option.map_some, Option.some.injEq, Prod.mk.injEq] at hp
    obtain ⟨rfl, rfl⟩ := hp
    simp only [Hand.upd, hphase]
    exact ⟨_, st, countLoad_race hR hi hsole hphase⟩
  | countAdd r' =>
    obtain rfl : r' = cur := hR.rec_eq hi hreq rfl
    obtain ⟨-, rfl⟩ := onCount_some (f := fun n => (n + 1) % usize) hR.entry hp
    exact ⟨_, _, countAdd_race hR hi hsole hreq rfl⟩
  | countSub r' =>
    obtain ⟨v, hphase⟩ := hreq
    obtain rfl : r' = cur := hR.rec_eq hi hphase rfl
    obtain ⟨rfl, rfl⟩ := onCount_some (f := fun n => (n + (usize - 1)) % usize) hR.entry hp
    simp only [Hand.upd, hphase]
    exact ⟨_, _, countSub_race hR hi hsole hphase rfl⟩
  | prepareErofs key =>
    obtain rfl := quiet_frame hp rfl
    obtain ⟨r', v, t, hphase⟩ := hreq
    cases r with
    | ok u => exact hun _ rfl
    | error e => exact ⟨cur, st, hR.retry hi hsole hphase⟩
  | acquireSandbox socket req =>
    obtain ⟨r', t, hphase⟩ := hreq
    simp only [perform] at hp
    split at hp
    · obtain ⟨rfl, rfl⟩ := Prod.mk.inj (Option.some.inj hp)
      exact ⟨cur, st, hR.quit hi hsole (.inr ⟨_, _, _, hphase⟩) fun _ d => hR.found_start hi hphase d⟩
    · split at hp
      · cases hp
      · next hv =>
        obtain ⟨rfl, rfl⟩ := Prod.mk.inj (Option.some.inj hp)
        simp only [Hand.upd, hphase, Hand.recOf]
        exact ⟨cur, st, acquire_race hR hi hsole hphase fun he => hv (.inl he)⟩
  | releaseSandbox socket v =>
    obtain ⟨r', hphase⟩ := hreq
    have hw : w' = { w with held := w.held.erase v, releases := w.releases ++ [v] } := by
      simp only [perform, World.orFail] at hp
      split at hp <;> exact (Prod.mk.inj (Option.some.inj hp)).2.symm
    rw [hw]
    simp only [Hand.upd, hphase, Hand.recOf]
    exact ⟨cur, st, release_race hR hi hsole hphase _⟩
  | addContainer socket v path id config =>
    obtain rfl := quiet_frame hp rfl
    obtain ⟨r', v', t, hphase, -⟩ := hreq
    cases r with
    | ok pid =>
      simp only [Hand.upd, hphase, Hand.recOf]
      exact ⟨cur, st, hR.join hi hsole hphase⟩
    | error e => exact ⟨cur, st, hR.quit hi hsole (.inr ⟨_, _, _, hphase⟩) fun _ d => hR.found_start hi hphase d⟩
  | _ => exact hun w' (quiet_frame hp rfl)

end Step

/-! ### Runs -/

def handOf (t : Thread Action Answer Call) : Hand := System.ghost (handling "") Hand.init t

instance (s : String) : (c : Call) → Decidable (Concurrent s c)
  | .start i => decidable_of_iff (InPod s i ∧ ¬ i.isSandbox) (and_congr_right fun _ =>
      ⟨fun h _ hd => (Call.start.inj hd) ▸ h, fun h => h i rfl⟩)
  | .kill i _ => decidable_of_iff (InPod s i) ⟨fun h => ⟨h, fun _ hd => nomatch hd⟩, fun h => h.1⟩
  | .delete i => decidable_of_iff (InPod s i) ⟨fun h => ⟨h, fun _ hd => nomatch hd⟩, fun h => h.1⟩

/-- The calls are on instances of the sandbox. -/
def onSandbox (s : String) : Event Action Answer Call → Bool
  | .arrive c => decide (Concurrent s c)
  | _ => true

/-- While a start acquires a VM no other call takes a step, and none has a record in hand. -/
def serialized (x : ShimConf) : Event Action Answer Call → Bool
  | .act i a r => x.threads.zipIdx.all fun (u, j) => decide (j = i ∨ (handOf u).phase.acquiring = false ∧
      ((x.threads[i]?).any (fun t => ((handOf t).upd a r).phase.acquiring) = true →
        (handOf u).phase.resting = true))
  | _ => true

/-- The instances that were started with success: the sandbox, and the containers. -/
def started (s : String) (gs : List Hand) : List String :=
  s :: gs.filterMap fun g => match g.call with
    | .start i => if g.phase = .added then some i.id else none
    | _ => none

def deleted (gs : List Hand) : List String :=
  gs.filterMap fun g => match g.call with
    | .delete i => some i.id
    | _ => none

/-- Every instance has been deleted as often as it was started. -/
def AllDeleted (s : String) (x : ShimConf) : Prop :=
  (started s (x.threads.map handOf)).Subperm (deleted (x.threads.map handOf))

instance (s : String) (x : ShimConf) : Decidable (AllDeleted s x) :=
  inferInstanceAs (Decidable (List.Subperm _ _))

theorem serialized_others {x : ShimConf} {i : ℕ} {g : Hand} {a : Action} {r : Answer a}
    (h : serialized x (.act i a r) = true) (hi : (x.threads.map handOf)[i]? = some g) :
    Sole (x.threads.map handOf) i ∧
      ((g.upd a r).phase.acquiring = true → OthersRest (x.threads.map handOf) i) := by
  have hcond : ∀ (j : ℕ) (u : Hand), j ≠ i → (x.threads.map handOf)[j]? = some u →
      u.phase.acquiring = false ∧ ((g.upd a r).phase.acquiring = true → u.phase.resting = true) := by
    intro j u hji hj
    rw [List.getElem?_map] at hi
    obtain ⟨ti, hti, rfl⟩ := Option.map_eq_some_iff.mp hi
    obtain ⟨tj, -, rfl, h1, h2⟩ := others_of_all (P := fun u => (handOf u).phase.acquiring = false ∧
      ((x.threads[i]?).any (fun t => ((handOf t).upd a r).phase.acquiring) = true →
        (handOf u).phase.resting = true)) handOf h hji hj
    refine ⟨h1, fun hacq => h2 ?_⟩
    rw [hti]
    exact hacq
  exact ⟨fun j u hji hj => (hcond j u hji hj).1, fun hacq j u hji hj => (hcond j u hji hj).2 hacq⟩

section Runs

variable {s : String} {w : World} {gs : List Hand} {cur : ℕ} {st : SharedVmState}

/-- The sandbox has one VM at most. -/
theorem Race.one_vm (hR : Race s w gs cur st) : w.held.card ≤ 1 := by
  refine Finset.card_le_one.mpr fun v hv u hu => ?_
  obtain ⟨hvne, hv⟩ := hR.held v hv
  obtain ⟨hune, hu⟩ := hR.held u hu
  -- a start with a new VM is alone, and there is no other VM then
  have hnew : ∀ g ∈ gs, ∀ v n, g.phase = .acquired cur v n → st.daemonVmId = "" := by
    intro g hg v n hn
    have hk := hR.knows g hg
    unfold Hand.Knows at hk
    rw [hn] at hk
    exact hk.2.1
  rcases hv with rfl | ⟨g, hg, n, hn⟩ <;> rcases hu with rfl | ⟨g', hg', n', hn'⟩
  · rfl
  · exact absurd (hnew g' hg' _ _ hn') hvne
  · exact absurd (hnew g hg _ _ hn) hune
  · obtain ⟨j, hj⟩ := List.getElem?_of_mem hg
    obtain ⟨j', hj'⟩ := List.getElem?_of_mem hg'
    by_cases hjj : j' = j
    · subst hjj
      obtain rfl := Option.some.inj (hj.symm.trans hj')
      rw [hn] at hn'
      cases hn'
      rfl
    · have hrest := (hR.alone j g hj (by rw [hn]; rfl)).2 j' g' hjj hj'
      rw [hn'] at hrest
      cases hrest

theorem Race.addedCount_le (hR : Race s w gs cur st) : 1 + addedCount gs ≤ (started s gs).length := by
  unfold started addedCount
  rw [List.length_cons, Nat.add_comm, List.length_filterMap_eq_countP]
  refine Nat.succ_le_succ (List.countP_mono_left fun g hg hadd => ?_)
  have hp : g.phase = .added := of_decide_eq_true hadd
  have hk := hR.knows g hg
  unfold Hand.Knows at hk
  rw [hp] at hk
  obtain ⟨i, hi⟩ := hk
  rw [hi, hp]
  rfl

/-- When every call is over and the sandbox is not forgotten, every delete has lowered the count. -/
theorem Race.loweredCount_ge (hR : Race s w gs cur st) (hover : ∀ g ∈ gs, g.over)
    (hs : w.vms.lookup s = some cur) : (deleted gs).length ≤ loweredCount gs := by
  unfold deleted loweredCount
  rw [List.length_filterMap_eq_countP]
  refine List.countP_mono_left fun g hg hdel => ?_
  split at hdel
  · next i hi =>
    rcases hR.deletes hs g hg i hi with hidle | ⟨v, hlook⟩ | hlow
    · rcases hover g hg with h | h <;> rw [hidle] at h <;> cases h
    · rcases hover g hg with h | h <;> rw [hlook] at h <;> cases h
    · exact hlow
  · cases hdel

/-- With all instances deleted the sandbox is forgotten, and nothing is held. -/
theorem Race.forgotten (hR : Race s w gs cur st) (hover : ∀ g ∈ gs, g.over)
    (hdel : (started s gs).Subperm (deleted gs)) : w.held = ∅ ∧ w.vms.lookup s = none := by
  have hnone : w.vms.lookup s = none := by
    rcases hR.table with hn | hs
    · exact hn
    · rcases hR.counted hs with ⟨g, hg, hleave⟩ | ⟨hlt, -⟩
      · rcases hover g hg with h | h <;> rw [h] at hleave <;> cases hleave
      · have h1 := hR.addedCount_le
        have h2 := hR.loweredCount_ge hover hs
        have h3 := hdel.length_le
        omega
  refine ⟨Finset.eq_empty_iff_forall_notMem.mpr fun v hv => ?_, hnone⟩
  obtain ⟨-, rfl | ⟨g, hg, n, hn⟩⟩ := hR.held v hv
  · exact hR.freed (.inl hnone) hv
  · rcases hover g hg with h | h <;> rw [hn] at h <;> cases h

theorem getElem?_concat_cases {u : Hand} {j : ℕ} {g : Hand} (hj : (gs ++ [g])[j]? = some u) :
    u = g ∨ gs[j]? = some u := by
  rw [List.getElem?_append] at hj
  split at hj
  · exact .inr hj
  · exact .inl (List.mem_singleton.mp (List.mem_of_getElem? hj))

/-- A call arrives with nothing in hand. -/
theorem Race.arrive (hR : Race s w gs cur st) {c : Call} (hc : Concurrent s c) :
    Race s w (gs ++ [Hand.init c]) cur st := by
  have hold : ∀ u ∈ gs ++ [Hand.init c], u.phase ≠ .idle → u ∈ gs := by
    intro u hu hne
    rcases List.mem_append.mp hu with hu | hu
    · exact hu
    · rw [List.mem_singleton.mp hu] at hne
      exact absurd rfl hne
  have hadd : addedCount (gs ++ [Hand.init c]) = addedCount gs := by
    simp [addedCount, Hand.init]
  have hlow : loweredCount (gs ++ [Hand.init c]) = loweredCount gs := by
    simp [loweredCount, Hand.init]
  refine ⟨hR.last, hR.entry, hR.table, fun u hu => ?_, fun j u hj hu => ?_, fun v hv => ?_, fun hfree => ?_,
    fun hs => ?_, fun hs u hu d hd => ?_, fun u hu => ?_⟩
  · rcases List.mem_append.mp hu with hu | hu
    · exact hR.knows u hu
    · rw [List.mem_singleton.mp hu]
      exact rfl
  · rcases getElem?_concat_cases hj with rfl | hj'
    · cases hu
    · obtain ⟨h1, h2⟩ := hR.alone j u hj' hu
      refine ⟨h1, fun k v hk hv => ?_⟩
      rcases getElem?_concat_cases hv with rfl | hv'
      · rfl
      · exact h2 k v hk hv'
  · obtain ⟨hne, hcase⟩ := hR.held v hv
    exact ⟨hne, hcase.imp id fun ⟨g, hg, n, hn⟩ => ⟨g, List.mem_append_left _ hg, n, hn⟩⟩
  · refine hR.freed (hfree.imp id fun ⟨g, hg, hp⟩ => ⟨g, hold g hg ?_, hp⟩)
    rw [hp]
    simp
  · rw [hadd, hlow]
    exact (hR.counted hs).imp (fun ⟨g, hg, hp⟩ => ⟨g, List.mem_append_left _ hg, hp⟩) id
  · rcases List.mem_append.mp hu with hu | hu
    · exact hR.deletes hs u hu d hd
    · rw [List.mem_singleton.mp hu]
      exact .inl rfl
  · rcases List.mem_append.mp hu with hu | hu
    · exact hR.calls u hu
    · rw [List.mem_singleton.mp hu]
      exact hc

/-- A sandbox that was just started. -/
theorem race_sandboxUp (s : String) (netns cgroupsPath : Option String) (socket : String) :
    Race s (sandboxUp s netns cgroupsPath socket) [] 0 ⟨0, 1, none, netns, cgroupsPath, "", socket⟩ := by
  refine ⟨rfl, rfl, .inr (Finmap.lookup_singleton_eq), fun g hg => (by cases hg), fun i g hi => (by cases hi),
    fun v hv => absurd hv (Finset.notMem_empty v), fun _ => Finset.notMem_empty _, fun _ => .inr ⟨by decide, ?_⟩,
    fun _ g hg => (by cases hg), fun g hg => (by cases hg)⟩
  exact (Nat.mod_eq_of_lt two_le_usize).symm

variable {i : CloudHvInstance} {cs : List Choice} {pid : ℕ} {w₀ : World} {x : ShimConf}

theorem startSandbox_up (h : eval perform i.startSandbox.run cs World.new = some (.ok pid, w₀, [])) :
    ∃ netns cgroupsPath socket, w₀ = sandboxUp i.id netns cgroupsPath socket := by
  have hall : semx (always perform) i.startSandbox
      (fun _ w => ∃ netns cgroupsPath socket, w = sandboxUp i.id netns cgroupsPath socket)
      (fun _ _ => True) World.new := by
    unfold CloudHvInstance.startSandbox
    refine semx_bind.mpr (tell_always rfl fun spec => ?_)
    refine semx_bind.mpr (tell_always rfl fun res => ?_)
    cases res with
    | error e => trivial
    | ok socket =>
      refine semx_bind.mpr ?_
      show semx (always perform) (tell (.vmsInsert i.id ⟨0, 1, none, spec.1, spec.2, "", socket⟩) >>= fun _ => pure 0)
        _ _ _
      refine semx_bind.mpr (semx_tell.mpr fun c r w' hp => ?_)
      obtain ⟨-, rfl⟩ := Prod.mk.inj (Option.some.inj hp)
      exact ⟨spec.1, spec.2, socket, rfl⟩
  exact sem_always hall h

/-- **The calls of a sandbox at the same time.**  After the start of the sandbox `i`, in every run of
starts, kills and deletes of its instances in which no other call takes a step while a start acquires a VM:
the sandbox never has two VMs, and when no call is in flight and all instances have been deleted, no VM is
held and the sandbox is forgotten. -/
theorem one_vm_released_in_the_end
    (h₀ : eval perform i.startSandbox.run cs World.new = some (.ok pid, w₀, []))
    (h : shim.Reach (fun x e => onSandbox i.id e = true ∧ serialized x e = true) ⟨w₀, []⟩ x) :
    x.shared.held.card ≤ 1 ∧
      (x.quiet = true → AllDeleted i.id x → x.shared.held = ∅ ∧ x.shared.vms.lookup i.id = none) := by
  obtain ⟨netns, cg, socket, rfl⟩ := startSandbox_up h₀
  have hbody : ∀ c, Concurrent i.id c → wp (handling i.id) c.body (fun _ g => g.over) (Hand.init c) :=
    fun c hc => body_hand hc
  obtain ⟨⟨cur, st, hR⟩, hW⟩ := System.Reach.invOn (Concurrent i.id)
    (RaceInv i.id) Hand.over hbody (fun _ _ t ht => (by cases ht))
    ⟨0, _, race_sandboxUp _ _ _ _⟩ (fun t ht => (by cases ht))
    (fun x c ⟨cur, st, hR⟩ _ hok => ⟨of_decide_eq_true hok.1, cur, st, hR.arrive (of_decide_eq_true hok.1)⟩)
    (fun x j g a c r w' hI hj hreq hp hok => by
      obtain ⟨hsole, hrest⟩ := serialized_others hok.2 hj
      refine ⟨trivial, ?_⟩
      rw [show (shim.spawned a r).map Hand.init = [] from rfl, List.append_nil]
      exact race_step hI hj hsole hreq hp hrest) h
  exact ⟨hR.one_vm, fun hq hdel => hR.forgotten (System.fin_of_quiet hq hW) hdel⟩

end Runs

/-! ### Two runs -/

def sched (i n : ℕ) (vm : String) : List (Label Choice Call) := List.replicate n (.sched i (Choice.fine vm))

theorem pod_started :
    eval perform pod.startSandbox.run (fine 3) World.new = some (.ok 0, sandboxUp "pod" none none "", []) := rfl

/-- Two containers start at the same time, and neither finds a VM; then everything is deleted. -/
def startsCross : List (Label Choice Call) :=
  [.arrive (.start (ctr "web")), .arrive (.start (ctr "db"))] ++ sched 0 2 "vm-a" ++ sched 1 2 "vm-b" ++
    sched 0 8 "vm-a" ++ sched 1 8 "vm-b" ++ [.arrive (.delete (ctr "web")), .arrive (.delete (ctr "db"))] ++
    sched 2 4 "" ++ sched 3 5 "" ++ [.arrive (.delete pod)] ++ sched 4 2 ""

/-- Two VMs are acquired, and one of them is never released. -/
theorem crossed_starts_leak : ∃ w₀ x, eval perform pod.startSandbox.run (fine 3) World.new = some (.ok 0, w₀, []) ∧
    shim.Reach (fun _ e => onSandbox pod.id e = true) ⟨w₀, []⟩ x ∧ x.quiet = true ∧ AllDeleted pod.id x ∧
    ¬ x.shared.held = ∅ ∧ ∃ y, shim.Reach (fun _ e => onSandbox pod.id e = true) ⟨w₀, []⟩ y ∧
      ¬ y.shared.held.card ≤ 1 := by
  have hrun : (shim.exec (fun _ e => onSandbox pod.id e) ⟨sandboxUp "pod" none none "", []⟩ startsCross).any
      (fun x => decide (x.quiet = true ∧ AllDeleted pod.id x ∧ "vm-a" ∈ x.shared.held)) = true := by
    decide +kernel
  have hboth : (shim.exec (fun _ e => onSandbox pod.id e) ⟨sandboxUp "pod" none none "", []⟩
      (startsCross.take 22)).any (fun x => decide (¬ x.shared.held.card ≤ 1)) = true := by
    decide +kernel
  obtain ⟨x, hx, hP⟩ := System.exists_reach hrun
  obtain ⟨hq, hdel, hheld⟩ := of_decide_eq_true hP
  obtain ⟨y, hy, hQ⟩ := System.exists_reach hboth
  refine ⟨_, x, pod_started, hx, hq, hdel, fun he => ?_, y, hy, of_decide_eq_true hQ⟩
  rw [he] at hheld
  exact absurd hheld (Finset.notMem_empty _)

/-- The second container starts when the first has its VM, and while a third one fails to start. -/
def startsInTurn : List (Label Choice Call) :=
  [.arrive (.start (ctr "web"))] ++ sched 0 10 "vm" ++
    [.arrive (.start (ctr "db")), .arrive (.start (ctr "job"))] ++ sched 1 3 "" ++ sched 2 5 "" ++
    [.sched 2 (Choice.fails "no memory")] ++ sched 1 5 "" ++
    [.arrive (.delete (ctr "web")), .arrive (.delete (ctr "db"))] ++ sched 3 1 "" ++ sched 4 4 "" ++ sched 3 3 "" ++
    [.arrive (.delete pod)] ++ sched 5 5 ""

theorem one_vm_released_in_turn : ∃ w₀ x,
    eval perform pod.startSandbox.run (fine 3) World.new = some (.ok 0, w₀, []) ∧
    shim.Reach (fun x e => onSandbox pod.id e = true ∧ serialized x e = true) ⟨w₀, []⟩ x ∧
    x.shared.releases = ["vm"] ∧ x.shared.held.card ≤ 1 ∧
    x.shared.held = ∅ ∧ x.shared.vms.lookup pod.id = none := by
  have hrun : (shim.exec (fun x e => onSandbox pod.id e && serialized x e)
      ⟨sandboxUp "pod" none none "", []⟩ startsInTurn).any (fun x => decide (x.quiet = true ∧ AllDeleted pod.id x ∧
        x.shared.releases = ["vm"])) = true := by
    decide +kernel
  obtain ⟨x, hx, hP⟩ := System.exists_reach hrun
  obtain ⟨hq, hdel, hrel⟩ := of_decide_eq_true hP
  have hR := hx.mono fun _ _ h => Bool.and_eq_true_iff.mp h
  obtain ⟨hone, hend⟩ := one_vm_released_in_the_end pod_started hR
  exact ⟨_, x, pod_started, hR, hrel, hone, hend hq hdel⟩

end CloudHv.Shim
