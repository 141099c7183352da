import CloudHv.Shim.Instance

/-!
# Count — the container count of a sandbox

Calls made one after the other on the instances of a sandbox.  The record of the sandbox counts the
sandbox and its containers: a start that succeeds raises the count, and every delete lowers it, also of an
instance that was never started.  So the count is right in every run whose deletes are of instances that
are up.
-/

namespace CloudHv.Shim

open Conc

/-! ### What the parts of a call do -/

/-- The container count of a sandbox. -/
def World.count (w : World) (s : String) : Option ℕ :=
  (w.vms.lookup s).bind fun r => (w.records[r]?).map (·.containerCount)

/-- The action leaves the shim's own state alone. -/
def Action.quiet : Action → Bool
  | .vmsInsert _ _ | .vmsRemove _ | .countAdd _ | .countSub _ | .countLoad _ | .acquireSandbox _ _
  | .releaseSandbox _ _ => false
  | _ => true

section Parts

variable {σ α : Type} {T : Trans Action Answer σ}

theorem semx_tell {a : Action} {Q : Answer a → σ → Prop} {F : String → σ → Prop} {s : σ} :
    semx T (tell a) Q F s ↔ T a Q s :=
  semx_lift (p := Prog.call a)

variable {Q : α → World → Prop} {F : String → World → Prop} {w : World}

theorem quiet_frame {a : Action} {c : Choice} {r : Answer a} {w' : World}
    (hp : perform w a c = some (r, w')) (ha : a.quiet = true) : w' = w := by
  have hid : ∀ {β : Type} {x y : β}, some (x, w) = some (y, w') → w' = w :=
    fun he => (Prod.mk.inj (Option.some.inj he)).2.symm
  have hfail : ∀ {β : Type} {x : β} {r : Except String β}, w.orFail c x = some (r, w') → w' = w := by
    intro β x r he
    unfold World.orFail at he
    split at he <;> exact hid he
  cases a with
  | readSpec =>
    simp only [perform] at hp
    split at hp <;> exact hid hp
  | loadConfig => exact hfail hp
  | prepareErofs k => exact hfail hp
  | addContainer s v e i j => exact hfail hp
  | killContainer s v i n => exact hfail hp
  | deleteContainer s v i => exact hfail hp
  | placeInCgroup p c => exact hfail hp
  | vmsInsert s st => cases ha
  | vmsRemove s => cases ha
  | countLoad r => cases ha
  | countAdd r => cases ha
  | countSub r => cases ha
  | acquireSandbox s r => cases ha
  | releaseSandbox s v => cases ha
  | _ => exact hid hp

/-- Code that leaves the shim's state alone ends in the state it began in. -/
theorem quiet_always {m : M α} (h : Only (fun a : Action => a.quiet = true) m.run) (hQ : ∀ x, Q x w)
    (hF : ∀ e, F e w) : semx (always perform) m Q F w := by
  refine Only.always (f := id) h (fun a s c r s' ha hp => quiet_frame hp ha) fun r w' hw => ?_
  obtain rfl : w' = w := hw
  cases r with
  | ok x => exact hQ x
  | error e => exact hF e

theorem always_semx {m : M α} {Q' : α → World → Prop} {F' : String → World → Prop}
    (h : semx (always perform) m Q F w) (hQ : ∀ x w', Q x w' → Q' x w') (hF : ∀ e w', F e w' → F' e w') :
    semx (always perform) m Q' F' w := by
  refine always_mono h fun r w' hr => ?_
  cases r with
  | ok x => exact hQ x w' hr
  | error e => exact hF e w' hr

theorem tell_quiet {a : Action} (ha : a.quiet = true) : Only (fun a : Action => a.quiet = true) (tell a).run :=
  ⟨ha, fun _ => trivial⟩

theorem wrap_quiet {ε : Type} (r : Except ε α) (f : ε → String) :
    Only (fun a : Action => a.quiet = true) (wrap r f).run := by
  cases r <;> trivial

theorem erofsImage_quiet (key : String) : ∀ (left attempt : ℕ) (last : String),
    Only (fun a : Action => a.quiet = true) (CloudHvInstance.erofsImage key attempt left last).run
  | 0, _, _ => trivial
  | left + 1, attempt, _ => by
    refine Only.bindE (tell_quiet rfl) fun r => ?_
    cases r with
    | ok path => trivial
    | error e => exact Only.bindE (tell_quiet rfl) fun _ => erofsImage_quiet key left (attempt + 1) e

theorem tell_always {a : Action} {Q : Answer a → World → Prop} (ha : a.quiet = true) (hQ : ∀ r, Q r w) :
    semx (always perform) (tell a) Q F w := by
  refine semx_tell.mpr fun c r w' hp => ?_
  obtain rfl := quiet_frame hp ha
  exact hQ r

theorem cleanupTap_always {st : SharedVmState} {Q : Unit → World → Prop} (hQ : Q () w) :
    semx (always perform) (cleanupTap st) Q F w := by
  unfold cleanupTap
  split
  · exact tell_always rfl fun _ => hQ
  · exact hQ

theorem placeVm_always {st : SharedVmState} {Q : Unit → World → Prop} (hQ : Q () w) :
    semx (always perform) (placeVm st) Q F w := by
  unfold placeVm
  split
  · exact semx_bind.mpr (tell_always rfl fun _ => hQ)
  · exact hQ

end Parts

/-! ### What a call does -/

section Calls

variable {w : World} {i : CloudHvInstance}

/-- The record that a lookup finds, and its count. -/
theorem vmsGet_always {s : String} {Q : Option (ℕ × SharedVmState) → World → Prop} {F : String → World → Prop}
    (hnone : w.count s = none → Q none w)
    (hsome : ∀ r st, w.vms.lookup s = some r → w.records[r]? = some st →
      w.count s = some st.containerCount → Q (some (r, st)) w) :
    semx (always perform) (tell (.vmsGet s)) Q F w := by
  refine semx_tell.mpr fun c a w' hp => ?_
  obtain ⟨rfl, rfl⟩ := Prod.mk.inj (Option.some.inj hp)
  unfold World.count at hnone hsome
  cases hl : w.vms.lookup s with
  | none =>
    rw [hl] at hnone
    exact hnone rfl
  | some r =>
    rw [hl] at hnone hsome
    cases hr : w.records[r]? with
    | none =>
      rw [Option.bind_some, hr] at hnone ⊢
      exact hnone rfl
    | some st =>
      have hcount := hsome r st rfl hr
      rw [Option.bind_some, hr] at hcount ⊢
      exact hcount rfl

theorem count_set {s : String} {r : ℕ} {st st' : SharedVmState} (hl : w.vms.lookup s = some r)
    (hr : w.records[r]? = some st) :
    { w with records := w.records.set r st' }.count s = some st'.containerCount := by
  have hlt : r < w.records.length := (List.getElem?_eq_some_iff.mp hr).1
  simp only [World.count, hl, Option.bind_some, List.getElem?_set_self hlt, Option.map_some]

theorem onCount_some {r : ℕ} {st : SharedVmState} {f : ℕ → ℕ} {n : ℕ} {w' : World}
    (hr : w.records[r]? = some st) (hp : w.onCount r f = some (n, w')) :
    n = st.containerCount ∧
      w' = { w with records := w.records.set r { st with containerCount := f st.containerCount } } := by
  simp only [World.onCount, hr, Option.map_some, Option.some.injEq, Prod.mk.injEq] at hp
  exact ⟨hp.1.symm, hp.2.symm⟩

/-- What a start leaves: a successful one has raised the count, of a sandbox to one. -/
def StartedAs (i : CloudHvInstance) (w w' : World) : Prop :=
  w'.releases = w.releases ∧
    if i.isSandbox then w'.count i.id = some 1
    else ∃ n, w.count i.sandboxId = some n ∧ w'.count i.sandboxId = some ((n + 1) % usize)

/-- What a failed start leaves. -/
def Untouched (s : String) (w w' : World) : Prop := w'.releases = w.releases ∧ w'.count s = w.count s

theorem startSandbox_always :
    semx (always perform) i.startSandbox (fun _ w' => w'.releases = w.releases ∧ w'.count i.id = some 1)
      (fun _ w' => Untouched i.sandboxId w w') w := by
  have hsame : Untouched i.sandboxId w w := ⟨rfl, rfl⟩
  unfold CloudHvInstance.startSandbox
  refine semx_bind.mpr (quiet_always (tell_quiet rfl) (fun spec => ?_) fun _ => hsame)
  obtain ⟨netns, cgroupsPath⟩ := spec
  refine semx_bind.mpr (quiet_always (tell_quiet rfl) (fun cfg => ?_) fun _ => hsame)
  refine semx_bind.mpr (quiet_always (wrap_quiet _ _) (fun socket => ?_) fun _ => hsame)
  refine semx_bind.mpr (semx_tell.mpr fun c r w' hp => ?_)
  obtain ⟨rfl, rfl⟩ := Prod.mk.inj (Option.some.inj hp)
  refine ⟨rfl, ?_⟩
  simp [World.count, Finmap.lookup_insert]

/-- A further container leaves the record in its place. -/
theorem joinVm_always {r : ℕ} {st : SharedVmState} {path : String} {config : List UInt8}
    (hl : w.vms.lookup i.sandboxId = some r) (hr : w.records[r]? = some st) :
    semx (always perform) (i.joinVm r st path config) (fun x w' => w'.releases = w.releases ∧
        w'.vms.lookup i.sandboxId = some x.1 ∧ ∃ st', w'.records[x.1]? = some st' ∧
          st'.containerCount = st.containerCount)
      (fun _ w' => w' = w) w := by
  unfold CloudHvInstance.joinVm
  refine semx_bind.mpr (quiet_always (tell_quiet rfl) (fun ans => ?_) fun _ => rfl)
  refine semx_bind.mpr (quiet_always (wrap_quiet _ _) (fun pid => ?_) fun _ => rfl)
  exact ⟨rfl, hl, st, hr, rfl⟩

/-- The first container puts a new record in the place of the old one, with its count. -/
theorem acquireVm_always {r : ℕ} {st : SharedVmState} {key path : String} {config : List UInt8}
    (hr : w.records[r]? = some st) :
    semx (always perform) (i.acquireVm r st key path config) (fun x w' => w'.releases = w.releases ∧
        w'.vms.lookup i.sandboxId = some x.1 ∧ ∃ st', w'.records[x.1]? = some st' ∧
          st'.containerCount = st.containerCount)
      (fun _ w' => w' = w) w := by
  unfold CloudHvInstance.acquireVm
  refine semx_bind.mpr (semx_tell.mpr fun c ans w₁ hp => ?_)
  cases ans with
  | error e =>
    obtain rfl : w₁ = w := by
      simp only [perform] at hp
      split at hp
      · exact (Prod.mk.inj (Option.some.inj hp)).2.symm
      · split at hp
        · cases hp
        · cases hp
    exact semx_bind.mpr rfl
  | ok vm =>
    obtain ⟨h₁, rfl⟩ : ∃ h, w₁ = { w with held := h } := by
      simp only [perform] at hp
      split at hp
      · cases hp
      · split at hp
        · cases hp
        · exact ⟨_, (Prod.mk.inj (Option.some.inj hp)).2.symm⟩
    refine semx_bind.mpr ?_
    refine semx_bind.mpr (semx_tell.mpr fun c n w₂ hp => ?_)
    obtain ⟨rfl, rfl⟩ : n = st.containerCount ∧ w₂ = { w with held := h₁ } := by
      simp only [perform, hr, Option.map_some, Option.some.injEq, Prod.mk.injEq] at hp
      exact ⟨hp.1.symm, hp.2.symm⟩
    refine semx_bind.mpr (semx_tell.mpr fun c r' w₃ hp => ?_)
    obtain ⟨rfl, rfl⟩ := Prod.mk.inj (Option.some.inj hp)
    refine semx_bind.mpr (placeVm_always ⟨rfl, Finmap.lookup_insert _, _, List.getElem?_concat_length, rfl⟩)

/-- Both ways come to a record that has the place in the table, with the count found before. -/
theorem vmFor_always {r : ℕ} {st : SharedVmState} {key path : String} {config : List UInt8}
    (hl : w.vms.lookup i.sandboxId = some r) (hr : w.records[r]? = some st) :
    semx (always perform) (i.vmFor r st key path config) (fun x w' => w'.releases = w.releases ∧
        w'.vms.lookup i.sandboxId = some x.1 ∧ ∃ st', w'.records[x.1]? = some st' ∧
          st'.containerCount = st.containerCount)
      (fun _ w' => w' = w) w := by
  unfold CloudHvInstance.vmFor
  split
  · exact joinVm_always hl hr
  · exact acquireVm_always hr

theorem startContainer_always :
    semx (always perform) i.startContainer (fun _ w' => w'.releases = w.releases ∧
        ∃ n, w.count i.sandboxId = some n ∧ w'.count i.sandboxId = some ((n + 1) % usize))
      (fun _ w' => Untouched i.sandboxId w w') w := by
  have hsame : Untouched i.sandboxId w w := ⟨rfl, rfl⟩
  unfold CloudHvInstance.startContainer
  refine semx_bind.mpr (vmsGet_always (fun _ => hsame) fun r st hl hr hcount => ?_)
  refine semx_bind.mpr (tell_always rfl fun key => ?_)
  refine semx_bind.mpr (quiet_always (erofsImage_quiet key 3 0 "") (fun path => ?_) fun _ => hsame)
  refine semx_bind.mpr (tell_always rfl fun config => ?_)
  have hfin : ∀ (e : String) (w' : World), w' = w → Untouched i.sandboxId w w' := by
    rintro e w' rfl
    exact hsame
  refine semx_bind.mpr (always_semx (vmFor_always hl hr) (fun x w₁ hx => ?_) hfin)
  obtain ⟨active, state, pid⟩ := x
  obtain ⟨hrel, hl₁, st', hr₁, hst⟩ := hx
  refine semx_bind.mpr (tell_always rfl fun _ => ?_)
  refine semx_bind.mpr (semx_tell.mpr fun c n w₂ hp => ?_)
  obtain ⟨-, rfl⟩ := onCount_some (f := fun n => (n + 1) % usize) hr₁ hp
  refine ⟨hrel, st.containerCount, hcount, ?_⟩
  rw [count_set hl₁ hr₁, hst]

theorem start_always :
    semx (always perform) i.start (fun _ w' => StartedAs i w w') (fun _ w' => Untouched i.sandboxId w w') w := by
  have hsame : Untouched i.sandboxId w w := ⟨rfl, rfl⟩
  unfold CloudHvInstance.start
  refine semx_bind.mpr (tell_always rfl fun r => ?_)
  refine semx_bind.mpr (quiet_always (wrap_quiet _ _) (fun _ => ?_) fun _ => hsame)
  split
  · next hk =>
    refine always_semx startSandbox_always (fun _ w' hw => ⟨hw.1, ?_⟩) fun _ _ hw => hw
    rw [if_pos hk]
    exact hw.2
  · next hk =>
    refine always_semx startContainer_always (fun _ w' hw => ⟨hw.1, ?_⟩) fun _ _ hw => hw
    rw [if_neg hk]
    exact hw.2

/-- Releasing the VM takes the sandbox out of the table. -/
theorem releaseVm_always {st : SharedVmState} {F : String → World → Prop} :
    semx (always perform) (i.releaseVm st) (fun _ w' => w'.count i.sandboxId = none) F w := by
  unfold CloudHvInstance.releaseVm
  refine semx_bind.mpr (semx_tell.mpr fun c r w₁ hp => ?_)
  refine semx_bind.mpr (cleanupTap_always ?_)
  refine semx_tell.mpr fun c r w₂ hp => ?_
  obtain ⟨-, rfl⟩ := Prod.mk.inj (Option.some.inj hp)
  simp [World.count, Finmap.lookup_erase]

theorem killSandbox_always {st : SharedVmState} {F : String → World → Prop} :
    semx (always perform) (i.killSandbox st) (fun _ w' => w'.count i.sandboxId = none) F w := by
  unfold CloudHvInstance.killSandbox
  split
  · exact releaseVm_always
  · refine semx_bind.mpr (cleanupTap_always ?_)
    refine semx_tell.mpr fun c r w₂ hp => ?_
    obtain ⟨-, rfl⟩ := Prod.mk.inj (Option.some.inj hp)
    simp [World.count, Finmap.lookup_erase]

theorem kill_always {signal : ℕ} :
    semx (always perform) (i.kill signal)
      (fun _ w' => w'.count i.sandboxId = w.count i.sandboxId ∨ w'.count i.sandboxId = none)
      (fun _ _ => False) w := by
  unfold CloudHvInstance.kill
  refine semx_bind.mpr (vmsGet_always (fun _ => tell_always rfl fun _ => .inl rfl) fun r st hl hr hcount => ?_)
  simp only
  split
  · refine semx_bind.mpr (always_semx killSandbox_always (fun _ w' hw => ?_) fun _ _ hw => hw)
    exact tell_always rfl fun _ => .inr hw
  · exact semx_bind.mpr (tell_always rfl fun _ => .inl rfl)

/-- What a delete leaves: without a record nothing has happened, the last container releases the VM, and
another one lowers the count. -/
def DeletedAs (s : String) (w w' : World) : Prop :=
  match w.count s with
  | none => w'.releases = w.releases ∧ w'.count s = none
  | some n =>
    if n ≤ 1 then w'.count s = none
    else w'.releases = w.releases ∧ w'.count s = some ((n + (usize - 1)) % usize)

theorem delete_always :
    semx (always perform) i.delete (fun _ w' => DeletedAs i.sandboxId w w') (fun _ _ => False) w := by
  unfold CloudHvInstance.delete DeletedAs
  refine semx_bind.mpr (vmsGet_always (fun hnone => ?_) fun r st hl hr hcount => ?_)
  · rw [hnone]
    exact tell_always rfl fun _ => ⟨rfl, hnone⟩
  · rw [hcount]
    refine semx_bind.mpr (semx_tell.mpr fun c n w₁ hp => ?_)
    obtain ⟨rfl, rfl⟩ := onCount_some (f := fun n => (n + (usize - 1)) % usize) hr hp
    by_cases hle : st.containerCount ≤ 1
    · simp only [if_pos hle]
      refine semx_bind.mpr (always_semx releaseVm_always (fun _ w' hw => ?_) fun _ _ hw => hw)
      exact tell_always rfl fun _ => hw
    · simp only [if_neg hle]
      refine semx_bind.mpr (tell_always rfl fun _ => tell_always rfl fun _ => ⟨rfl, ?_⟩)
      rw [count_set hl hr]

end Calls

/-! ### Runs of calls -/

/-- An instance of the sandbox `s`: the sandbox itself, or a container of it. -/
def InPod (s : String) (i : CloudHvInstance) : Prop := i.sandboxId = s ∧ (i.isSandbox ↔ i.id = s)

instance (s : String) (i : CloudHvInstance) : Decidable (InPod s i) :=
  inferInstanceAs (Decidable (i.sandboxId = s ∧ (i.isSandbox ↔ i.id = s)))

/-- A call and whether it succeeded. -/
abbrev Done := Call × Bool

def upAfter (up : Finset String) : Done → Finset String
  | (.start i, true) => insert i.id up
  | (.delete i, _) => up.erase i.id
  | _ => up

/-- The instances that are up: the sandbox and the containers that were started with success and not
deleted since. -/
def up (H : List Done) : Finset String := H.foldl upAfter ∅

theorem up_concat (H : List Done) (d : Done) : up (H ++ [d]) = upAfter (up H) d := by
  simp [up, List.foldl_append]

def succeeded {α : Type} : Except String α → Bool
  | .ok _ => true
  | .error _ => false

/-- Calls made one after the other, each under the condition `ok`. -/
inductive Run (ok : World → List Done → Call → Prop) : World → List Done → Prop
  | init : Run ok World.new []
  | call {w w' : World} {H : List Done} {c : Call} {cs : List Choice} {r : Except String Unit} :
      Run ok w H → ok w H c → eval perform c.run.run cs w = some (r, w', []) →
      Run ok w' (H ++ [(c, succeeded r)])

/-- The condition under which the count is right: a sandbox is started when nothing is up, a container
when it is not up, and deletes are of instances that are up, or find no record. -/
def Paired (s : String) (w : World) (H : List Done) : Call → Prop
  | .start i => (up H).card + 1 < usize ∧
    if i.isSandbox then up H = ∅ else w.count s = none ∨ i.id ∉ up H
  | .delete i => w.count s = none ∨ i.id ∈ up H
  | .kill _ _ => True

instance (s : String) (w : World) (H : List Done) : (c : Call) → Decidable (Paired s w H c)
  | .start i => inferInstanceAs (Decidable ((up H).card + 1 < usize ∧
      if i.isSandbox then up H = ∅ else w.count s = none ∨ i.id ∉ up H))
  | .delete i => inferInstanceAs (Decidable (w.count s = none ∨ i.id ∈ up H))
  | .kill _ _ => inferInstanceAs (Decidable True)

/-- The count of the sandbox's record is the number of its instances that are up. -/
def Counted (s : String) (w : World) (H : List Done) : Prop := ∀ n, w.count s = some n → n = (up H).card

section Runs

variable {s : String} {w w' : World} {H : List Done} {cs : List Choice} {r : Except String Unit}

theorem sub_one_mod {n : ℕ} (h1 : 1 ≤ n) (h2 : n < usize) : (n + (usize - 1)) % usize = n - 1 := by
  have he : n + (usize - 1) = n - 1 + usize := by omega
  rw [he, Nat.add_mod_right, Nat.mod_eq_of_lt (by omega)]

theorem start_counted {i : CloudHvInstance} (hI : Counted s w H) (hpod : InPod s i)
    (hok : Paired s w H (.start i)) (he : eval perform (Call.start i).run.run cs w = some (r, w', [])) :
    Counted s w' (H ++ [(.start i, succeeded r)]) ∧ (up (H ++ [(.start i, succeeded r)])).card < usize := by
  obtain ⟨hs, hkind⟩ := hpod
  obtain ⟨hlt, hok⟩ := hok
  rw [Counted, up_concat]
  have hspec : semx (always perform) (Call.start i).run (fun _ w' => StartedAs i w w')
      (fun _ w' => Untouched i.sandboxId w w') w :=
    semx_bind.mpr (always_semx start_always (fun _ _ hw => hw) fun _ _ hw => hw)
  have hend := sem_always hspec he
  cases r with
  | error e =>
    refine ⟨fun n hn => hI n ?_, Nat.lt_of_succ_lt hlt⟩
    rw [← hs, ← hend.2, hs]
    exact hn
  | ok u =>
    obtain ⟨-, hcount⟩ := hend
    show (∀ n, w'.count s = some n → n = (insert i.id (up H)).card) ∧ (insert i.id (up H)).card < usize
    refine ⟨fun n hn => ?_, (Finset.card_insert_le _ _).trans_lt hlt⟩
    by_cases hk : i.isSandbox
    · rw [if_pos hk] at hcount hok
      rw [hkind.mp hk, hn] at hcount
      rw [hok]
      simpa using hcount
    · rw [if_neg hk] at hcount hok
      obtain ⟨m, hm, hm'⟩ := hcount
      rw [hs] at hm hm'
      have hnot : i.id ∉ up H := by
        rcases hok with hnone | hnot
        · rw [hnone] at hm
          cases hm
        · exact hnot
      obtain rfl := hI m hm
      rw [Finset.card_insert_of_notMem hnot]
      rw [hn, Nat.mod_eq_of_lt hlt] at hm'
      exact Option.some.inj hm'

theorem kill_counted {i : CloudHvInstance} {signal : ℕ} (hI : Counted s w H) (hpod : InPod s i)
    (he : eval perform (Call.kill i signal).run.run cs w = some (r, w', [])) :
    Counted s w' (H ++ [(.kill i signal, succeeded r)]) := by
  rw [Counted, up_concat]
  intro n hn
  refine hI n ?_
  have hend := sem_always kill_always he
  rw [hpod.1] at hend
  cases r with
  | error e => exact hend.elim
  | ok u =>
    rcases hend with hsame | hnone
    · rw [← hsame]
      exact hn
    · rw [hnone] at hn
      cases hn

theorem delete_counted {i : CloudHvInstance} (hI : Counted s w H) (hsize : (up H).card < usize)
    (hpod : InPod s i) (hok : Paired s w H (.delete i))
    (he : eval perform (Call.delete i).run.run cs w = some (r, w', [])) :
    Counted s w' (H ++ [(.delete i, succeeded r)]) ∧ (∀ n, w.count s = some n → 1 ≤ n) ∧
      (w'.releases ≠ w.releases → up (H ++ [(.delete i, succeeded r)]) = ∅) := by
  have hend := sem_always delete_always he
  rw [hpod.1] at hend
  rw [Counted, up_concat]
  show (∀ n, w'.count s = some n → n = ((up H).erase i.id).card) ∧ _ ∧
    (w'.releases ≠ w.releases → (up H).erase i.id = ∅)
  cases r with
  | error e => exact hend.elim
  | ok u =>
    unfold DeletedAs at hend
    cases hcount : w.count s with
    | none =>
      simp only [hcount] at hend
      refine ⟨fun n hn => ?_, fun n hn => (by cases hn), fun hrel => absurd hend.1 hrel⟩
      rw [hend.2] at hn
      cases hn
    | some m =>
      simp only [hcount] at hend
      have hmem : i.id ∈ up H := by
        rcases hok with hnone | hmem
        · rw [hcount] at hnone
          cases hnone
        · exact hmem
      have hm := hI m hcount
      have hpos : 1 ≤ m := by
        rw [hm]
        exact Finset.card_pos.mpr ⟨_, hmem⟩
      have herase : ((up H).erase i.id).card = m - 1 := by
        rw [Finset.card_erase_of_mem hmem, hm]
      refine ⟨fun n hn => ?_, fun n hn => ?_, fun hrel => ?_⟩
      · split at hend
        · rw [hend] at hn
          cases hn
        · rw [hn, sub_one_mod hpos (by omega)] at hend
          rw [herase]
          exact Option.some.inj hend.2
      · obtain rfl := Option.some.inj hn
        exact hpos
      · split at hend
        · exact Finset.card_eq_zero.mp (by omega)
        · exact absurd hend.1 hrel

theorem counted_run (h : Run (fun w H c => InPod s c.instance ∧ Paired s w H c) w H) :
    Counted s w H ∧ (up H).card < usize := by
  induction h with
  | init => exact ⟨fun n hn => (by cases hn), by simp [up, usize]⟩
  | @call w w' H c cs r _ hok he ih =>
    obtain ⟨hI, hsize⟩ := ih
    cases c with
    | start i => exact start_counted hI hok.1 hok.2 he
    | kill i signal =>
      refine ⟨kill_counted hI hok.1 he, ?_⟩
      rw [up_concat]
      exact hsize
    | delete i =>
      refine ⟨(delete_counted hI hsize hok.1 hok.2 he).1, ?_⟩
      rw [up_concat]
      exact (Finset.card_le_card (Finset.erase_subset _ _)).trans_lt hsize

/-- **The count and the release of the VM.**  In every run of calls on the instances of a sandbox whose
starts and deletes are paired: the sandbox's count is the number of its instances that are up, and a
delete that finds a record finds a positive count and sends ReleaseSandbox only when nothing is left
up. -/
theorem count_eq_up (h : Run (fun w H c => InPod s c.instance ∧ Paired s w H c) w H) :
    Counted s w H ∧ ∀ i cs r w', InPod s i → Paired s w H (.delete i) →
      eval perform (Call.delete i).run.run cs w = some (r, w', []) →
      (∀ n, w.count s = some n → 1 ≤ n) ∧
        (w'.releases ≠ w.releases → up (H ++ [(.delete i, succeeded r)]) = ∅) := by
  obtain ⟨hI, hsize⟩ := counted_run h
  exact ⟨hI, fun i cs r w' hpod hok he => (delete_counted hI hsize hpod hok he).2⟩

end Runs

/-! ### Two runs -/

/-- Make the calls one after the other, as long as they meet `ok`. -/
def makeCalls (ok : World → List Done → Call → Bool) :
    List (Call × List Choice) → World → List Done → Option (World × List Done)
  | [], w, H => some (w, H)
  | (c, cs) :: rest, w, H =>
    match eval perform c.run.run cs w with
    | some (r, w', []) => if ok w H c then makeCalls ok rest w' (H ++ [(c, succeeded r)]) else none
    | _ => none

theorem run_of_makeCalls {ok : World → List Done → Call → Bool} {P : World → List Done → Call → Prop}
    (hok : ∀ w H c, ok w H c = true → P w H c) {calls : List (Call × List Choice)} {w w' : World}
    {H H' : List Done} (h0 : Run P w H) (h : makeCalls ok calls w H = some (w', H')) : Run P w' H' := by
  induction calls generalizing w H with
  | nil =>
    obtain ⟨rfl, rfl⟩ := Prod.mk.inj (Option.some.inj h)
    exact h0
  | cons d calls ih =>
    obtain ⟨c, cs⟩ := d
    simp only [makeCalls] at h
    split at h
    · next r w₁ he =>
      split at h
      · next hc => exact ih (h0.call (hok w H c hc) he) h
      · cases h
    · cases h

/-- The sandbox `pod`. -/
def pod : CloudHvInstance := .new "pod" ⟨some "sandbox", some "pod", none, none⟩

/-- A container of it. -/
def ctr (id : String) : CloudHvInstance := .new id ⟨some "container", some "pod", none, none⟩

def fine (n : ℕ) : List Choice := List.replicate n (Choice.fine "vm")

/-- A sandbox with one running container, and a delete of a container that was never started. -/
def strayDelete : List (Call × List Choice) :=
  [(.start pod, fine 4), (.start (ctr "web"), fine 10), (.delete (ctr "new"), fine 4)]

/-- A call has succeeded with all of its choices, in a world that passes the test. -/
def endsIn (test : World → Bool) : Option (Except String Unit × World × List Choice) → Bool
  | some (.ok (), w', []) => test w'
  | _ => false

theorem of_endsIn {test : World → Bool} {res : Option (Except String Unit × World × List Choice)}
    (h : endsIn test res = true) : ∃ w', res = some (.ok (), w', []) ∧ test w' = true := by
  unfold endsIn at h
  split at h
  · exact ⟨_, rfl, h⟩
  · cases h

/-- A second delete of that kind releases the VM under the running container. -/
theorem stray_delete_releases : ∃ w H, Run (fun _ _ c => InPod "pod" c.instance) w H ∧
    ¬ Counted "pod" w H ∧ ∃ w', eval perform (Call.delete (ctr "late")).run.run (fine 5) w = some (.ok (), w', []) ∧
      w'.releases ≠ w.releases ∧ "web" ∈ up (H ++ [(.delete (ctr "late"), true)]) := by
  have hrun : (makeCalls (fun _ _ c => decide (InPod "pod" c.instance)) strayDelete World.new []).any
      (fun q => decide (q.1.count "pod" = some 1 ∧ (up q.2).card = 2) &&
        endsIn (fun w' => decide (w'.releases ≠ q.1.releases ∧ "web" ∈ up (q.2 ++ [(.delete (ctr "late"), true)])))
          (eval perform (Call.delete (ctr "late")).run.run (fine 5) q.1)) = true := by
    decide +kernel
  obtain ⟨⟨w, H⟩, hm, hP⟩ := (Option.any_eq_true _ _).mp hrun
  obtain ⟨hcount, hdel⟩ := Bool.and_eq_true_iff.mp hP
  obtain ⟨hone, htwo⟩ : w.count "pod" = some 1 ∧ (up H).card = 2 := of_decide_eq_true hcount
  refine ⟨w, H, run_of_makeCalls (fun _ _ _ hc => of_decide_eq_true hc) .init hm, fun hC => ?_, ?_⟩
  · have := hC 1 hone
    omega
  · obtain ⟨w', he, htest⟩ := of_endsIn hdel
    exact ⟨w', he, of_decide_eq_true htest⟩

/-- The container is deleted, and then the sandbox. -/
def pairedDeletes : List (Call × List Choice) :=
  [(.start pod, fine 4), (.start (ctr "web"), fine 10), (.delete (ctr "web"), fine 4)]

theorem count_eq_up_paired : ∃ w H, Run (fun w H c => InPod "pod" c.instance ∧ Paired "pod" w H c) w H ∧
    w.count "pod" = some 1 ∧ Counted "pod" w H ∧
      ∃ w', eval perform (Call.delete pod).run.run (fine 5) w = some (.ok (), w', []) ∧
        w'.releases = ["vm"] ∧ up (H ++ [(.delete pod, true)]) = ∅ := by
  have hrun : (makeCalls (fun w H c => decide (InPod "pod" c.instance ∧ Paired "pod" w H c)) pairedDeletes
      World.new []).any (fun q => decide (q.1.count "pod" = some 1 ∧ Paired "pod" q.1 q.2 (.delete pod)) &&
        endsIn (fun w' => decide (q.1.releases = [] ∧ w'.releases = ["vm"]))
          (eval perform (Call.delete pod).run.run (fine 5) q.1)) = true := by
    decide +kernel
  obtain ⟨⟨w, H⟩, hm, hP⟩ := (Option.any_eq_true _ _).mp hrun
  obtain ⟨hcount, hdel⟩ := Bool.and_eq_true_iff.mp hP
  obtain ⟨hone, hpaired⟩ : w.count "pod" = some 1 ∧ Paired "pod" w H (.delete pod) := of_decide_eq_true hcount
  have hR : Run (fun w H c => InPod "pod" c.instance ∧ Paired "pod" w H c) w H :=
    run_of_makeCalls (fun _ _ _ hc => of_decide_eq_true hc) .init hm
  obtain ⟨hC, hD⟩ := count_eq_up hR
  refine ⟨w, H, hR, hone, hC, ?_⟩
  obtain ⟨w', he, htest⟩ := of_endsIn hdel
  obtain ⟨h0, h1⟩ : w.releases = [] ∧ w'.releases = ["vm"] := of_decide_eq_true htest
  refine ⟨w', he, h1, (hD pod (fine 5) (.ok ()) w' (by decide) hpaired he).2 ?_⟩
  rw [h0, h1]
  exact List.cons_ne_nil _ _

end CloudHv.Shim
