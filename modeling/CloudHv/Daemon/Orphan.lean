import CloudHv.Daemon.Charge
import CloudHv.Daemon.Procs
import CloudHv.Lib.Ledger

/-!
# Orphan — every process has someone who answers for it

Over whole runs: each process that was started and not told to terminate is in a table or with a task.
`destroy_vm` finds a process through `ch.pid` only, so this also takes that the file stays in place.
-/

namespace CloudHv.Daemon

open Conc

/-! ### Who answers for which process -/

/-- Every process that was started since `h₀` and not told to terminate has someone in `H` who answers
for it, under its state directory and (once filed) with its `ch.pid` in place. -/
structure Minded (h₀ h : Host) (H : Set Charge) : Prop where
  covers : ∀ pid d, h₀.live h pid = some d → ∃ c ∈ H, c.pid = pid
  named : ∀ c ∈ H, ∀ d, h₀.live h c.pid = some d → c.dir = d ∧ (c.filed = true → h.pidFiles d = some c.pid)
  known : ∀ c ∈ H, c.pid ∈ h.procs

namespace Minded

variable {h₀ h h' : Host} {H H' : Set Charge}

/-- Nothing is started, the files of what is left stay, and what is left has someone. -/
theorem pass (hM : Minded h₀ h H) (hlive : ∀ pid d, h₀.live h' pid = some d → h₀.live h pid = some d)
    (hfile : ∀ pid d, h₀.live h' pid = some d → h'.pidFiles d = h.pidFiles d)
    (hproc : ∀ pid, pid ∈ h'.procs ↔ pid ∈ h.procs) (hsub : H' ⊆ H)
    (hsup : ∀ c ∈ H, h₀.live h' c.pid ≠ none → ∃ c' ∈ H', c'.pid = c.pid) : Minded h₀ h' H' := by
  refine ⟨fun pid d hl => ?_, fun c hc d hl => ?_, fun c hc => (hproc _).mpr (hM.known c (hsub hc))⟩
  · obtain ⟨c, hc, rfl⟩ := hM.covers pid d (hlive pid d hl)
    exact hsup c hc (by rw [hl]; simp)
  · obtain ⟨hd, hf⟩ := hM.named c (hsub hc) d (hlive c.pid d hl)
    exact ⟨hd, fun hc' => (hfile c.pid d hl).trans (hf hc')⟩

/-- The host stays as it is. -/
theorem move (hM : Minded h₀ h H) (hsub : H' ⊆ H)
    (hsup : ∀ c ∈ H, h₀.live h c.pid ≠ none → ∃ c' ∈ H', c'.pid = c.pid) : Minded h₀ h H' :=
  hM.pass (fun _ _ hl => hl) (fun _ _ _ => rfl) (fun _ => Iff.rfl) hsub hsup

theorem same (hM : Minded h₀ h H) (hs : h.Same h') : Minded h₀ h' H := by
  refine hM.pass (fun pid d hl => ?_) (fun _ _ _ => by rw [hs.2]) (fun _ => mem_procs_of_fate hs.1)
    (fun _ hc => hc) (fun c hc _ => ⟨c, hc, rfl⟩)
  rwa [live_of_fate hs.1] at hl

end Minded

/-- The VMs in the tables and the processes of the tasks. -/
def holdings (E : Env) (p : Pool) (f : ℕ → Option Charge) : Set Charge :=
  {c | (∃ vm ∈ p.ready, chargeOf E vm = c) ∨ (∃ id vm, p.active.lookup id = some vm ∧ chargeOf E vm = c) ∨
    ∃ i, f i = some c}

section Moves

variable {E : Env} {p : Pool} {f : ℕ → Option Charge} {i : ℕ} {c : Charge}

theorem mem_holdings_update {o : Option Charge} :
    c ∈ holdings E p (Function.update f i o) ↔ (∃ vm ∈ p.ready, chargeOf E vm = c) ∨
      (∃ id vm, p.active.lookup id = some vm ∧ chargeOf E vm = c) ∨ o = some c ∨
      ∃ j, j ≠ i ∧ f j = some c :=
  or_congr Iff.rfl (or_congr Iff.rfl exists_update_iff)

/-- Everything but the process of thread `i`. -/
theorem holdings_of_slot (hc : c ∈ holdings E p f) :
    f i = some c ∨ (∃ vm ∈ p.ready, chargeOf E vm = c) ∨
      (∃ id vm, p.active.lookup id = some vm ∧ chargeOf E vm = c) ∨ ∃ j, j ≠ i ∧ f j = some c := by
  rcases hc with hr | ha | ⟨j, hj⟩
  · exact .inr (.inl hr)
  · exact .inr (.inr (.inl ha))
  · by_cases hi : j = i
    · exact .inl (hi ▸ hj)
    · exact .inr (.inr (.inr ⟨j, hi, hj⟩))

variable {h₀ h : Host}

/-- A task that drops a process that is told, or that it does not have, leaves nobody behind. -/
theorem minded_update (hM : Minded h₀ h (holdings E p f)) {o : Option Charge}
    (ho : o = none ∨ o = f i) (hi : ∀ c, f i = some c → o = none → h₀.live h c.pid = none) :
    Minded h₀ h (holdings E p (Function.update f i o)) := by
  rcases ho with rfl | rfl
  · refine hM.move (fun c hc => ?_) (fun c hc hl => ?_)
    · rcases mem_holdings_update.mp hc with hr | ha | ho | ⟨j, -, hj⟩
      · exact .inl hr
      · exact .inr (.inl ha)
      · cases ho
      · exact .inr (.inr ⟨j, hj⟩)
    · rcases holdings_of_slot (i := i) hc with hs | hrest
      · exact absurd (hi c hs rfl) hl
      · exact ⟨c, mem_holdings_update.mpr (hrest.imp_right (Or.imp_right .inr)), rfl⟩
  · rw [Function.update_eq_self]
    exact hM

theorem minded_push {vm : PoolVm} (hM : Minded h₀ h (holdings E p f)) (hi : f i = some (chargeOf E vm)) :
    Minded h₀ h (holdings E (p.perform (.readyPush vm)).2 (Function.update f i none)) := by
  refine hM.move (fun c hc => ?_) (fun c hc _ => ⟨c, mem_holdings_update.mpr ?_, rfl⟩)
  · rcases mem_holdings_update.mp hc with ⟨v, hv, rfl⟩ | ha | ho | ⟨j, -, hj⟩
    · rcases List.mem_append.mp hv with hv | hv
      · exact .inl ⟨v, hv, rfl⟩
      · rw [List.mem_singleton.mp hv]
        exact .inr (.inr ⟨i, hi⟩)
    · exact .inr (.inl ha)
    · cases ho
    · exact .inr (.inr ⟨j, hj⟩)
  · rcases holdings_of_slot (i := i) hc with hs | ⟨v, hv, hvc⟩ | ha | hj
    · rw [hi] at hs
      exact .inl ⟨vm, List.mem_append_right _ List.mem_cons_self, Option.some.inj hs⟩
    · exact .inl ⟨v, List.mem_append_left _ hv, hvc⟩
    · exact .inr (.inl ha)
    · exact .inr (.inr (.inr hj))

theorem minded_pop (hM : Minded h₀ h (holdings E p f)) (hi : f i = none) :
    Minded h₀ h (holdings E (p.perform .readyPop).2
      (Function.update f i ((p.perform .readyPop).1.map (chargeOf E)))) := by
  have hready : ∀ v, v ∈ p.ready ↔ v ∈ p.ready.dropLast ∨ p.ready.getLast? = some v := by
    intro v
    rcases List.eq_nil_or_concat p.ready with hr | ⟨l, a, hr⟩
    · simp [hr]
    · simp [hr, eq_comm]
  refine hM.move (fun c hc => ?_) (fun c hc _ => ⟨c, mem_holdings_update.mpr ?_, rfl⟩)
  · rcases mem_holdings_update.mp hc with ⟨v, hv, rfl⟩ | ha | ho | ⟨j, -, hj⟩
    · exact .inl ⟨v, (hready v).mpr (.inl hv), rfl⟩
    · exact .inr (.inl ha)
    · obtain ⟨v, hv, rfl⟩ := Option.map_eq_some_iff.mp ho
      exact .inl ⟨v, (hready v).mpr (.inr hv), rfl⟩
    · exact .inr (.inr ⟨j, hj⟩)
  · rcases holdings_of_slot (i := i) hc with hs | ⟨v, hv, rfl⟩ | ha | hj
    · rw [hi] at hs
      cases hs
    · rcases (hready v).mp hv with hv | hv
      · exact .inl ⟨v, hv, rfl⟩
      · exact .inr (.inr (.inl (Option.map_eq_some_iff.mpr ⟨v, hv, rfl⟩)))
    · exact .inr (.inl ha)
    · exact .inr (.inr (.inr hj))

theorem minded_insert {vm : PoolVm} (hM : Minded h₀ h (holdings E p f)) (hi : f i = some (chargeOf E vm))
    (hold : ∀ old, p.active.lookup vm.vmId = some old →
      old.chPid = vm.chPid ∨ h₀.live h old.chPid = none) :
    Minded h₀ h (holdings E (p.perform (.activeInsert vm)).2 (Function.update f i none)) := by
  have hself : (p.perform (.activeInsert vm)).2.active.lookup vm.vmId = some vm := Finmap.lookup_insert _
  refine hM.move (fun c hc => ?_) (fun c hc hl => ?_)
  · rcases mem_holdings_update.mp hc with hr | ⟨id, v, hv, rfl⟩ | ho | ⟨j, -, hj⟩
    · exact .inl hr
    · by_cases hid : id = vm.vmId
      · subst hid
        rw [hself] at hv
        obtain rfl := Option.some.inj hv
        exact .inr (.inr ⟨i, hi⟩)
      · exact .inr (.inl ⟨id, v, (Finmap.lookup_insert_of_ne _ hid).symm.trans hv, rfl⟩)
    · cases ho
    · exact .inr (.inr ⟨j, hj⟩)
  · have hnew : chargeOf E vm ∈ holdings E (p.perform (.activeInsert vm)).2 (Function.update f i none) :=
      .inr (.inl ⟨vm.vmId, vm, hself, rfl⟩)
    rcases holdings_of_slot (i := i) hc with hs | hr | ⟨id, v, hv, rfl⟩ | hj
    · rw [hi] at hs
      obtain rfl := Option.some.inj hs
      exact ⟨_, hnew, rfl⟩
    · exact ⟨c, .inl hr, rfl⟩
    · by_cases hid : id = vm.vmId
      · -- the replaced VM has the same process, or one that was told
        subst hid
        rcases hold v hv with he | hn
        · exact ⟨_, hnew, he.symm⟩
        · exact absurd hn hl
      · exact ⟨_, .inr (.inl ⟨id, v, (Finmap.lookup_insert_of_ne _ hid).trans hv, rfl⟩), rfl⟩
    · exact ⟨c, mem_holdings_update.mpr (.inr (.inr (.inr hj))), rfl⟩

theorem minded_remove {id : String} (hM : Minded h₀ h (holdings E p f)) (hi : f i = none) :
    Minded h₀ h (holdings E (p.perform (.activeRemove id)).2
      (Function.update f i ((p.perform (.activeRemove id)).1.map (chargeOf E)))) := by
  refine hM.move (fun c hc => ?_) (fun c hc _ => ⟨c, mem_holdings_update.mpr ?_, rfl⟩)
  · rcases mem_holdings_update.mp hc with hr | ⟨k, v, hv, rfl⟩ | ho | ⟨j, -, hj⟩
    · exact .inl hr
    · by_cases hk : k = id
      · subst hk
        rw [show (p.perform (.activeRemove k)).2.active.lookup k = none from Finmap.lookup_erase _ _] at hv
        cases hv
      · exact .inr (.inl ⟨k, v, (Finmap.lookup_erase_ne hk).symm.trans hv, rfl⟩)
    · obtain ⟨v, hv, rfl⟩ := Option.map_eq_some_iff.mp ho
      exact .inr (.inl ⟨id, v, hv, rfl⟩)
    · exact .inr (.inr ⟨j, hj⟩)
  · rcases holdings_of_slot (i := i) hc with hs | hr | ⟨k, v, hv, rfl⟩ | hj
    · rw [hi] at hs
      cases hs
    · exact .inl hr
    · by_cases hk : k = id
      · subst hk
        exact .inr (.inr (.inl (Option.map_eq_some_iff.mpr ⟨v, hv, rfl⟩)))
      · exact .inr (.inl ⟨k, v, (Finmap.lookup_erase_ne hk).trans hv, rfl⟩)
    · exact .inr (.inr (.inr hj))

theorem live_spawned {h' : Host} {pid : ℕ} {dir : Path} (hnew : pid ∉ h.procs)
    (hp : h'.procs = h.procs.insert pid ⟨dir, false, none⟩) (q : ℕ) :
    h₀.live h' q = if q = pid ∧ q ∉ h₀.procs then some dir else h₀.live h q := by
  unfold Host.live Host.fate
  rw [hp]
  by_cases hq : q = pid
  · subst hq
    have hnone : h.procs.lookup q = none := Finmap.lookup_eq_none.mpr hnew
    by_cases h0 : q ∈ h₀.procs
    · simp [h0]
    · simp [h0]
  · simp [hq, Finmap.lookup_insert_of_ne _ hq]

theorem minded_spawn {h' : Host} {pid : ℕ} {dir : Path} (hM : Minded h₀ h (holdings E p f))
    (hi : f i = none) (hnew : pid ∉ h.procs) (hp : h'.procs = h.procs.insert pid ⟨dir, false, none⟩)
    (hf : h'.pidFiles = h.pidFiles) :
    Minded h₀ h' (holdings E p (Function.update f i (some ⟨pid, dir, false⟩))) := by
  have hold : ∀ c ∈ holdings E p f, c ∈ holdings E p (Function.update f i (some ⟨pid, dir, false⟩)) := by
    intro c hc
    rcases holdings_of_slot (i := i) hc with hs | hrest
    · rw [hi] at hs
      cases hs
    · exact mem_holdings_update.mpr (hrest.imp_right (Or.imp_right .inr))
  have hcases : ∀ c ∈ holdings E p (Function.update f i (some ⟨pid, dir, false⟩)),
      c = ⟨pid, dir, false⟩ ∨ c ∈ holdings E p f := by
    intro c hc
    rcases mem_holdings_update.mp hc with hr | ha | ho | ⟨j, -, hj⟩
    · exact .inr (.inl hr)
    · exact .inr (.inr (.inl ha))
    · exact .inl (Option.some.inj ho).symm
    · exact .inr (.inr (.inr ⟨j, hj⟩))
  refine ⟨fun q d hl => ?_, fun c hc d hl => ?_, fun c hc => ?_⟩
  · rw [live_spawned hnew hp] at hl
    split at hl
    · next hq => exact ⟨⟨pid, dir, false⟩, mem_holdings_update.mpr (.inr (.inr (.inl rfl))), hq.1.symm⟩
    · obtain ⟨c, hc, hq⟩ := hM.covers q d hl
      exact ⟨c, hold c hc, hq⟩
  · rw [live_spawned hnew hp] at hl
    rcases hcases c hc with rfl | hc
    · split at hl
      · exact ⟨Option.some.inj hl, fun hf => (by cases hf)⟩
      · exact absurd (mem_procs_of_live hl) hnew
    · have hne : c.pid ≠ pid := fun he => hnew (he ▸ hM.known c hc)
      rw [if_neg fun hq => hne hq.1] at hl
      rw [hf]
      exact hM.named c hc d hl
  · rw [hp, Finmap.mem_insert]
    rcases hcases c hc with rfl | hc
    · exact .inl rfl
    · exact .inr (hM.known c hc)

theorem minded_write {h' : Host} {pid : ℕ} {dir : Path} {b : Bool} (hM : Minded h₀ h (holdings E p f))
    (hi : f i = some ⟨pid, dir, b⟩) (hp : h'.procs = h.procs)
    (hf : h'.pidFiles = Function.update h.pidFiles dir (some pid))
    (halone : ∀ q, h₀.live h q = some dir → q = pid) :
    Minded h₀ h' (holdings E p (Function.update f i (some ⟨pid, dir, true⟩))) := by
  have hlive : h₀.live h' = h₀.live h := live_of_fate (by unfold Host.fate; rw [hp])
  have hown : ⟨pid, dir, b⟩ ∈ holdings E p f := .inr (.inr ⟨i, hi⟩)
  have hnew : (⟨pid, dir, true⟩ : Charge) ∈ holdings E p (Function.update f i (some ⟨pid, dir, true⟩)) :=
    mem_holdings_update.mpr (.inr (.inr (.inl rfl)))
  refine ⟨fun q d hl => ?_, fun c hc d hl => ?_, fun c hc => ?_⟩
  · rw [hlive] at hl
    obtain ⟨c, hc, rfl⟩ := hM.covers q d hl
    rcases holdings_of_slot (i := i) hc with hs | hrest
    · rw [hi] at hs
      obtain rfl := Option.some.inj hs
      exact ⟨_, hnew, rfl⟩
    · exact ⟨c, mem_holdings_update.mpr (hrest.imp_right (Or.imp_right .inr)), rfl⟩
  · rw [hlive] at hl
    have hcase : c = ⟨pid, dir, true⟩ ∨ c ∈ holdings E p f := by
      rcases mem_holdings_update.mp hc with hr | ha | ho | ⟨j, -, hj⟩
      · exact .inr (.inl hr)
      · exact .inr (.inr (.inl ha))
      · exact .inl (Option.some.inj ho).symm
      · exact .inr (.inr (.inr ⟨j, hj⟩))
    rcases hcase with rfl | hc
    · obtain ⟨hd, -⟩ := hM.named _ hown d hl
      have hd' : dir = d := hd
      exact ⟨hd', fun _ => by rw [hf, hd', Function.update_self]⟩
    · obtain ⟨hd, hfile⟩ := hM.named c hc d hl
      refine ⟨hd, fun hc' => ?_⟩
      rw [hf]
      by_cases he : d = dir
      · subst he
        rw [Function.update_self, halone c.pid hl]
      · rw [Function.update_of_ne he]
        exact hfile hc'
  · rw [hp]
    rcases mem_holdings_update.mp hc with hr | ha | ho | ⟨j, -, hj⟩
    · exact hM.known c (.inl hr)
    · exact hM.known c (.inr (.inl ha))
    · rw [← Option.some.inj ho]
      exact hM.known ⟨pid, dir, b⟩ hown
    · exact hM.known c (.inr (.inr ⟨j, hj⟩))

end Moves

/-! ### Runs -/

/-- The steps that lose no process: none fails in a task that answers for one (a guest network that
cannot be configured apart); `ch.pid` is not written in the state directory of another process that was
not told to terminate, no directory with such a state directory is removed, and no VM goes into `active`
in place of the VM of such a process. -/
def losesNone (E : Env) (h₀ : Host) (x : DaemonConf) : Event Action Answer Task → Bool
  | .arrive _ => true
  | .act i a r => ((mindedBy E x i).isNone || !lapse a r) && match a, r with
    | .host (.writePid dir pid), _ =>
      decide (∀ q ∈ x.shared.host.procs.keys, h₀.live x.shared.host q = some dir → q = pid)
    | .host (.removeDirAll p), _ => h₀.spares x.shared.host p
    | .pool (.activeInsert vm), _ =>
      (x.shared.pool.active.lookup vm.vmId).all fun old =>
        decide (old.chPid = vm.chPid ∨ h₀.live x.shared.host old.chPid = none)
    | .snap (.hasSnapshot key _), r =>
      (x.shared.snapshots.entries.lookup key).all fun e => r.1 || h₀.spares x.shared.host e.dir
    | .snap (.cacheSnapshot _ _ _), _ =>
      decide (x.shared.snapshots.entries.keys.card < E.cfg.maxSnapshots) ||
        decide (∀ k ∈ x.shared.snapshots.entries.keys, ∀ e ∈ x.shared.snapshots.entries.lookup k,
          h₀.spares x.shared.host e.dir = true)
    | _, _ => true

def MindInv (E : Env) (h₀ : Host) (w : World) (gs : List (Option Charge)) : Prop :=
  Minded h₀ w.host (holdings E w.pool (slots id gs)) ∧
    ∀ key vm, w.pool.active.lookup key = some vm → vm.vmId = key

section Step

variable {E : Env} {h₀ : Host} {x : DaemonConf} {f : ℕ → Option Charge} {i : ℕ} {g : Option Charge}
  {c : Choice} {w' : World}

theorem minded_pool {b : PoolAct} (hM : Minded h₀ x.shared.host (holdings E x.shared.pool f)) (hi : f i = g)
    (hreq : (minding E).req g (.pool b)) (hok : losesNone E h₀ x (.act i (.pool b) (x.shared.pool.perform b).1) = true) :
    Minded h₀ x.shared.host (holdings E (x.shared.pool.perform b).2
      (Function.update f i ((minding E).upd g (.pool b) (x.shared.pool.perform b).1))) := by
  cases b with
  | readyPop => exact minded_pop hM (hi.trans hreq)
  | readyPush vm => exact minded_push hM (hi.trans hreq)
  | activeInsert vm =>
    refine minded_insert hM (hi.trans hreq) fun old hold => ?_
    simp only [losesNone, Bool.and_eq_true, hold, Option.all_some, decide_eq_true_eq] at hok
    exact hok.2
  | activeRemove id => exact minded_remove hM (hi.trans hreq)
  | _ =>
    show Minded h₀ x.shared.host (holdings E _ (Function.update f i g))
    rw [← hi, Function.update_eq_self]
    exact hM

theorem minded_removeDirs {h : Host} {H : Set Charge} (dirs : List Path) (hM : Minded h₀ h H)
    (hd : ∀ d ∈ dirs, h₀.spares h d = true) : Minded h₀ (dirs.foldl Host.removeDir h) H := by
  have hlive : h₀.live (dirs.foldl Host.removeDir h) = h₀.live h := live_of_fate (fate_removeDirs dirs)
  refine hM.pass (fun pid d hl => ?_) (fun pid d hl => ?_)
    (fun pid => mem_procs_of_fate (fate_removeDirs dirs)) (fun c hc => hc) fun c hc _ => ⟨c, hc, rfl⟩
  · rwa [hlive] at hl
  · rw [hlive] at hl
    exact pidFiles_removeDirs fun q hq => spares_iff.mp (hd q hq) pid d hl

theorem minded_host {b : HostAct} {r : b.Answer} {h' : Host}
    (hM : Minded h₀ x.shared.host (holdings E x.shared.pool f)) (hi : f i = g)
    (hmind : mindedBy E x i = g) (hreq : (minding E).req g (.host b))
    (hp : x.shared.host.perform b c = some (r, h')) (hok : losesNone E h₀ x (.act i (.host b) r) = true) :
    Minded h₀ h' (holdings E x.shared.pool (Function.update f i ((minding E).upd g (.host b) r))) := by
  have hsame : ∀ h₁, x.shared.host.Same h₁ → (minding E).upd g (.host b) r = g →
      Minded h₀ h₁ (holdings E x.shared.pool (Function.update f i ((minding E).upd g (.host b) r))) := by
    intro h₁ hs hu
    rw [hu, ← hi, Function.update_eq_self]
    exact hM.same hs
  cases b with
  | spawnCh dir =>
    simp only [Host.perform] at hp
    split at hp
    · obtain ⟨rfl, rfl⟩ := Prod.mk.inj (Option.some.inj hp)
      exact hsame _ ⟨rfl, rfl⟩ rfl
    · split at hp
      · cases hp
      · next hnew =>
        obtain ⟨rfl, rfl⟩ := Prod.mk.inj (Option.some.inj hp)
        exact minded_spawn hM (hi.trans hreq) hnew rfl rfl
  | writePid dir pid =>
    obtain ⟨b, hg⟩ := hreq
    simp only [Host.perform] at hp
    split at hp
    · obtain ⟨rfl, rfl⟩ := Prod.mk.inj (Option.some.inj hp)
      exact hsame _ ⟨rfl, rfl⟩ rfl
    · obtain ⟨rfl, rfl⟩ := Prod.mk.inj (Option.some.inj hp)
      refine minded_write hM (hi.trans hg) rfl rfl fun q hq => ?_
      simp only [losesNone, Bool.and_eq_true, decide_eq_true_eq] at hok
      exact hok.2 q (Finmap.mem_keys.mpr (mem_procs_of_live hq)) hq
  | readPid dir =>
    obtain ⟨rfl, rfl⟩ := Prod.mk.inj (Option.some.inj hp)
    refine minded_update hM ?_ fun q hq hnone => ?_
    · rw [hi]
      cases g with
      | none => exact .inl rfl
      | some q =>
        simp only [minding, Charge.upd, Option.filter_some]
        exact (ite_eq_or_eq _ _ _).symm
    · -- a process that was not told is the one its file names
      obtain rfl := hq.symm.trans hi
      rcases hreq with hn | ⟨pid, hpid⟩
      · cases hn
      · obtain rfl := Option.some.inj hpid
        by_contra hl
        obtain ⟨d, hd⟩ := Option.ne_none_iff_exists'.mp hl
        obtain ⟨hdir, hfile⟩ := hM.named _ (.inr (.inr ⟨i, hq⟩)) d hd
        simp only at hdir
        subst hdir
        simp only [losesNone, hmind, Bool.and_true, Option.isNone_some, Bool.false_or, lapse, failed,
          HostAct.failed] at hok
        cases he : c.err with
        | some e => simp [he] at hok
        | none => simp [minding, Charge.upd, he, hfile rfl] at hnone
  | sigterm pid =>
    obtain ⟨-, rfl⟩ := Prod.mk.inj (Option.some.inj hp)
    have htold : Minded h₀ (x.shared.host.tell pid) (holdings E x.shared.pool f) := by
      refine hM.pass (fun q d hl => ?_) (fun _ _ _ => by rw [pidFiles_tell]) (fun q => mem_procs_tell)
        (fun q hq => hq) fun q hq _ => ⟨q, hq, rfl⟩
      rw [live_tell] at hl
      split at hl
      · cases hl
      · exact hl
    refine minded_update htold (.inl rfl) fun q hq _ => ?_
    rw [hi] at hq
    rcases hreq with hn | ⟨dir, b, hg⟩
    · rw [hn] at hq
      cases hq
    · rw [hg] at hq
      obtain rfl := Option.some.inj hq
      rw [live_tell, if_pos rfl]
  | awaitGone pid =>
    obtain ⟨-, rfl⟩ := Prod.mk.inj (Option.some.inj hp)
    exact hsame _ ⟨rfl, rfl⟩ rfl
  | sigkill pid =>
    obtain ⟨-, rfl⟩ := Prod.mk.inj (Option.some.inj hp)
    exact hsame _ ⟨rfl, rfl⟩ rfl
  | removeDirAll q =>
    obtain ⟨-, rfl⟩ := Prod.mk.inj (Option.some.inj hp)
    show Minded h₀ _ (holdings E x.shared.pool (Function.update f i g))
    rw [← hi, Function.update_eq_self]
    simp only [losesNone, Bool.and_eq_true] at hok
    split
    · exact hM
    · exact minded_removeDirs [q] hM fun d hd => by rw [List.mem_singleton.mp hd]; exact hok.2
  | _ => exact hsame _ (same_perform hp (by simp [HostAct.kind])) rfl

theorem minded_snap {b : SnapAct} {r : b.Answer} {s : Snapshots} {dirs : List Path}
    (hM : Minded h₀ x.shared.host (holdings E x.shared.pool f))
    (hp : x.shared.snapshots.perform E.cfg x.shared.host.mtimes b c = some (r, s, dirs))
    (hok : losesNone E h₀ x (.act i (.snap b) r) = true) :
    Minded h₀ (dirs.foldl Host.removeDir x.shared.host) (holdings E x.shared.pool f) := by
  have hnil : ∀ {α : Type} {y z : α} {s' : Snapshots}, some (y, s', ([] : List Path)) = some (z, s, dirs) →
      Minded h₀ (dirs.foldl Host.removeDir x.shared.host) (holdings E x.shared.pool f) := by
    intro α y z s' he
    obtain ⟨-, -, rfl⟩ := by simpa using he
    exact hM
  cases b with
  | hasSnapshot key erofs =>
    simp only [Snapshots.perform] at hp
    split at hp
    · exact hnil hp
    · next e he =>
      split at hp
      · simp only [Option.some.injEq, Prod.mk.injEq] at hp
        obtain ⟨rfl, -, rfl⟩ := hp
        refine minded_removeDirs _ hM fun d hd => ?_
        rw [List.mem_singleton.mp hd]
        simp only [losesNone, he, Option.all_some, Bool.false_or, Bool.and_eq_true] at hok
        exact hok.2
      · exact hnil hp
  | cacheSnapshot key dir mtime =>
    simp only [Snapshots.perform] at hp
    split at hp
    · cases hp
    · next m dirs' hev =>
      simp only [Option.some.injEq, Prod.mk.injEq] at hp
      obtain ⟨-, -, rfl⟩ := hp
      refine minded_removeDirs _ hM fun d hd => ?_
      obtain ⟨hfull, k, e, hk, rfl⟩ := evict_dirs hev d hd
      simp only [losesNone, Bool.and_eq_true, Bool.or_eq_true, decide_eq_true_eq] at hok
      rcases hok.2 with hlt | hall
      · exact absurd hlt hfull
      · exact hall k (Finmap.mem_keys.mpr (Finmap.mem_of_lookup_eq_some hk)) e hk
  | getSnapshotDir key =>
    simp only [Snapshots.perform] at hp
    split at hp <;> exact hnil hp
  | _ => exact hnil hp

/-- Actions outside the pool, the host and the snapshot tables. -/
theorem minded_other {a : Action} {r : Answer a} (hp : perform E x.shared a c = some (r, w'))
    (ha : a.kind ∈ [.registry, .counter, .task, .listen, .panic, .reply, .outside])
    (hpool : ∀ b, a ≠ .pool b) :
    x.shared.host.Same w'.host ∧ w'.pool = x.shared.pool ∧ (minding E).upd g a r = g := by
  cases a with
  | pool b => exact absurd rfl (hpool b)
  | host b => cases b <;> simp [Action.kind, HostAct.kind] at ha
  | snap b => simp [Action.kind] at ha
  | bindSocket => rcases perform_bind hp with rfl | rfl <;> exact ⟨⟨rfl, rfl⟩, rfl, rfl⟩
  | reply resp =>
    obtain ⟨-, rfl⟩ := Prod.mk.inj (Option.some.inj hp)
    cases resp <;> exact ⟨⟨rfl, rfl⟩, rfl, rfl⟩
  | _ =>
    obtain ⟨-, rfl⟩ := Prod.mk.inj (Option.some.inj hp)
    exact ⟨⟨rfl, rfl⟩, rfl, rfl⟩

theorem minded_step {a : Action} {r : Answer a} (hM : Minded h₀ x.shared.host (holdings E x.shared.pool f))
    (hi : f i = g) (hmind : mindedBy E x i = g) (hreq : (minding E).req g a)
    (hp : perform E x.shared a c = some (r, w')) (hok : losesNone E h₀ x (.act i a r) = true) :
    Minded h₀ w'.host (holdings E w'.pool (Function.update f i ((minding E).upd g a r))) := by
  have hrest : x.shared.host.Same w'.host ∧ w'.pool = x.shared.pool ∧ (minding E).upd g a r = g →
      Minded h₀ w'.host (holdings E w'.pool (Function.update f i ((minding E).upd g a r))) := by
    rintro ⟨hs, hpool, hu⟩
    rw [hpool, hu, ← hi, Function.update_eq_self]
    exact hM.same hs
  cases a with
  | pool b =>
    obtain ⟨rfl, rfl⟩ := perform_pool hp
    have hhost : (x.shared.takeBack b).host = x.shared.host := by cases b <;> rfl
    show Minded h₀ (x.shared.takeBack b).host _
    rw [hhost]
    exact minded_pool hM hi hreq hok
  | host b =>
    obtain ⟨h', hp', rfl⟩ := perform_host hp
    exact minded_host hM hi hmind hreq hp' hok
  | snap b =>
    obtain ⟨s, dirs, hp', rfl⟩ := perform_snap hp
    show Minded h₀ _ (holdings E x.shared.pool (Function.update f i g))
    rw [← hi, Function.update_eq_self]
    exact minded_snap hM hp' hok
  | _ => exact hrest (minded_other hp (by simp [Action.kind]) (by simp))

/-- A VM is in `active` under its own id. -/
theorem active_ids {a : Action} {r : Answer a}
    (hI : ∀ key vm, x.shared.pool.active.lookup key = some vm → vm.vmId = key)
    (hp : perform E x.shared a c = some (r, w')) :
    ∀ key vm, w'.pool.active.lookup key = some vm → vm.vmId = key := by
  by_cases hb : ∃ b, a = .pool b
  · obtain ⟨b, rfl⟩ := hb
    obtain ⟨-, rfl⟩ := perform_pool hp
    cases b with
    | activeInsert v =>
      intro key vm hv
      have hv' : (x.shared.pool.active.insert v.vmId v).lookup key = some vm := hv
      by_cases hk : key = v.vmId
      · subst hk
        rw [Finmap.lookup_insert] at hv'
        obtain rfl := Option.some.inj hv'
        rfl
      · rw [Finmap.lookup_insert_of_ne _ hk] at hv'
        exact hI key vm hv'
    | activeRemove k =>
      intro key vm hv
      have hv' : (x.shared.pool.active.erase k).lookup key = some vm := hv
      by_cases hk : key = k
      · subst hk
        rw [Finmap.lookup_erase] at hv'
        cases hv'
      · rw [Finmap.lookup_erase_ne hk] at hv'
        exact hI key vm hv'
    | _ => exact hI
  · rw [pool_frame hp fun b he => hb ⟨b, he⟩]
    exact hI

theorem mind_step {gs : List (Option Charge)} {a : Action} {r : Answer a} (hI : MindInv E h₀ x.shared gs)
    (hi : gs[i]? = some g) (hmind : mindedBy E x i = g) (hreq : (minding E).req g a)
    (hp : perform E x.shared a c = some (r, w')) (hok : losesNone E h₀ x (.act i a r) = true) :
    (minding E).may g a r ∧
      MindInv E h₀ w' (gs.set i ((minding E).upd g a r) ++ (spawned a r).map fun _ => none) := by
  obtain ⟨hM, hids⟩ := hI
  refine ⟨⟨fun hne => ?_, ?_⟩, ?_, active_ids hids hp⟩
  · simp only [losesNone, Bool.and_eq_true, Bool.or_eq_true] at hok
    rcases hok.1 with hn | hl
    · rw [hmind] at hn
      exact absurd (Option.isNone_iff_eq_none.mp hn) hne
    · simpa using hl
  · by_cases hrem : ∃ key, a = .pool (.activeRemove key)
    · obtain ⟨key, rfl⟩ := hrem
      obtain ⟨rfl, -⟩ := perform_pool hp
      exact fun vm hvm => hids key vm hvm
    · cases a with
      | pool b => cases b <;> first | exact trivial | exact absurd ⟨_, rfl⟩ hrem
      | _ => exact trivial
  · have hnew : ∀ n ∈ (spawned a r).map (fun _ => (none : Option Charge)), id n = none := by
      intro n hn
      obtain ⟨t, -, rfl⟩ := List.mem_map.mp hn
      rfl
    rw [slots_set hi _ hnew]
    exact minded_step hM (slots_of_getElem? hi) hmind hreq hp hok

end Step

theorem mindedBy_eq {E : Env} {x : DaemonConf} {i : ℕ} {g : Option Charge}
    (hi : (x.threads.map (System.ghost (minding E) fun _ => none))[i]? = some g) : mindedBy E x i = g := by
  rw [List.getElem?_map, Option.map_eq_some_iff] at hi
  obtain ⟨t, ht, rfl⟩ := hi
  rw [mindedBy, ht, Option.bind_some]

theorem mind_inv {E : Env} {h : Host} {x : DaemonConf}
    (hx : (daemon E).Reach (fun x e => losesNone E h x e = true) (boot E h) x) :
    MindInv E h x.shared (x.threads.map (System.ghost (minding E) fun _ => none)) ∧
      ∀ t ∈ x.threads, wp (minding E) t.prog (fun _ g => g = none)
        (System.ghost (minding E) (fun _ => none) t) := by
  refine System.Reach.inv (MindInv E h) (fun g => g = none) (fun t => body_minding t) ?_ ?_ ?_ ?_ hx
  · have hnone : ∀ g ∈ (boot E h).threads.map (System.ghost (minding E) fun _ => none), id g = none := by
      intro g hg
      rw [List.mem_singleton.mp hg]
      rfl
    have hlive : ∀ pid, h.live h pid = none := by
      intro pid
      unfold Host.live
      split
      · rfl
      · next hp => rw [Host.fate, Finmap.lookup_eq_none.mpr hp]; rfl
    have hempty : ∀ q, q ∉ holdings E (boot E h).shared.pool
        (slots id ((boot E h).threads.map (System.ghost (minding E) fun _ => none))) := by
      rw [slots_of_none hnone]
      rintro q (⟨vm, hv, -⟩ | ⟨key, vm, hv, -⟩ | ⟨i, hi⟩)
      · cases hv
      · cases hv
      · cases hi
    refine ⟨⟨fun pid d hl => ?_, fun q hq => absurd hq (hempty q), fun q hq => absurd hq (hempty q)⟩,
      fun key vm hv => (by cases hv)⟩
    rw [show h.live (boot E h).shared.host pid = none from hlive pid] at hl
    cases hl
  · intro t ht
    simp only [boot, System.init, List.mem_singleton] at ht
    subst ht
    exact body_minding .main
  · intro x t hI _ _
    have hnew : ∀ n ∈ [(none : Option Charge)], id n = none := by simp
    refine ⟨?_, hI.2⟩
    rw [slots_append hnew]
    exact hI.1
  · intro x i g a c r w' hI hi hreq hp hok
    exact mind_step hI hi (mindedBy_eq hi) hreq hp hok

/-- **No orphan processes.**  In every run whose steps lose no process, in every state where nothing is
in flight, each Cloud Hypervisor process that the daemon started and that was not told to terminate is
the process of a VM in `ready` or `active`. -/
theorem no_orphans {E : Env} {h : Host} {x : DaemonConf}
    (hx : (daemon E).Reach (fun x e => losesNone E h x e = true) (boot E h) x) (hq : x.quiet = true) :
    ∀ pid v, x.shared.host.procs.lookup pid = some v → pid ∉ h.procs → v.told = false →
      (∃ vm ∈ x.shared.pool.ready, vm.chPid = pid) ∨
        ∃ id vm, x.shared.pool.active.lookup id = some vm ∧ vm.chPid = pid := by
  intro pid v hv hnew htold
  obtain ⟨⟨hM, -⟩, hW⟩ := mind_inv hx
  have hl : h.live x.shared.host pid = some v.dir := by
    rw [Host.live, if_neg hnew, Host.fate, hv, Option.map_some, htold]
  have hnone : ∀ g ∈ x.threads.map (System.ghost (minding E) fun _ => none), id g = none :=
    System.fin_of_quiet hq hW
  obtain ⟨c, hc, rfl⟩ := hM.covers pid v.dir hl
  rw [slots_of_none hnone] at hc
  rcases hc with ⟨vm, hvm, rfl⟩ | ⟨key, vm, hvm, rfl⟩ | ⟨i, hi⟩
  · exact .inl ⟨vm, hvm, rfl⟩
  · exact .inr ⟨key, vm, hvm, rfl⟩
  · cases hi

/-! ### Two runs -/

/-- The agent of the one VM of the pool does not answer. -/
def failedRestore : List (Label Choice Task) :=
  steps 0 10 100 ++ [.sched 0 { Choice.fine 100 with flag := false }] ++ steps 0 1 100

/-- A restore that fails after its process was started leaves the process behind. -/
theorem failed_restore_orphans : ∃ x, (daemon poolOfOne).Reach (fun _ _ => True)
    (boot poolOfOne (Host.withBase poolOfOne)) x ∧ x.quiet = true ∧
    ¬ ∀ pid v, x.shared.host.procs.lookup pid = some v → pid ∉ (Host.withBase poolOfOne).procs →
      v.told = false → (∃ vm ∈ x.shared.pool.ready, vm.chPid = pid) ∨
        ∃ id vm, x.shared.pool.active.lookup id = some vm ∧ vm.chPid = pid := by
  have hrun : ((daemon poolOfOne).exec (fun _ _ => true) (boot poolOfOne (Host.withBase poolOfOne))
      failedRestore).any (fun x => x.quiet && ((x.shared.host.fate 100) == some (["s", "pool-7-3"], false)) &&
        x.shared.pool.ready.isEmpty && decide (x.shared.pool.active = ∅)) = true := by
    decide +kernel
  obtain ⟨x, hx, hP⟩ := System.exists_reach hrun
  simp only [Bool.and_eq_true, beq_iff_eq, decide_eq_true_eq, List.isEmpty_iff] at hP
  obtain ⟨⟨⟨hq, hfate⟩, hready⟩, hactive⟩ := hP
  refine ⟨x, hx.mono fun _ _ _ => trivial, hq, fun hall => ?_⟩
  obtain ⟨v, hv, hvf⟩ := Option.map_eq_some_iff.mp hfate
  rcases hall 100 v hv (by simp [Host.withBase, Host.clean, Finmap.notMem_empty]) (Prod.mk.inj hvf).2 with
    ⟨vm, hvm, -⟩ | ⟨id, vm, hvm, -⟩
  · rw [hready] at hvm
    cases hvm
  · rw [hactive, Finmap.lookup_empty] at hvm
    cases hvm

/-- A VM in `active`, one in `ready`, and one that was released. -/
def acquireReleaseAcquire : List (Label Choice Task) :=
  steps 0 13 100 ++ [.arrive bareAcquire] ++ steps 1 5 101 ++ steps 2 13 101 ++
    [.arrive (.request (.releaseSandbox "pool-7-3"))] ++ steps 3 8 103 ++ [.arrive bareAcquire] ++
    steps 4 5 103 ++ steps 5 13 103

theorem no_orphans_released : ∃ x, (daemon poolOfOne).Reach
    (fun x e => losesNone poolOfOne (Host.withBase poolOfOne) x e = true)
    (boot poolOfOne (Host.withBase poolOfOne)) x ∧ x.quiet = true ∧
    x.shared.host.procs.keys = {100, 101, 103} ∧
    ∀ pid v, x.shared.host.procs.lookup pid = some v → pid ∉ (Host.withBase poolOfOne).procs →
      v.told = false → (∃ vm ∈ x.shared.pool.ready, vm.chPid = pid) ∨
        ∃ id vm, x.shared.pool.active.lookup id = some vm ∧ vm.chPid = pid := by
  have hrun : ((daemon poolOfOne).exec (losesNone poolOfOne (Host.withBase poolOfOne))
      (boot poolOfOne (Host.withBase poolOfOne)) acquireReleaseAcquire).any
      (fun x => x.quiet && decide (x.shared.host.procs.keys = {100, 101, 103})) = true := by
    decide +kernel
  obtain ⟨x, hx, hP⟩ := System.exists_reach hrun
  simp only [Bool.and_eq_true, decide_eq_true_eq] at hP
  exact ⟨x, hx, hP.1, hP.2, no_orphans hx hP.1⟩

end CloudHv.Daemon
