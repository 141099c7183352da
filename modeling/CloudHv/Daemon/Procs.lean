import CloudHv.Daemon.Frame

/-!
# Procs — Cloud Hypervisor processes and their `ch.pid` files

Which processes are still to be told to terminate, and what each call of the host does to them and to
the files that name them.
-/

namespace CloudHv.Daemon

open Conc

section Files

variable {h₀ h h' : Host} {pid : ℕ}

/-- The state directory of a process, and whether it was told to terminate. -/
def Host.fate (h : Host) (pid : ℕ) : Option (Path × Bool) := (h.procs.lookup pid).map fun v => (v.dir, v.told)

/-- The state directory of a process that was started since `h₀` and not told to terminate. -/
def Host.live (h₀ h : Host) (pid : ℕ) : Option Path :=
  if pid ∈ h₀.procs then none
  else match h.fate pid with
    | some (dir, false) => some dir
    | _ => none

/-- No such process has its state directory at or below `p`. -/
def Host.spares (h₀ h : Host) (p : Path) : Bool :=
  decide (∀ pid ∈ h.procs.keys, ∀ d ∈ h₀.live h pid, ¬ p <+: d)

theorem live_of_fate (hf : h'.fate = h.fate) : h₀.live h' = h₀.live h := by
  funext pid
  rw [Host.live, Host.live, hf]

theorem mem_procs_of_fate (hf : h'.fate = h.fate) : pid ∈ h'.procs ↔ pid ∈ h.procs := by
  have hp : (h'.procs.lookup pid).map (fun v => (v.dir, v.told)) =
      (h.procs.lookup pid).map fun v => (v.dir, v.told) := congrFun hf pid
  rw [← Finmap.lookup_isSome, ← Finmap.lookup_isSome, ← Option.isSome_map, hp, Option.isSome_map]

theorem mem_procs_of_live {d : Path} (hl : h₀.live h pid = some d) : pid ∈ h.procs := by
  unfold Host.live Host.fate at hl
  cases hv : h.procs.lookup pid with
  | some v => exact Finmap.mem_of_lookup_eq_some hv
  | none => simp [hv] at hl

theorem spares_iff {p : Path} :
    h₀.spares h p = true ↔ ∀ pid d, h₀.live h pid = some d → ¬ p <+: d := by
  unfold Host.spares
  rw [decide_eq_true_iff]
  constructor
  · intro hs pid d hl
    exact hs pid (Finmap.mem_keys.mpr (mem_procs_of_live hl)) d hl
  · intro hs pid _ d hd
    exact hs pid d hd

theorem fate_setGuest (g : Agent.Guest) : (h.setGuest pid g).fate = h.fate := by
  funext p
  unfold Host.setGuest Host.fate
  split
  · next v hv =>
    by_cases hp : p = pid
    · subst hp
      simp [hv]
    · simp [Finmap.lookup_insert_of_ne _ hp]
  · rfl

theorem pidFiles_setGuest (g : Agent.Guest) : (h.setGuest pid g).pidFiles = h.pidFiles := by
  unfold Host.setGuest
  split <;> rfl

theorem fate_tell {p : ℕ} :
    (h.tell pid).fate p = if p = pid then (h.fate p).map fun x => (x.1, true) else h.fate p := by
  unfold Host.tell Host.fate
  cases hv : h.procs.lookup pid with
  | some v =>
    by_cases hp : p = pid
    · subst hp
      simp [hv]
    · simp [Finmap.lookup_insert_of_ne _ hp, hp]
  | none =>
    by_cases hp : p = pid
    · subst hp
      simp [hv]
    · simp [hp]

/-- The process with that pid is told, the others are as they were. -/
theorem live_tell {p : ℕ} : h₀.live (h.tell pid) p = if p = pid then none else h₀.live h p := by
  unfold Host.live
  rw [fate_tell]
  by_cases hp : p = pid
  · rw [if_pos hp, if_pos hp]
    cases h.fate p <;> simp
  · rw [if_neg hp, if_neg hp]

theorem mem_procs_tell {p : ℕ} : p ∈ (h.tell pid).procs ↔ p ∈ h.procs := by
  unfold Host.tell
  split
  · next v hv =>
    rw [Finmap.mem_insert]
    constructor
    · rintro (rfl | hp)
      · exact Finmap.mem_of_lookup_eq_some hv
      · exact hp
    · exact Or.inr
  · rfl

theorem pidFiles_tell : (h.tell pid).pidFiles = h.pidFiles := by
  unfold Host.tell
  split <;> rfl

/-- The processes and the `ch.pid` files are the same. -/
def Host.Same (h h' : Host) : Prop := h'.fate = h.fate ∧ h'.pidFiles = h.pidFiles

/-- The calls that are not about processes and their files. -/
theorem same_perform {a : HostAct} {c : Choice} {r : a.Answer} (hp : h.perform a c = some (r, h'))
    (hk : a.kind ∉ [.spawn, .signal, .pidFile, .remove]) : h.Same h' := by
  have hf := perform_frame (fun h => (h.fate, h.pidFiles)) hp hk
    (fun _ h pid g => by rw [fate_setGuest, pidFiles_setGuest]) (fun _ _ _ => rfl)
    (fun _ _ _ => rfl) (fun _ _ _ _ _ => rfl)
  exact Prod.mk.inj hf

theorem fate_removeDirs (dirs : List Path) : (dirs.foldl Host.removeDir h).fate = h.fate := by
  induction dirs generalizing h with
  | nil => rfl
  | cons d dirs ih => rw [List.foldl_cons, ih]; rfl

theorem pidFiles_removeDirs {dirs : List Path} {p : Path} (hd : ∀ d ∈ dirs, ¬ d <+: p) :
    (dirs.foldl Host.removeDir h).pidFiles p = h.pidFiles p := by
  induction dirs generalizing h with
  | nil => rfl
  | cons d dirs ih =>
    rw [List.foldl_cons, ih fun d' hd' => hd d' (List.mem_cons_of_mem d hd')]
    exact if_neg (hd d List.mem_cons_self)

/-- An eviction gives up directories of cached snapshots only, and only when the cache is full. -/
theorem evict_dirs {max : ℕ} {ks : List String} {m m' : Finmap (fun _ : String => SnapshotEntry)}
    {dirs : List Path} (he : evict max ks m = some (m', dirs)) :
    ∀ d ∈ dirs, ¬ m.keys.card < max ∧ ∃ k e, m.lookup k = some e ∧ e.dir = d := by
  induction ks generalizing m m' dirs with
  | nil =>
    simp only [evict] at he
    split at he
    · obtain ⟨-, rfl⟩ := Prod.mk.inj (Option.some.inj he)
      simp
    · cases he
  | cons k ks ih =>
    simp only [evict] at he
    split at he
    · cases he
    · next hfull =>
      split at he
      · split at he
        · next e m₁ dirs₁ hk hrec =>
          obtain ⟨-, rfl⟩ := Prod.mk.inj (Option.some.inj he)
          intro d hd
          refine ⟨hfull, ?_⟩
          rcases List.mem_cons.mp hd with rfl | hd
          · exact ⟨k, e, hk, rfl⟩
          · obtain ⟨-, k', e', hk', hde⟩ := ih hrec d hd
            refine ⟨k', e', ?_, hde⟩
            have hne : k' ≠ k := by
              rintro rfl
              rw [Finmap.lookup_erase] at hk'
              cases hk'
            rwa [Finmap.lookup_erase_ne hne] at hk'
        · cases he
      · cases he

end Files

end CloudHv.Daemon
