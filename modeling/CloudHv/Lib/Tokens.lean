import CloudHv.Lib.Threads
import Mathlib.Data.List.Nodup
import Mathlib.Algebra.Order.BigOperators.Group.List
import Mathlib.Algebra.Order.Monoid.Canonical.Defs
import Mathlib.Algebra.Order.Ring.Nat

/-!
# Tokens — things that are in one place at a time

Threads draw tokens, put them into a shared table and take them out again.  `Single table hand gs`: no token is
twice in the table, with two threads (`hand` is what a thread has), or in both.  A thread that only passes tokens
between the table and its hands keeps this (`Single.pass`), and so does one that draws a token nobody has
(`Single.draw`).
-/

namespace Conc

variable {γ κ : Type} [DecidableEq κ]

def Single (table : List κ) (hand : γ → List κ) (gs : List γ) : Prop :=
  ∀ k, table.count k + (gs.map fun g => (hand g).count k).sum ≤ 1

namespace Single

variable {table table' : List κ} {hand : γ → List κ} {gs : List γ} {i : ℕ} {g g' : γ} {k : κ}

/-- What thread `i` puts down is in the table, and what it takes is there no more. -/
theorem pass (h : Single table hand gs) (hi : gs[i]? = some g)
    (hsame : ∀ k, table'.count k + (hand g').count k = table.count k + (hand g).count k) :
    Single table' hand (gs.set i g') := by
  intro k
  have hsum := sum_map_set (fun g => (hand g).count k) hi g'
  have hk := h k
  have hs := hsame k
  omega

/-- Thread `i` draws a token that is nowhere. -/
theorem draw (h : Single table hand gs) (hi : gs[i]? = some g) (hcount : ∀ k', (hand g').count k' =
    (hand g).count k' + if k' = k then 1 else 0) (htable : k ∉ table) (hhands : ∀ u ∈ gs, k ∉ hand u) :
    Single table hand (gs.set i g') := by
  intro k'
  have hsum := sum_map_set (fun g => (hand g).count k') hi g'
  have hk := h k'
  have hc := hcount k'
  by_cases he : k' = k
  · subst he
    have hzero : (gs.map fun g => (hand g).count k').sum = 0 := by
      refine List.sum_eq_zero fun n hn => ?_
      obtain ⟨u, hu, rfl⟩ := List.mem_map.mp hn
      exact List.count_eq_zero.mpr (hhands u hu)
    have htab : table.count k' = 0 := List.count_eq_zero.mpr htable
    rw [if_pos rfl] at hc
    omega
  · rw [if_neg he] at hc
    omega

/-- New threads begin with empty hands. -/
theorem append (h : Single table hand gs) {new : List γ} (hnew : ∀ u ∈ new, hand u = []) :
    Single table hand (gs ++ new) := by
  intro k
  have hzero : (new.map fun g => (hand g).count k).sum = 0 := by
    refine List.sum_eq_zero fun n hn => ?_
    obtain ⟨u, hu, rfl⟩ := List.mem_map.mp hn
    rw [hnew u hu, List.count_nil]
  rw [List.map_append, List.sum_append, hzero]
  exact h k

theorem count_le (h : Single table hand gs) (hi : gs[i]? = some g) (k : κ) : table.count k + (hand g).count k ≤ 1 := by
  have hle : (hand g).count k ≤ (gs.map fun g => (hand g).count k).sum :=
    List.le_sum_of_mem (List.mem_map.mpr ⟨g, List.mem_of_getElem? hi, rfl⟩)
  have hk := h k
  omega

/-- What a thread has is not in the table. -/
theorem not_mem (h : Single table hand gs) (hg : g ∈ gs) (hk : k ∈ hand g) : k ∉ table := by
  obtain ⟨i, hi⟩ := List.getElem?_of_mem hg
  have hle := h.count_le hi k
  have hpos := List.count_pos_iff.mpr hk
  exact List.count_eq_zero.mp (by omega)

/-- What a thread has, it has once. -/
theorem nodup (h : Single table hand gs) (hg : g ∈ gs) : (hand g).Nodup := by
  obtain ⟨i, hi⟩ := List.getElem?_of_mem hg
  refine List.nodup_iff_count_le_one.mpr fun k => ?_
  have hle := h.count_le hi k
  omega

/-- What a thread has, no other thread has. -/
theorem apart (h : Single table hand gs) {j : ℕ} {u : γ} (hi : gs[i]? = some g) (hj : gs[j]? = some u)
    (hg : k ∈ hand g) (hu : k ∈ hand u) : i = j := by
  by_contra hne
  -- with its hands empty, thread `i` takes one away of the sum, and thread `j` still counts
  have hsum := sum_map_set (fun l : List κ => l.count k) (l := gs.map hand) (i := i) (g := hand g)
    (by rw [List.getElem?_map, hi]; rfl) []
  have hmem : hand u ∈ (gs.map hand).set i [] :=
    mem_set_of_ne (Ne.symm hne) (by rw [List.getElem?_map, hj]; rfl)
  have hle : (hand u).count k ≤ (((gs.map hand).set i []).map fun l => l.count k).sum :=
    List.le_sum_of_mem (List.mem_map.mpr ⟨_, hmem, rfl⟩)
  have hall := h k
  have hgpos := List.count_pos_iff.mpr hg
  have hupos := List.count_pos_iff.mpr hu
  rw [List.map_map, List.count_nil] at hsum
  have heq : (gs.map ((fun l : List κ => l.count k) ∘ hand)).sum = (gs.map fun g => (hand g).count k).sum := rfl
  omega

/-- All tokens there are, in one list: what the table and the threads have, of which `part` is a part. -/
theorem nodup_parts (h : Single table hand gs) {part : γ → List κ} (hpart : ∀ g ∈ gs, ∀ k, (part g).count k ≤ (hand g).count k) :
    (table ++ gs.flatMap part).Nodup := by
  refine List.nodup_iff_count_le_one.mpr fun k => ?_
  have hk := h k
  have hle : (gs.map fun g => (part g).count k).sum ≤ (gs.map fun g => (hand g).count k).sum :=
    List.sum_le_sum fun g hg => hpart g hg k
  rw [List.count_append, List.count_flatMap]
  have heq : (gs.map (List.count k ∘ part)).sum = (gs.map fun g => (part g).count k).sum := rfl
  omega

end Single

end Conc
