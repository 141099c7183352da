import Mathlib.Data.Set.Insert
import Mathlib.Logic.Function.Basic

/-!
# Ledger — who answers for an entry of a shared table

Threads put entries into a shared table, hand them out to clients, or take them back.  A `Ledger`
relates the keys `K` of the table, the keys `H` that clients hold, and the key each thread still
answers for (`f`): every key of the table has exactly one of them.  The four moves of a thread keep
it; when no thread answers for anything, the table is what the clients hold.
-/

namespace Conc

variable {γ κ : Type}

/-- The key that each thread answers for, from the list of their ghost values. -/
def slots (p : γ → Option κ) (gs : List γ) : ℕ → Option κ := fun i => (gs[i]?).bind p

theorem slots_of_getElem? {p : γ → Option κ} {gs : List γ} {i : ℕ} {g : γ} (h : gs[i]? = some g) :
    slots p gs i = p g := by
  rw [slots, h, Option.bind_some]

theorem slots_of_none {p : γ → Option κ} {gs : List γ} (hn : ∀ g ∈ gs, p g = none) :
    slots p gs = fun _ => none := by
  funext i
  unfold slots
  cases hi : gs[i]? with
  | none => rfl
  | some g => exact hn g (List.mem_of_getElem? hi)

theorem slots_append {p : γ → Option κ} {gs new : List γ} (hn : ∀ n ∈ new, p n = none) :
    slots p (gs ++ new) = slots p gs := by
  funext j
  unfold slots
  rcases Nat.lt_or_ge j gs.length with hj | hj
  · rw [List.getElem?_append_left hj]
  · rw [List.getElem?_append_right hj, List.getElem?_eq_none hj]
    cases hnj : new[j - gs.length]? with
    | none => rfl
    | some n => exact hn n (List.mem_of_getElem? hnj)

theorem slots_set {p : γ → Option κ} {gs new : List γ} {i : ℕ} {g : γ} (h : gs[i]? = some g) (g' : γ)
    (hn : ∀ n ∈ new, p n = none) :
    slots p (gs.set i g' ++ new) = Function.update (slots p gs) i (p g') := by
  rw [slots_append hn]
  have hi : i < gs.length := (List.getElem?_eq_some_iff.mp h).1
  funext j
  by_cases hj : j = i
  · subst hj
    rw [Function.update_self, slots, List.getElem?_set_self hi, Option.bind_some]
  · rw [Function.update_of_ne hj, slots, slots, List.getElem?_set_ne (Ne.symm hj)]

/-- Who has `k` once thread `i` has `o`. -/
theorem exists_update_iff {f : ℕ → Option κ} {i : ℕ} {o : Option κ} {k : κ} :
    (∃ j, Function.update f i o j = some k) ↔ o = some k ∨ ∃ j, j ≠ i ∧ f j = some k := by
  constructor
  · rintro ⟨j, hj⟩
    by_cases hi : j = i
    · subst hi
      exact .inl (by rwa [Function.update_self] at hj)
    · exact .inr ⟨j, hi, by rwa [Function.update_of_ne hi] at hj⟩
  · rintro (ho | ⟨j, hi, hj⟩)
    · exact ⟨i, by rw [Function.update_self, ho]⟩
    · exact ⟨j, by rw [Function.update_of_ne hi, hj]⟩

structure Ledger (K H : Set κ) (f : ℕ → Option κ) : Prop where
  covers : ∀ k, k ∈ K ↔ k ∈ H ∨ ∃ i, f i = some k
  single : ∀ i j k, f i = some k → f j = some k → i = j
  apart : ∀ i k, f i = some k → k ∉ H

namespace Ledger

variable {K H : Set κ} {f : ℕ → Option κ} {i : ℕ} {k : κ}

theorem empty : Ledger (∅ : Set κ) ∅ (fun _ => none) := by
  refine ⟨fun k => ?_, fun i j k hi _ => ?_, fun i k _ => Set.notMem_empty k⟩
  · constructor
    · exact Or.inl
    · rintro (hk | ⟨i, hi⟩)
      · exact hk
      · cases hi
  · cases hi

/-- No thread answers for anything: the clients hold the whole table. -/
theorem settled (h : Ledger K H fun _ => none) : K = H := by
  ext k
  rw [h.covers k]
  constructor
  · rintro (hk | ⟨i, hi⟩)
    · exact hk
    · cases hi
  · exact Or.inl

/-- Thread `i` puts in a new key and answers for it. -/
theorem take (h : Ledger K H f) (hi : f i = none) (hk : k ∉ K) :
    Ledger (insert k K) H (Function.update f i (some k)) := by
  have hnew : ∀ j k', Function.update f i (some k) j = some k' ↔ (j = i ∧ k' = k) ∨ f j = some k' := by
    intro j k'
    by_cases hj : j = i
    · subst hj
      rw [Function.update_self, hi]
      simp [eq_comm]
    · rw [Function.update_of_ne hj]
      simp [hj]
  have hfree : ∀ j, f j ≠ some k := fun j hj => hk ((h.covers k).mpr (.inr ⟨j, hj⟩))
  refine ⟨fun k' => ?_, fun a b k' ha hb => ?_, fun a k' ha => ?_⟩
  · simp only [Set.mem_insert_iff, h.covers k', hnew]
    constructor
    · rintro (rfl | hk' | ⟨j, hj⟩)
      · exact .inr ⟨i, .inl ⟨rfl, rfl⟩⟩
      · exact .inl hk'
      · exact .inr ⟨j, .inr hj⟩
    · rintro (hk' | ⟨j, ⟨-, rfl⟩ | hj⟩)
      · exact .inr (.inl hk')
      · exact .inl rfl
      · exact .inr (.inr ⟨j, hj⟩)
  · rcases (hnew a k').mp ha with ⟨hai, hak⟩ | ha'
    · rcases (hnew b k').mp hb with ⟨hbi, -⟩ | hb'
      · rw [hai, hbi]
      · exact absurd (hak ▸ hb') (hfree b)
    · rcases (hnew b k').mp hb with ⟨-, hbk⟩ | hb'
      · exact absurd (hbk ▸ ha') (hfree a)
      · exact h.single a b k' ha' hb'
  · rcases (hnew a k').mp ha with ⟨rfl, rfl⟩ | ha
    · exact fun hH => hk ((h.covers k').mpr (.inl hH))
    · exact h.apart a k' ha

/-- What the others answer for is not what thread `i` does. -/
theorem update_none (h : Ledger K H f) (hi : f i = some k) {j : ℕ} {k' : κ} :
    Function.update f i none j = some k' ↔ f j = some k' ∧ k' ≠ k := by
  by_cases hj : j = i
  · subst hj
    rw [Function.update_self, hi]
    constructor
    · intro hc
      cases hc
    · rintro ⟨he, hne⟩
      exact absurd (Option.some.inj he).symm hne
  · rw [Function.update_of_ne hj]
    constructor
    · intro hf
      refine ⟨hf, ?_⟩
      rintro rfl
      exact hj (h.single j i k' hf hi)
    · exact And.left

/-- Thread `i` hands out the key it answers for. -/
theorem handOver (h : Ledger K H f) (hi : f i = some k) :
    Ledger K (insert k H) (Function.update f i none) := by
  have hK : k ∈ K := (h.covers k).mpr (.inr ⟨i, hi⟩)
  refine ⟨fun k' => ?_, fun a b k' ha hb => ?_, fun a k' ha => ?_⟩
  · rw [Set.mem_insert_iff]
    by_cases he : k' = k
    · subst he
      exact ⟨fun _ => .inl (.inl rfl), fun _ => hK⟩
    · rw [h.covers k']
      constructor
      · rintro (hk' | ⟨j, hj⟩)
        · exact .inl (.inr hk')
        · exact .inr ⟨j, (h.update_none hi).mpr ⟨hj, he⟩⟩
      · rintro ((he' | hk') | ⟨j, hj⟩)
        · exact absurd he' he
        · exact .inl hk'
        · exact .inr ⟨j, ((h.update_none hi).mp hj).1⟩
  · exact h.single a b k' ((h.update_none hi).mp ha).1 ((h.update_none hi).mp hb).1
  · obtain ⟨ha', hne⟩ := (h.update_none hi).mp ha
    rintro (he | hH)
    · exact hne he
    · exact h.apart a k' ha' hH

/-- Thread `i` takes the key it answers for out of the table. -/
theorem giveBack (h : Ledger K H f) (hi : f i = some k) :
    Ledger (K \ {k}) (H \ {k}) (Function.update f i none) := by
  refine ⟨fun k' => ?_, fun a b k' ha hb => ?_, fun a k' ha => ?_⟩
  · rw [Set.mem_sdiff, Set.mem_sdiff, Set.mem_singleton_iff, h.covers k']
    constructor
    · rintro ⟨hk' | ⟨j, hj⟩, hne⟩
      · exact .inl ⟨hk', hne⟩
      · exact .inr ⟨j, (h.update_none hi).mpr ⟨hj, hne⟩⟩
    · rintro (⟨hk', hne⟩ | ⟨j, hj⟩)
      · exact ⟨.inl hk', hne⟩
      · obtain ⟨hj', hne⟩ := (h.update_none hi).mp hj
        exact ⟨.inr ⟨j, hj'⟩, hne⟩
  · exact h.single a b k' ((h.update_none hi).mp ha).1 ((h.update_none hi).mp hb).1
  · exact fun hH => h.apart a k' ((h.update_none hi).mp ha).1 hH.1

/-- A key that a client holds, or that is not in the table, is taken out on the client's word. -/
theorem drop (h : Ledger K H f) (hk : k ∈ H ∨ k ∉ K) : Ledger (K \ {k}) (H \ {k}) f := by
  have hfree : ∀ j, f j ≠ some k := by
    intro j hj
    rcases hk with hk | hk
    · exact h.apart j k hj hk
    · exact hk ((h.covers k).mpr (.inr ⟨j, hj⟩))
  refine ⟨fun k' => ?_, h.single, fun a k' ha hH => h.apart a k' ha hH.1⟩
  rw [Set.mem_sdiff, Set.mem_sdiff, Set.mem_singleton_iff, h.covers k']
  constructor
  · rintro ⟨hk' | ⟨j, hj⟩, hne⟩
    · exact .inl ⟨hk', hne⟩
    · exact .inr ⟨j, hj⟩
  · rintro (⟨hk', hne⟩ | ⟨j, hj⟩)
    · exact ⟨.inl hk', hne⟩
    · refine ⟨.inr ⟨j, hj⟩, ?_⟩
      rintro rfl
      exact hfree j hj

end Ledger

end Conc
