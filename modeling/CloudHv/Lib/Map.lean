import Mathlib.Data.Finmap

/-!
# Map — lookup rules for finite maps

`Finmap` stands for the hash maps of the programs: no order, one value for each key.  Mathlib has the
lookup rules for equal and for different keys; here they are in one equation each, so that `simp` and
`split` do the case analysis.
-/

namespace Finmap

variable {κ : Type} [DecidableEq κ] {ν : Type}

theorem lookup_insert_eq (k k' : κ) (v : ν) (m : Finmap (fun _ : κ => ν)) :
    (m.insert k v).lookup k' = if k' = k then some v else m.lookup k' := by
  by_cases h : k' = k
  · subst h; rw [if_pos rfl, lookup_insert]
  · rw [if_neg h, lookup_insert_of_ne m h]

theorem lookup_erase_eq (k k' : κ) (m : Finmap (fun _ : κ => ν)) :
    (m.erase k).lookup k' = if k' = k then none else m.lookup k' := by
  by_cases h : k' = k
  · subst h; rw [if_pos rfl, lookup_erase]
  · rw [if_neg h, lookup_erase_ne h]

/-- What is left after a key is erased was there under another key. -/
theorem lookup_of_erase {k k' : κ} {v : ν} {m : Finmap (fun _ : κ => ν)} (h : (m.erase k).lookup k' = some v) :
    k' ≠ k ∧ m.lookup k' = some v := by
  rw [lookup_erase_eq] at h
  split at h
  · cases h
  · next hne => exact ⟨hne, h⟩

theorem mem_of_lookup {k : κ} {v : ν} {m : Finmap (fun _ : κ => ν)} (h : m.lookup k = some v) :
    k ∈ m := mem_iff.mpr ⟨v, h⟩

theorem keys_insert (k : κ) (v : ν) (m : Finmap (fun _ : κ => ν)) : (m.insert k v).keys = Insert.insert k m.keys := by
  ext k'
  rw [Finset.mem_insert, mem_keys, mem_insert, mem_keys]

end Finmap
