import CloudHv.Daemon.World

/-!
# Names — ids and keys as names of directories

The daemon joins VM ids and image keys to its directories as they come.  A plain name is one component of
a path, so that different plain names are different directories and none lies in another.
-/

namespace CloudHv.Daemon

def PlainName (s : String) : Prop := '/' ∉ s.toList ∧ s ≠ "" ∧ s ≠ "." ∧ s ≠ ".."

instance (s : String) : Decidable (PlainName s) :=
  inferInstanceAs (Decidable ('/' ∉ s.toList ∧ s ≠ "" ∧ s ≠ "." ∧ s ≠ ".."))

theorem splitSlash_one {cs : List Char} (h : '/' ∉ cs) : splitSlash cs = [cs] := by
  induction cs with
  | nil => rfl
  | cons c cs ih =>
    have hc : c ≠ '/' := fun he => h (he ▸ List.mem_cons_self)
    rw [splitSlash, if_neg hc, ih fun hm => h (List.mem_cons_of_mem c hm)]

theorem join_plain {p : Path} {s : String} (h : PlainName s) : Path.join p s = p ++ [s] := by
  obtain ⟨hslash, hempty, hdot, hdots⟩ := h
  have hhead : ¬ s.toList.head? = some '/' := fun he => hslash (List.mem_of_head? he)
  rw [Path.join, splitSlash_one hslash, if_neg hhead]
  show Path.down p (String.ofList s.toList) = p ++ [s]
  rw [String.ofList_toList, Path.down, if_neg (by simp [hempty, hdot]), if_neg hdots]

theorem join_plain_inj {p : Path} {s s' : String} (h : PlainName s) (h' : PlainName s')
    (he : Path.join p s = Path.join p s') : s = s' := by
  rw [join_plain h, join_plain h'] at he
  exact List.singleton_inj.mp (List.append_cancel_left he)

/-- A name that begins with a letter or a digit and has no slash. -/
theorem plain_of_head {c : Char} {s : String} (hc : s.toList.head? = some c) (hdot : c ≠ '.')
    (hslash : '/' ∉ s.toList) : PlainName s := by
  refine ⟨hslash, ?_, ?_, ?_⟩
  · rintro rfl
    cases hc
  · rintro rfl
    exact hdot (Option.some.inj hc).symm
  · rintro rfl
    exact hdot (Option.some.inj hc).symm

/-- The id that `restore_one` makes of the CID counter's value. -/
def poolId (E : Env) (n : ℕ) : String := "pool-" ++ toString E.pid ++ "-" ++ toString n

end CloudHv.Daemon
