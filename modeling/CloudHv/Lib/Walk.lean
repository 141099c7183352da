import Mathlib.Order.Lattice
import Mathlib.Order.Nat

/-!
# Walk — loops over a buffer, with every index checked

`Read α` is code that indexes buffers: an index outside panics, and else there are the result and the spans that were
indexed.  A `loop` runs its body until it stops, for as many rounds as there is fuel.

A body that gets on in every round stops (`loop_stops`).
-/

namespace Walk

structure Span where
  pos : ℕ
  len : ℕ
  deriving DecidableEq

/-- The position behind the span. -/
def Span.stop (x : Span) : ℕ := x.pos + x.len

variable {α β σ ρ : Type}

/-! ### Reading -/

/-- Code that indexes buffers: a panic, or the result and the spans that were indexed. -/
inductive Read (α : Type) where
  | panic
  | done (x : α) (spans : List Span)
  deriving DecidableEq

namespace Read

/-- The code ran behind code that had indexed these spans. -/
def behind (spans : List Span) : Read α → Read α
  | panic => panic
  | done x more => done x (spans ++ more)

def bind : Read α → (α → Read β) → Read β
  | panic, _ => panic
  | done x spans, f => (f x).behind spans

instance : Monad Read where
  pure x := done x []
  bind := bind

theorem pure_eq (x : α) : (pure x : Read α) = done x [] := rfl

theorem done_bind (x : α) (spans : List Span) (f : α → Read β) : done x spans >>= f = (f x).behind spans := rfl

theorem behind_done (spans more : List Span) (x : α) : behind spans (done x more) = done x (spans ++ more) := rfl

theorem behind_behind (a b : List Span) (m : Read α) : (m.behind b).behind a = m.behind (a ++ b) := by
  cases m with
  | panic => rfl
  | done x spans => rw [behind_done, behind_done, behind_done, List.append_assoc]

theorem behind_nil (m : Read α) : m.behind [] = m := by
  cases m with
  | panic => rfl
  | done x spans => rfl

theorem behind_eq_done {spans all : List Span} {m : Read α} {x : α} (h : m.behind spans = done x all) :
    ∃ more, m = done x more ∧ all = spans ++ more := by
  cases m with
  | panic => cases h
  | done y more =>
    cases h
    exact ⟨more, rfl, rfl⟩

end Read

open Read

/-- The part of a buffer at a position; a part that is not all in the buffer panics. -/
def get (buf : List β) (pos len : ℕ) : Read (List β) :=
  if pos + len ≤ buf.length then done ((buf.drop pos).take len) [⟨pos, len⟩] else panic

theorem get_eq {buf : List β} {pos len : ℕ} (h : pos + len ≤ buf.length) :
    get buf pos len = done ((buf.drop pos).take len) [⟨pos, len⟩] := if_pos h

theorem get_panics {buf : List β} {pos len : ℕ} (h : buf.length < pos + len) : get buf pos len = panic :=
  if_neg (Nat.not_le.mpr h)

/-- A part of the bytes `d` at the front of what was received is the part of the buffer. -/
theorem part_received {buf d : List β} {n off len : ℕ} (pos : ℕ) (hd : (buf.take n).drop off = d)
    (h : off + pos + len ≤ n) : (buf.drop (off + pos)).take len = (d.drop pos).take len := by
  rw [← hd, List.drop_drop, List.drop_take, List.take_take]
  congr 1
  omega

/-- A part of the bytes is there whatever is behind them. -/
theorem part_append {bs : List β} {pos len : ℕ} (h : pos + len ≤ bs.length) (rest : List β) :
    ((bs ++ rest).drop pos).take len = (bs.drop pos).take len := by
  have hroom : len ≤ (bs.drop pos).length := by
    rw [List.length_drop]
    omega
  rw [List.drop_append_of_le_length (by omega), List.take_append_of_le_length hroom]

/-! ### Loops -/

/-- What a round of a loop makes: the state of the next round, or the result. -/
inductive Turn (σ ρ : Type) where
  | next (s : σ)
  | stop (r : ρ)
  deriving DecidableEq

/-- A round at `pos`: the next one has the state of the walk and the position. -/
def Turn.at (pos : ℕ) : Turn σ ρ → Turn (ℕ × σ) ρ
  | next s => next (pos, s)
  | stop r => stop r

/-- The visits of a list, one after the other, until one of them stops. -/
def sweep {ι : Type} (visit : ι → σ → Turn σ ρ) (fin : σ → ρ) : List ι → σ → ρ
  | [], s => fin s
  | i :: is, s =>
    match visit i s with
    | .next s' => sweep visit fin is s'
    | .stop r => r

/-- The loop, for `fuel` rounds at most; no result when they were not enough. -/
def loop (body : σ → Read (Turn σ ρ)) : (fuel : ℕ) → σ → Read (Option ρ)
  | 0, _ => pure none
  | k + 1, s => do
    match ← body s with
    | .next s' => loop body k s'
    | .stop r => pure (some r)

section Loop

variable {body : σ → Read (Turn σ ρ)} {s s' : σ} {r : ρ} {spans : List Span} {k : ℕ}

theorem loop_next (h : body s = done (.next s') spans) : loop body (k + 1) s = (loop body k s').behind spans := by
  rw [loop, h]
  rfl

theorem loop_stop (h : body s = done (.stop r) spans) : loop body (k + 1) s = done (some r) spans := by
  rw [loop, h, done_bind]
  show done (some r) (spans ++ []) = _
  rw [List.append_nil]

theorem loop_panic (h : body s = panic) : loop body (k + 1) s = panic := by
  rw [loop, h]
  rfl

/-- A loop that stops: in its first round, or in a round after it. -/
theorem loop_cases (h : loop body (k + 1) s = done (some r) spans) :
    body s = done (.stop r) spans ∨
      ∃ s' a b, body s = done (.next s') a ∧ loop body k s' = done (some r) b ∧ spans = a ++ b := by
  cases hb : body s with
  | panic =>
    rw [loop_panic hb] at h
    cases h
  | done f a =>
    cases f with
    | stop r' =>
      rw [loop_stop hb] at h
      cases h
      exact .inl rfl
    | next s' =>
      rw [loop_next hb] at h
      obtain ⟨b, hl, rfl⟩ := behind_eq_done h
      exact .inr ⟨s', a, b, rfl, hl, rfl⟩

/-- What its first round indexes, a loop indexes. -/
theorem loop_mem {x : Span} (hbody : body s = panic ∨ ∃ f a, body s = done f a ∧ x ∈ a)
    (h : loop body k s = done (some r) spans) : x ∈ spans := by
  cases k with
  | zero => cases h
  | succ k =>
    rcases hbody with hp | ⟨f, a, hf, hmem⟩
    · rw [loop_panic hp] at h
      cases h
    · rcases loop_cases h with hs | ⟨s', a', b, hs, -, rfl⟩
      · rw [hf] at hs
        cases hs
        exact hmem
      · rw [hf] at hs
        cases hs
        exact List.mem_append_left b hmem

/-- More fuel gives the same result. -/
theorem loop_more {k' : ℕ} (h : loop body k s = done (some r) spans) (hk : k ≤ k') :
    loop body k' s = done (some r) spans := by
  induction k generalizing k' s spans with
  | zero => cases h
  | succ k ih =>
    obtain ⟨j, rfl⟩ := Nat.exists_eq_add_of_le' (Nat.lt_of_lt_of_le (Nat.succ_pos k) hk)
    rcases loop_cases h with hs | ⟨s', a, b, hb, hl, rfl⟩
    · exact loop_stop hs
    · rw [loop_next hb, ih hl (Nat.le_of_succ_le_succ hk), behind_done]

/-- A loop has one result. -/
theorem loop_unique {k' : ℕ} {r' : ρ} {spans' : List Span} (h : loop body k s = done (some r) spans)
    (h' : loop body k' s = done (some r') spans') : r = r' ∧ spans = spans' := by
  have hk : loop body (max k k') s = done (some r) spans := loop_more h (le_max_left k k')
  have hk' : loop body (max k k') s = done (some r') spans' := loop_more h' (le_max_right k k')
  rw [hk] at hk'
  cases hk'
  exact ⟨rfl, rfl⟩

/-- A loop that gets on in every round, indexes in bounds and keeps an invariant stops with a result that the
invariant gives. -/
theorem loop_stops {Inv : σ → Prop} {left : σ → ℕ} {Q : ρ → Prop} {P : Span → Prop}
    (hbody : ∀ s, Inv s → (∃ s' spans, body s = done (.next s') spans ∧ Inv s' ∧ left s' < left s ∧ ∀ y ∈ spans, P y) ∨
      ∃ r spans, body s = done (.stop r) spans ∧ Q r ∧ ∀ y ∈ spans, P y)
    (hs : Inv s) (hk : left s < k) : ∃ r spans, loop body k s = done (some r) spans ∧ Q r ∧ ∀ y ∈ spans, P y := by
  induction k generalizing s with
  | zero => exact absurd hk (Nat.not_lt_zero _)
  | succ k ih =>
    rcases hbody s hs with ⟨s', a, hb, hs', hlt, ha⟩ | ⟨r, a, hb, hr, ha⟩
    · obtain ⟨r, b, hl, hr, hb'⟩ := ih hs' (Nat.lt_of_lt_of_le hlt (Nat.le_of_lt_succ hk))
      exact ⟨r, a ++ b, by rw [loop_next hb, hl, behind_done], hr, List.forall_mem_append.mpr ⟨ha, hb'⟩⟩
    · exact ⟨r, a, loop_stop hb, hr, ha⟩

/-- A loop that comes back to its state is never over. -/
theorem loop_spins (h : body s = done (.next s) spans) : ¬ ∃ k r all, loop body k s = done (some r) all := by
  rintro ⟨k, r, all, hl⟩
  induction k generalizing all with
  | zero => cases hl
  | succ k ih =>
    rw [loop_next h] at hl
    obtain ⟨b, hl, -⟩ := behind_eq_done hl
    exact ih b hl

end Loop

end Walk
