import Mathlib.Data.List.Forall2

/-!
# Refine — two levels of stateful code

Code on a lower state that can fail and can get stuck, and code on an upper state that can fail.  The lower code
`Follows` the upper one when, from related states, it does not get stuck, fails with the same error or returns a
related result, and leaves related states.  The rules go along the structure of the code.
-/

namespace Refine

variable {σ τ ε α β γ δ : Type}

/-- Code that can get stuck. -/
abbrev Low (σ ε : Type) := ExceptT ε (StateT σ Option)

abbrev Up (τ ε : Type) := ExceptT ε (StateM τ)

namespace Low

def exec (c : Low σ ε α) (s : σ) : Option (Except ε α × σ) := c.run.run s

def stuck : Low σ ε α := ExceptT.mk fun _ => none

/-- Code without a state of its own: stuck, or its result. -/
def ofOption : Option α → Low σ ε α
  | none => stuck
  | some x => pure x

/-- The outcome of code, for code that goes on after a failure. -/
def attempt (c : Low σ ε α) : Low σ ε (Except ε α) := ExceptT.mk do
  let r ← c.run
  pure (.ok r)

/-- The results of a loop that has one for some of its elements. -/
def pick (f : α → Low σ ε (Option γ)) : List α → Low σ ε (List γ)
  | [] => pure []
  | a :: as => do
    let x ← f a
    let xs ← pick f as
    pure (x.toList ++ xs)

/-- The result of a loop that ends with the first one. -/
def first (f : α → Low σ ε (Option γ)) : List α → Low σ ε (Option γ)
  | [] => pure none
  | a :: as => do
    match ← f a with
    | some x => pure (some x)
    | none => first f as

/-- One piece of code after the other, whatever they come to. -/
def each : List (Low σ ε α) → Low σ ε (List (Except ε α))
  | [] => pure []
  | c :: cs => do
    let r ← attempt c
    let rs ← each cs
    pure (r :: rs)

end Low

namespace Up

def exec (m : Up τ ε β) (t : τ) : Except ε β × τ := m.run.run t

def attempt (m : Up τ ε β) : Up τ ε (Except ε β) := ExceptT.mk do
  let r ← m.run
  pure (.ok r)

def each : List (Up τ ε β) → Up τ ε (List (Except ε β))
  | [] => pure []
  | m :: ms => do
    let r ← attempt m
    let rs ← each ms
    pure (r :: rs)

end Up

/-- The same error, or related results. -/
def Alike (R : α → β → Prop) : Except ε α → Except ε β → Prop
  | .ok a, .ok b => R a b
  | .error e, .error e' => e = e'
  | _, _ => False

def Follows (S : σ → τ → Prop) (R : α → β → Prop) (c : Low σ ε α) (m : Up τ ε β) : Prop :=
  ∀ s t, S s t → ∃ r s', c.exec s = some (r, s') ∧ Alike R r (m.exec t).1 ∧ S s' (m.exec t).2

/-! ### Running code -/

namespace Low

theorem exec_pure (x : α) (s : σ) : (pure x : Low σ ε α).exec s = some (.ok x, s) := rfl

theorem exec_throw (e : ε) (s : σ) : (throw e : Low σ ε α).exec s = some (.error e, s) := rfl

theorem exec_bind_ok {c : Low σ ε α} {s s' : σ} {a : α} (h : c.exec s = some (.ok a, s')) (f : α → Low σ ε γ) :
    (c >>= f).exec s = (f a).exec s' := by
  unfold exec at h ⊢
  rw [ExceptT.run_bind, StateT.run_bind, h]
  rfl

theorem exec_bind_error {c : Low σ ε α} {s s' : σ} {e : ε} (h : c.exec s = some (.error e, s')) (f : α → Low σ ε γ) :
    (c >>= f).exec s = some (.error e, s') := by
  unfold exec at h ⊢
  rw [ExceptT.run_bind, StateT.run_bind, h]
  rfl

theorem exec_attempt {c : Low σ ε α} {s s' : σ} {r : Except ε α} (h : c.exec s = some (r, s')) :
    (attempt c).exec s = some (.ok r, s') := by
  unfold exec at h ⊢
  show (c.run >>= fun r => pure (.ok r) : StateT σ Option (Except ε (Except ε α))).run s = _
  rw [StateT.run_bind, h]
  rfl

end Low

namespace Up

theorem exec_bind_ok {m : Up τ ε β} {t t' : τ} {b : β} (h : m.exec t = (.ok b, t')) (f : β → Up τ ε δ) :
    (m >>= f).exec t = (f b).exec t' := by
  unfold exec at h ⊢
  rw [ExceptT.run_bind, StateT.run_bind, h]
  rfl

theorem exec_bind_error {m : Up τ ε β} {t t' : τ} {e : ε} (h : m.exec t = (.error e, t')) (f : β → Up τ ε δ) :
    (m >>= f).exec t = (.error e, t') := by
  unfold exec at h ⊢
  rw [ExceptT.run_bind, StateT.run_bind, h]
  rfl

theorem exec_attempt (m : Up τ ε β) (t : τ) : (attempt m).exec t = (.ok (m.exec t).1, (m.exec t).2) := rfl

end Up

/-! ### The rules -/

section Rules

variable {S : σ → τ → Prop} {R : α → β → Prop} {R' : γ → δ → Prop}

theorem follows_pure {a : α} {b : β} (h : R a b) : Follows S R (pure a : Low σ ε α) (pure b) :=
  fun s _ hs => ⟨.ok a, s, rfl, h, hs⟩

theorem Follows.mono {R₁ : α → β → Prop} {c : Low σ ε α} {m : Up τ ε β} (h : Follows S R c m)
    (hR : ∀ a b, R a b → R₁ a b) : Follows S R₁ c m := by
  intro s t hs
  obtain ⟨r, s', hc, hr, hs'⟩ := h s t hs
  refine ⟨r, s', hc, ?_, hs'⟩
  generalize (m.exec t).1 = r' at hr
  cases r with
  | ok a =>
    cases r' with
    | ok b => exact hR a b hr
    | error e => exact hr
  | error e => cases r' <;> exact hr

theorem Follows.bind {c : Low σ ε α} {m : Up τ ε β} {f : α → Low σ ε γ} {g : β → Up τ ε δ} (h : Follows S R c m)
    (hf : ∀ a b, R a b → Follows S R' (f a) (g b)) : Follows S R' (c >>= f) (m >>= g) := by
  intro s t hs
  obtain ⟨r, s', hc, hr, hs'⟩ := h s t hs
  cases hm : m.exec t with
  | mk r' t' =>
    rw [hm] at hr hs'
    cases r with
    | ok a =>
      cases r' with
      | ok b =>
        rw [Low.exec_bind_ok hc, Up.exec_bind_ok hm]
        exact hf a b hr s' t' hs'
      | error e => exact hr.elim
    | error e =>
      cases r' with
      | ok b => exact hr.elim
      | error e' =>
        obtain rfl : e = e' := hr
        rw [Low.exec_bind_error hc, Up.exec_bind_error hm]
        exact ⟨.error e, s', rfl, rfl, hs'⟩

theorem Follows.attempt {c : Low σ ε α} {m : Up τ ε β} (h : Follows S R c m) :
    Follows S (Alike R) (Low.attempt c) (Up.attempt m) := by
  intro s t hs
  obtain ⟨r, s', hc, hr, hs'⟩ := h s t hs
  exact ⟨.ok r, s', Low.exec_attempt hc, hr, hs'⟩

/-- **Code after code**: its outcomes are those of the upper level. -/
theorem Follows.each {cs : List (Low σ ε α)} {ms : List (Up τ ε β)} (h : List.Forall₂ (Follows S R) cs ms) :
    Follows S (List.Forall₂ (Alike R)) (Low.each cs) (Up.each ms) := by
  induction h with
  | nil => exact follows_pure .nil
  | cons hc _ ih => exact hc.attempt.bind fun r r' hr => ih.bind fun rs rs' hrs => follows_pure (.cons hr hrs)

end Rules

end Refine
