import Mathlib.Order.Defs.Unbundled

/-!
# Method — fallible methods on a state

A method that returns a `Result` and works on `&mut self` is an `ExceptT ε (StateM σ)`: an error
keeps the effects made before it.  `exec m s` runs it; `Keeps R m` says that every run of `m`, failed
or not, relates the states before and after by the preorder `R`.
-/

namespace Method

variable {σ ε α β : Type}

/-- The result of `m` from `s`, with the state it leaves. -/
def exec (m : ExceptT ε (StateM σ) α) (s : σ) : Except ε α × σ := m.run.run s

@[simp] theorem exec_pure (x : α) (s : σ) : exec (pure x : ExceptT ε (StateM σ) α) s = (.ok x, s) := rfl

@[simp] theorem exec_throw (e : ε) (s : σ) :
    exec (throw e : ExceptT ε (StateM σ) α) s = (.error e, s) := rfl

@[simp] theorem exec_get (s : σ) : exec (get : ExceptT ε (StateM σ) σ) s = (.ok s, s) := rfl

@[simp] theorem exec_set (s' s : σ) :
    exec (set s' : ExceptT ε (StateM σ) PUnit) s = (.ok ⟨⟩, s') := rfl

@[simp] theorem exec_modify (f : σ → σ) (s : σ) :
    exec (modify f : ExceptT ε (StateM σ) PUnit) s = (.ok ⟨⟩, f s) := rfl

theorem exec_bind (m : ExceptT ε (StateM σ) α) (f : α → ExceptT ε (StateM σ) β) (s : σ) :
    exec (m >>= f) s = match exec m s with
      | (.ok x, s₁) => exec (f x) s₁
      | (.error e, s₁) => (.error e, s₁) := by
  simp only [exec, ExceptT.run_bind, StateT.run_bind]
  rcases h : m.run.run s with ⟨r, s₁⟩
  cases r <;> rfl

/-- A sequence failed in its first part, or ran its second part. -/
theorem exec_bind_cases {m : ExceptT ε (StateM σ) α} {f : α → ExceptT ε (StateM σ) β} {s s' : σ}
    {r : Except ε β} (h : exec (m >>= f) s = (r, s')) :
    (∃ e, exec m s = (.error e, s') ∧ r = .error e) ∨
      ∃ x s₁, exec m s = (.ok x, s₁) ∧ exec (f x) s₁ = (r, s') := by
  rw [exec_bind] at h
  rcases hm : exec m s with ⟨q, s₁⟩
  rw [hm] at h
  cases q with
  | error e =>
    obtain ⟨rfl, rfl⟩ := Prod.mk.inj h
    exact .inl ⟨e, rfl, rfl⟩
  | ok x => exact .inr ⟨x, s₁, rfl, h⟩

/-- Whatever happens in a run of `m`, the states before and after are related. -/
def Keeps (R : σ → σ → Prop) (m : ExceptT ε (StateM σ) α) : Prop := ∀ s, R s (exec m s).2

section Rules

variable {R : σ → σ → Prop}

theorem Keeps.of_exec {m : ExceptT ε (StateM σ) α} {s s' : σ} {r : Except ε α} (hm : Keeps R m)
    (h : exec m s = (r, s')) : R s s' := by
  have hs := hm s
  rwa [h] at hs

variable [Std.Refl R]

theorem Keeps.pure (x : α) : Keeps R (pure x : ExceptT ε (StateM σ) α) := fun s => Std.Refl.refl s

theorem Keeps.throw (e : ε) : Keeps R (throw e : ExceptT ε (StateM σ) α) := fun s => Std.Refl.refl s

theorem Keeps.get : Keeps R (get : ExceptT ε (StateM σ) σ) := fun s => Std.Refl.refl s

omit [Std.Refl R] in
theorem Keeps.modify {f : σ → σ} (h : ∀ s, R s (f s)) :
    Keeps R (modify f : ExceptT ε (StateM σ) PUnit) := h

omit [Std.Refl R] in
theorem Keeps.bind [IsTrans σ R] {m : ExceptT ε (StateM σ) α} {f : α → ExceptT ε (StateM σ) β}
    (hm : Keeps R m) (hf : ∀ x, Keeps R (f x)) : Keeps R (m >>= f) := by
  intro s
  rcases h : exec (m >>= f) s with ⟨r, s'⟩
  rcases exec_bind_cases h with ⟨e, he, -⟩ | ⟨x, s₁, hx, hr⟩
  · exact hm.of_exec he
  · exact IsTrans.trans _ _ _ (hm.of_exec hx) ((hf x).of_exec hr)

omit [Std.Refl R] in
theorem Keeps.ite {c : Prop} [Decidable c] {m m' : ExceptT ε (StateM σ) α} (h : Keeps R m)
    (h' : Keeps R m') : Keeps R (if c then m else m') := by
  split
  · exact h
  · exact h'

end Rules

/-- A part `f` of the state stays as it is, and decides whether `m` succeeds. -/
def Decided (f : σ → β) (P : β → Prop) (m : ExceptT ε (StateM σ) α) : Prop :=
  ∀ s, f (exec m s).2 = f s ∧ ((∃ x, (exec m s).1 = .ok x) ↔ P (f s))

section Decided

variable {γ : Type} {f : σ → γ} {P Q : γ → Prop}

theorem Decided.pure (x : α) : Decided f (fun _ => True) (pure x : ExceptT ε (StateM σ) α) :=
  fun _ => ⟨rfl, iff_of_true ⟨x, rfl⟩ trivial⟩

theorem Decided.get : Decided f (fun _ => True) (get : ExceptT ε (StateM σ) σ) :=
  fun s => ⟨rfl, iff_of_true ⟨s, rfl⟩ trivial⟩

theorem Decided.modify {u : σ → σ} (h : ∀ s, f (u s) = f s) :
    Decided f (fun _ => True) (modify u : ExceptT ε (StateM σ) PUnit) :=
  fun s => ⟨h s, iff_of_true ⟨⟨⟩, rfl⟩ trivial⟩

theorem Decided.congr {m : ExceptT ε (StateM σ) α} (hm : Decided f P m) (h : ∀ b, P b ↔ Q b) : Decided f Q m :=
  fun s => ⟨(hm s).1, (hm s).2.trans (h _)⟩

/-- A sequence succeeds when both parts do. -/
theorem Decided.bind {m : ExceptT ε (StateM σ) α} {k : α → ExceptT ε (StateM σ) β} (hm : Decided f P m)
    (hk : ∀ x, Decided f Q (k x)) : Decided f (fun b => P b ∧ Q b) (m >>= k) := by
  intro s
  obtain ⟨hkeep, hok⟩ := hm s
  rw [exec_bind]
  rcases hr : exec m s with ⟨r, s₁⟩
  rw [hr] at hkeep hok
  cases r with
  | error e =>
    refine ⟨hkeep, ⟨fun ⟨x, hx⟩ => (by cases hx), fun ⟨hP, _⟩ => ?_⟩⟩
    obtain ⟨x, hx⟩ := hok.mpr hP
    cases hx
  | ok x =>
    obtain ⟨hkeep', hok'⟩ := hk x s₁
    have hP : P (f s) := hok.mp ⟨x, rfl⟩
    have hf : f s₁ = f s := hkeep
    rw [hf] at hok'
    exact ⟨hkeep'.trans hf, ⟨fun h => ⟨hP, hok'.mp h⟩, fun h => hok'.mpr h.2⟩⟩

theorem Decided.ite {c : Prop} [Decidable c] {m m' : ExceptT ε (StateM σ) α} (h : c → Decided f P m)
    (h' : ¬ c → Decided f P m') : Decided f P (if c then m else m') := by
  split
  · next hc => exact h hc
  · next hc => exact h' hc

/-- A loop succeeds when every round does. -/
theorem Decided.forM {ι : Type} {body : ι → ExceptT ε (StateM σ) PUnit} {R : ι → γ → Prop}
    (h : ∀ i, Decided f (R i) (body i)) (l : List ι) : Decided f (fun b => ∀ i ∈ l, R i b) (l.forM body) := by
  induction l with
  | nil => exact (Decided.pure _).congr fun b => by simp
  | cons i l ih => exact ((h i).bind fun _ => ih).congr fun b => by simp

theorem Decided.ok {m : ExceptT ε (StateM σ) α} (hm : Decided f P m) {s : σ} (h : P (f s)) :
    ∃ x s', exec m s = (.ok x, s') ∧ f s' = f s := by
  obtain ⟨hkeep, hok⟩ := hm s
  obtain ⟨x, hx⟩ := hok.mpr h
  exact ⟨x, (exec m s).2, Prod.ext hx rfl, hkeep⟩

theorem Decided.error {m : ExceptT ε (StateM σ) α} (hm : Decided f P m) {s : σ} (h : ¬ P (f s)) :
    ∃ e s', exec m s = (.error e, s') ∧ f s' = f s := by
  obtain ⟨hkeep, hok⟩ := hm s
  cases hr : (exec m s).1 with
  | ok x => exact absurd (hok.mp ⟨x, hr⟩) h
  | error e => exact ⟨e, (exec m s).2, Prod.ext hr rfl, hkeep⟩

end Decided

/-- Two states that `f` does not tell apart. -/
def SameBy (f : σ → β) (s s' : σ) : Prop := f s' = f s

instance (f : σ → β) : Std.Refl (SameBy f) := ⟨fun _ => rfl⟩

instance (f : σ → β) : IsTrans σ (SameBy f) := ⟨fun _ _ _ h h' => h'.trans h⟩

end Method
