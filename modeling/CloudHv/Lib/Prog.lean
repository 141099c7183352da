import Mathlib

/-!
# Prog — programs over atomic actions

`Prog A R α` is a sequential program that performs atomic actions `a : A`, gets an answer of type
`R a` for each of them from whoever runs it, and ends with a value of `α`.  Code that interleaves
with other code is written in this monad, one action for each access to shared state.

Two ways of running a program: `eval` runs it alone on a state, with a list of choices for what the
environment decides; `Conc.System` (module `Threads`) interleaves many of them.

`sem T p Q s` is what `p` needs in `s` to end with `Q`, for a predicate transformer `T` of its actions:
`always` and `possible` are about all runs and some run of `p` alone.  `wp D p Q g` is the weakest
precondition of `p` for a `Discipline`: a ghost value that follows the program's actions and answers
(`upd`), a condition the program has to meet before an action (`req`) and a restriction on the answers
it has to expect (`may`).
-/

namespace Conc

/-- A program over the actions `A` with answers `R`, ending with a value of `α`. -/
inductive Prog (A : Type) (R : A → Type) (α : Type) where
  | ret (x : α)
  | act (a : A) (k : R a → Prog A R α)

namespace Prog

variable {A : Type} {R : A → Type} {α β : Type}

def bind : Prog A R α → (α → Prog A R β) → Prog A R β
  | .ret x, f => f x
  | .act a k, f => .act a (fun r => (k r).bind f)

instance : Monad (Prog A R) where
  pure := .ret
  bind := bind

/-- The program of one action. -/
def call (a : A) : Prog A R (R a) := .act a .ret

@[simp] theorem pure_eq (x : α) : (pure x : Prog A R α) = .ret x := rfl

@[simp] theorem ret_bind (x : α) (f : α → Prog A R β) : (Prog.ret x >>= f) = f x := rfl

@[simp] theorem act_bind (a : A) (k : R a → Prog A R α) (f : α → Prog A R β) :
    (Prog.act a k >>= f) = .act a (fun r => k r >>= f) := rfl

@[simp] theorem call_bind (a : A) (f : R a → Prog A R β) : (call a >>= f) = .act a f := rfl

theorem bind_ret (p : Prog A R α) : (p >>= fun x => .ret x) = p := by
  induction p with
  | ret x => rfl
  | act a k ih => exact congrArg (Prog.act a) (funext ih)

theorem bind_bind {γ : Type} (p : Prog A R α) (f : α → Prog A R β) (g : β → Prog A R γ) :
    (p >>= f >>= g) = p >>= fun x => f x >>= g := by
  induction p with
  | ret x => rfl
  | act a k ih => exact congrArg (Prog.act a) (funext ih)

instance : LawfulMonad (Prog A R) :=
  LawfulMonad.mk' (Prog A R) bind_ret (fun _ _ => rfl) bind_bind

/-- The program has ended. -/
def done : Prog A R α → Bool
  | .ret _ => true
  | .act _ _ => false

/-- Actions of `A` carried out as actions of a larger signature. -/
def lift {A' : Type} {R' : A' → Type} (φ : A → A') (ψ : (a : A) → R' (φ a) → R a) :
    Prog A R α → Prog A' R' α
  | .ret x => .ret x
  | .act a k => .act (φ a) (fun r => (k (ψ a r)).lift φ ψ)

end Prog

/-! ### Running a program alone -/

section Eval

variable {σ C A : Type} {R : A → Type} {α β : Type}

/-- Run `p` alone from `s`: `perform` carries out an action under a choice of the environment.  The
result is the value, the state and the unused choices; `none` when a choice is not possible or the
choices run out. -/
def eval (perform : σ → (a : A) → C → Option (R a × σ)) :
    Prog A R α → List C → σ → Option (α × σ × List C)
  | .ret x, cs, s => some (x, s, cs)
  | .act _ _, [], _ => none
  | .act a k, c :: cs, s =>
    match perform s a c with
    | none => none
    | some (r, s') => eval perform (k r) cs s'

variable {perform : σ → (a : A) → C → Option (R a × σ)}

theorem eval_act {a : A} {k : R a → Prog A R α} {cs cs' : List C} {s s' : σ} {x : α}
    (h : eval perform (.act a k) cs s = some (x, s', cs')) :
    ∃ c cs₁ r s₁, cs = c :: cs₁ ∧ perform s a c = some (r, s₁) ∧
      eval perform (k r) cs₁ s₁ = some (x, s', cs') := by
  cases cs with
  | nil => simp [eval] at h
  | cons c cs₁ =>
    simp only [eval] at h
    split at h
    · cases h
    · next r s₁ hp => exact ⟨c, cs₁, r, s₁, rfl, hp, h⟩

end Eval

/-! ### Predicate transformers -/

/-- What an action needs so that `K` holds of its answer and the value after it. -/
abbrev Trans (A : Type) (R : A → Type) (σ : Type) := (a : A) → (R a → σ → Prop) → σ → Prop

section Sem

variable {A : Type} {R : A → Type} {σ α β ε : Type} {T : Trans A R σ}

/-- What a program needs, action by action, so that it ends with `Q`. -/
def sem (T : Trans A R σ) : Prog A R α → (α → σ → Prop) → σ → Prop
  | .ret x, Q, s => Q x s
  | .act a k, Q, s => T a (fun r s' => sem T (k r) Q s') s

theorem sem_bind {p : Prog A R α} {f : α → Prog A R β} {Q : β → σ → Prop} {s : σ} :
    sem T (p >>= f) Q s ↔ sem T p (fun x s' => sem T (f x) Q s') s := by
  refine iff_of_eq ?_
  induction p generalizing s with
  | ret x => rfl
  | act a k ih => exact congrArg (T a · s) (funext fun r => funext fun s' => ih r)

/-- `sem` for a program that can fail: `Q` for its value, `E` for its error. -/
def semx (T : Trans A R σ) (m : ExceptT ε (Prog A R) α) (Q : α → σ → Prop) (E : ε → σ → Prop) (s : σ) :
    Prop :=
  sem T m.run (fun r s' => match r with
    | .ok x => Q x s'
    | .error e => E e s') s

variable {E : ε → σ → Prop} {s : σ}

/-- Sequencing with the first program's failure passed on. -/
theorem semx_bind {m : ExceptT ε (Prog A R) α} {f : α → ExceptT ε (Prog A R) β} {Q : β → σ → Prop} :
    semx T (m >>= f) Q E s ↔ semx T m (fun x s' => semx T (f x) Q E s') E s := by
  unfold semx
  rw [ExceptT.run_bind, sem_bind]
  refine iff_of_eq (congrArg (sem T m.run · s) (funext fun r => ?_))
  cases r <;> rfl

theorem semx_lift {p : Prog A R α} {Q : α → σ → Prop} :
    semx T (liftM p : ExceptT ε (Prog A R) α) Q E s ↔ sem T p Q s := sem_bind

end Sem

/-! ### All runs and some run of a program alone -/

section Runs

variable {σ C A : Type} {R : A → Type} {α : Type} {step : σ → (a : A) → C → Option (R a × σ)}

/-- Whatever the environment decides. -/
def always (step : σ → (a : A) → C → Option (R a × σ)) : Trans A R σ := fun a K s =>
  ∀ c r s', step s a c = some (r, s') → K r s'

/-- For some decisions of the environment. -/
def possible (step : σ → (a : A) → C → Option (R a × σ)) : Trans A R σ := fun a K s =>
  ∃ c r s', step s a c = some (r, s') ∧ K r s'

theorem sem_always {p : Prog A R α} {Q : α → σ → Prop} {s s' : σ} {cs cs' : List C} {x : α}
    (h : sem (always step) p Q s) (he : eval step p cs s = some (x, s', cs')) : Q x s' := by
  induction p generalizing s cs with
  | ret y =>
    simp only [eval, Option.some.injEq, Prod.mk.injEq] at he
    obtain ⟨rfl, rfl, rfl⟩ := he
    exact h
  | act a k ih =>
    obtain ⟨c, cs₁, r, s₁, rfl, hs, he'⟩ := eval_act he
    exact ih r (h c r s₁ hs) he'

theorem sem_possible {p : Prog A R α} {Q : α → σ → Prop} {s : σ} (h : sem (possible step) p Q s) :
    ∃ cs x s', eval step p cs s = some (x, s', []) ∧ Q x s' := by
  induction p generalizing s with
  | ret x => exact ⟨[], x, s, rfl, h⟩
  | act a k ih =>
    obtain ⟨c, r, s₁, hs, hk⟩ := h
    obtain ⟨cs, x, s', he, hQ⟩ := ih r hk
    exact ⟨c :: cs, x, s', by simp [eval, hs, he], hQ⟩

theorem always_mono {p : Prog A R α} {Q Q' : α → σ → Prop} {s : σ} (h : sem (always step) p Q s)
    (hQ : ∀ x s', Q x s' → Q' x s') : sem (always step) p Q' s := by
  induction p generalizing s with
  | ret x => exact hQ x s h
  | act a k ih => exact fun c r s' hs => ih r (h c r s' hs)

end Runs

/-! ### Ghost disciplines -/

/-- What a program has to respect, and may rely on, in terms of a ghost value. -/
structure Discipline (A : Type) (R : A → Type) (γ : Type) where
  /-- The ghost value after an action and its answer. -/
  upd : γ → (a : A) → R a → γ
  /-- What has to hold before an action. -/
  req : γ → A → Prop
  /-- The answers the program has to deal with. -/
  may : γ → (a : A) → R a → Prop

section Wp

variable {A : Type} {R : A → Type} {γ α β ε : Type} {D : Discipline A R γ}

def Discipline.trans (D : Discipline A R γ) : Trans A R γ := fun a K g =>
  D.req g a ∧ ∀ r, D.may g a r → K r (D.upd g a r)

/-- From the ghost value `g`, the program meets every `req` and ends with `Q`. -/
def wp (D : Discipline A R γ) (p : Prog A R α) (Q : α → γ → Prop) (g : γ) : Prop := sem D.trans p Q g

@[simp] theorem wp_ret {x : α} {Q : α → γ → Prop} {g : γ} : wp D (.ret x) Q g ↔ Q x g := Iff.rfl

@[simp] theorem wp_pure {x : α} {Q : α → γ → Prop} {g : γ} : wp D (pure x) Q g ↔ Q x g := Iff.rfl

@[simp] theorem wp_call {a : A} {Q : R a → γ → Prop} {g : γ} :
    wp D (Prog.call a) Q g ↔ D.req g a ∧ ∀ r, D.may g a r → Q r (D.upd g a r) := Iff.rfl

theorem wp_mono {p : Prog A R α} {Q Q' : α → γ → Prop} {g : γ} (h : wp D p Q g)
    (hQ : ∀ x g', Q x g' → Q' x g') : wp D p Q' g := by
  induction p generalizing g with
  | ret x => exact hQ x g h
  | act a k ih => exact ⟨h.1, fun r hr => ih r (h.2 r hr)⟩

@[simp] theorem wp_bind {p : Prog A R α} {f : α → Prog A R β} {Q : β → γ → Prop} {g : γ} :
    wp D (p >>= f) Q g ↔ wp D p (fun x g' => wp D (f x) Q g') g := sem_bind

/-- A program over a larger signature, for a discipline that is this one on the actions of the program. -/
theorem wp_lift {A' : Type} {R' : A' → Type} {φ : A → A'} {ψ : (a : A) → R' (φ a) → R a} {D' : Discipline A' R' γ}
    (hD : ∀ g a, D.req g a → D'.req g (φ a) ∧
      ∀ r, D'.may g (φ a) r → D.may g a (ψ a r) ∧ D'.upd g (φ a) r = D.upd g a (ψ a r))
    {p : Prog A R α} {Q : α → γ → Prop} {g : γ} (h : wp D p Q g) : wp D' (p.lift φ ψ) Q g := by
  induction p generalizing g with
  | ret x => exact h
  | act a k ih =>
    obtain ⟨hreq, hmay⟩ := hD g a h.1
    refine ⟨hreq, fun r hr => ?_⟩
    obtain ⟨hr', hupd⟩ := hmay r hr
    rw [hupd]
    exact ih _ (h.2 _ hr')

/-! ### Programs that can fail -/

/-- `wp` for a program that can fail: `Q` for its value, `E` for its error. -/
def wpx (D : Discipline A R γ) (m : ExceptT ε (Prog A R) α) (Q : α → γ → Prop) (E : ε → γ → Prop)
    (g : γ) : Prop := semx D.trans m Q E g

variable {Q : α → γ → Prop} {E : ε → γ → Prop} {g : γ}

@[simp] theorem wpx_pure {x : α} : wpx D (pure x : ExceptT ε (Prog A R) α) Q E g ↔ Q x g := Iff.rfl

@[simp] theorem wpx_throw {e : ε} : wpx D (throw e : ExceptT ε (Prog A R) α) Q E g ↔ E e g := Iff.rfl

@[simp] theorem wpx_lift {p : Prog A R α} :
    wpx D (liftM p : ExceptT ε (Prog A R) α) Q E g ↔ wp D p Q g := wp_bind

theorem wpx_mono {m : ExceptT ε (Prog A R) α} {Q' : α → γ → Prop} {E' : ε → γ → Prop}
    (h : wpx D m Q E g) (hQ : ∀ x g', Q x g' → Q' x g') (hE : ∀ e g', E e g' → E' e g') :
    wpx D m Q' E' g := by
  refine wp_mono h fun r g' hr => ?_
  cases r with
  | ok x => exact hQ x g' hr
  | error e => exact hE e g' hr

/-- Sequencing with the first program's failure passed on. -/
@[simp] theorem wpx_bind {m : ExceptT ε (Prog A R) α} {f : α → ExceptT ε (Prog A R) β}
    {Q : β → γ → Prop} : wpx D (m >>= f) Q E g ↔ wpx D m (fun x g' => wpx D (f x) Q E g') E g := semx_bind

end Wp

/-! ### Programs of certain actions only -/

section Only

variable {A : Type} {R : A → Type} {γ α β ε : Type} {P : A → Prop}

/-- Every action of the program satisfies `P`, whatever the answers. -/
def Only (P : A → Prop) : Prog A R α → Prop
  | .ret _ => True
  | .act a k => P a ∧ ∀ r, Only P (k r)

theorem Only.mono {P' : A → Prop} {p : Prog A R α} (h : Only P p) (hP : ∀ a, P a → P' a) :
    Only P' p := by
  induction p with
  | ret x => trivial
  | act a k ih => exact ⟨hP a h.1, fun r => ih r (h.2 r)⟩

theorem Only.bind {p : Prog A R α} {f : α → Prog A R β} (hp : Only P p) (hf : ∀ x, Only P (f x)) :
    Only P (p >>= f) := by
  induction p with
  | ret x => exact hf x
  | act a k ih => exact ⟨hp.1, fun r => ih r (hp.2 r)⟩

theorem Only.bindE {m : ExceptT ε (Prog A R) α} {f : α → ExceptT ε (Prog A R) β}
    (hm : Only P m.run) (hf : ∀ x, Only P (f x).run) : Only P (m >>= f).run := by
  rw [ExceptT.run_bind]
  refine hm.bind fun r => ?_
  cases r with
  | ok x => exact hf x
  | error e => trivial

/-- A program of actions that a discipline does not watch meets it and leaves the ghost value. -/
theorem Only.wp {D : Discipline A R γ} {p : Prog A R α} {Q : α → γ → Prop} {g : γ} (h : Only P p)
    (hP : ∀ a, P a → D.req g a ∧ ∀ r, D.may g a r → D.upd g a r = g) (hQ : ∀ x, Q x g) :
    wp D p Q g := by
  induction p with
  | ret x => exact hQ x
  | act a k ih =>
    refine ⟨(hP a h.1).1, fun r hr => ?_⟩
    rw [(hP a h.1).2 r hr]
    exact ih r (h.2 r)

/-- **Frame rule.**  A program of actions that keep a reading `f` of the state keeps it. -/
theorem Only.always {σ C θ : Type} {step : σ → (a : A) → C → Option (R a × σ)} {f : σ → θ}
    {p : Prog A R α} {Q : α → σ → Prop} {s : σ} (h : Only P p)
    (hP : ∀ a s c r s', P a → step s a c = some (r, s') → f s' = f s)
    (hQ : ∀ x s', f s' = f s → Q x s') : sem (always step) p Q s := by
  induction p generalizing s with
  | ret x => exact hQ x s rfl
  | act a k ih =>
    intro c r s' hs
    have hf := hP a s c r s' h.1 hs
    exact ih r (h.2 r) fun x s'' hx => hQ x s'' (hx.trans hf)

end Only

/-! ### Answers that the state decides -/

section Run

variable {σ τ A : Type} {R : A → Type} {α β : Type}

/-- Run a program on a state that decides every answer. -/
def runOn (step : σ → (a : A) → R a × σ) : Prog A R α → σ → α × σ
  | .ret x, s => (x, s)
  | .act a k, s => runOn step (k (step s a).1) (step s a).2

theorem runOn_bind {step : σ → (a : A) → R a × σ} {p : Prog A R α} {f : α → Prog A R β} {s : σ} :
    runOn step (p >>= f) s = runOn step (f (runOn step p s).1) (runOn step p s).2 := by
  induction p generalizing s with
  | ret x => rfl
  | act a k ih => exact ih _

/-- A program that can fail: the rest runs on its value. -/
theorem runOn_ok {ε : Type} {step : σ → (a : A) → R a × σ} {m : ExceptT ε (Prog A R) α}
    {f : α → ExceptT ε (Prog A R) β} {s s' : σ} {x : α} (h : runOn step m.run s = (.ok x, s')) :
    runOn step (m >>= f).run s = runOn step (f x).run s' := by
  rw [ExceptT.run_bind, runOn_bind, h]

theorem runOn_error {ε : Type} {step : σ → (a : A) → R a × σ} {m : ExceptT ε (Prog A R) α}
    {f : α → ExceptT ε (Prog A R) β} {s s' : σ} {e : ε} (h : runOn step m.run s = (.error e, s')) :
    runOn step (m >>= f).run s = (.error e, s') := by
  rw [ExceptT.run_bind, runOn_bind, h]
  rfl

/-- A program over a larger signature that gives the same answers runs in the same way. -/
theorem runOn_lift {A' : Type} {R' : A' → Type} {φ : A → A'} {ψ : (a : A) → R' (φ a) → R a}
    {step : σ → (a : A) → R a × σ} {step' : σ → (a : A') → R' a × σ}
    (h : ∀ s a, (ψ a (step' s (φ a)).1, (step' s (φ a)).2) = step s a) (p : Prog A R α) (s : σ) :
    runOn step' (p.lift φ ψ) s = runOn step p s := by
  induction p generalizing s with
  | ret x => rfl
  | act a k ih =>
    simp only [Prog.lift, runOn]
    rw [ih, ← h s a]

/-- **Simulation.**  A program of actions that get the same answers from related states, and leave them
related, ends with the same value in both. -/
theorem Only.simulates {P : A → Prop} {step : σ → (a : A) → R a × σ} {step' : τ → (a : A) → R a × τ}
    {p : Prog A R α} (h : Only P p) (Rel : σ → τ → Prop)
    (hstep : ∀ a s t, P a → Rel s t → (step s a).1 = (step' t a).1 ∧ Rel (step s a).2 (step' t a).2)
    {s : σ} {t : τ} (hst : Rel s t) :
    (runOn step p s).1 = (runOn step' p t).1 ∧ Rel (runOn step p s).2 (runOn step' p t).2 := by
  induction p generalizing s t with
  | ret x => exact ⟨rfl, hst⟩
  | act a k ih =>
    obtain ⟨hr, hrel⟩ := hstep a s t h.1 hst
    simp only [runOn]
    rw [hr]
    exact ih _ (h.2 _) hrel

end Run

/-! ### Programs that stop at their first failed action -/

section FailFast

variable {A : Type} {R : A → Type} {γ α β ε : Type} {P : A → Prop} {bad : (a : A) → R a → Bool}

/-- The actions satisfy `P`, the program ends in an error right after a `bad` answer, and in no other
way. -/
def FailFast (P : A → Prop) (bad : (a : A) → R a → Bool) : Prog A R (Except ε α) → Prop
  | .ret (.ok _) => True
  | .ret (.error _) => False
  | .act a k => P a ∧ ∀ r, (bad a r = true → ∃ e, k r = .ret (.error e)) ∧
      (bad a r = false → FailFast P bad (k r))

theorem FailFast.mono {P' : A → Prop} {p : Prog A R (Except ε α)} (h : FailFast P bad p)
    (hP : ∀ a, P a → P' a) : FailFast P' bad p := by
  induction p with
  | ret x =>
    cases x with
    | ok x => trivial
    | error e => exact h
  | act a k ih => exact ⟨hP a h.1, fun r => ⟨(h.2 r).1, fun hr => ih r ((h.2 r).2 hr)⟩⟩

theorem FailFast.bindE {m : ExceptT ε (Prog A R) α} {f : α → ExceptT ε (Prog A R) β}
    (hm : FailFast P bad m.run) (hf : ∀ x, FailFast P bad (f x).run) : FailFast P bad (m >>= f).run := by
  rw [ExceptT.run_bind]
  generalize m.run = p at hm
  induction p with
  | ret x =>
    cases x with
    | ok x => exact hf x
    | error e => exact hm.elim
  | act a k ih =>
    refine ⟨hm.1, fun r => ⟨fun hr => ?_, fun hr => ih r ((hm.2 r).2 hr)⟩⟩
    obtain ⟨e, he⟩ := (hm.2 r).1 hr
    refine ⟨e, ?_⟩
    show (k r >>= _) = _
    rw [he]
    rfl

/-- Such a program performs actions of `P` only. -/
theorem FailFast.only {p : Prog A R (Except ε α)} (h : FailFast P bad p) : Only P p := by
  induction p with
  | ret x => trivial
  | act a k ih =>
    refine ⟨h.1, fun r => ?_⟩
    cases hr : bad a r with
    | true =>
      obtain ⟨e, he⟩ := (h.2 r).1 hr
      rw [he]
      trivial
    | false => exact ih r ((h.2 r).2 hr)

/-- If a discipline does not watch the good answers to such actions, the program ends with the ghost
value it began with, or in an error right after a bad answer. -/
theorem FailFast.wpx {D : Discipline A R γ} {m : ExceptT ε (Prog A R) α} {Q : α → γ → Prop}
    {F : ε → γ → Prop} {g : γ} (h : FailFast P bad m.run)
    (hP : ∀ a, P a → D.req g a ∧ ∀ r, D.may g a r → bad a r = false → D.upd g a r = g)
    (hQ : ∀ x, Q x g) (hF : ∀ a r e, P a → D.may g a r → bad a r = true → F e (D.upd g a r)) :
    wpx D m Q F g := by
  unfold Conc.wpx semx
  generalize m.run = p at h ⊢
  induction p with
  | ret x =>
    cases x with
    | ok x => exact hQ x
    | error e => exact h.elim
  | act a k ih =>
    refine ⟨(hP a h.1).1, fun r hr => ?_⟩
    cases hb : bad a r with
    | true =>
      obtain ⟨e, he⟩ := (h.2 r).1 hb
      rw [he]
      exact hF a r e h.1 hr hb
    | false =>
      rw [(hP a h.1).2 r hr hb]
      exact ih r ((h.2 r).2 hb)

end FailFast

end Conc
