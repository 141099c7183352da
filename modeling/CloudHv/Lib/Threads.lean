import CloudHv.Lib.Prog
import Mathlib.Data.List.Basic

/-!
# Threads — interleavings of programs over a shared state

A `System` runs any number of threads, each a `Prog` over the actions of the system, on one shared
state.  A step is one action of one thread (`act`), or a task coming in from outside (`arrive`).
What the environment decides (which thread runs, which answer a fallible action gives) is in the
step, so a run is a list of labels (`exec`) and can be evaluated; `Reach ok` is the set of
configurations reached by runs all of whose steps meet the condition `ok`.

Every thread keeps the list of its own actions and answers, so the ghost value of a `Discipline` is
a function of the thread (`ghost`).  The rule for proofs is `Reach.inv`: if every task's program
meets the discipline, and every single action keeps an invariant of the shared state and the ghost
values, then the invariant holds in every configuration reached.
-/

namespace Conc

/-- A sum over the threads after one of them has changed. -/
theorem sum_map_set {γ : Type} (f : γ → ℕ) {l : List γ} {i : ℕ} {g : γ} (h : l[i]? = some g) (g' : γ) :
    ((l.set i g').map f).sum + f g = (l.map f).sum + f g' := by
  induction l generalizing i with
  | nil => simp at h
  | cons a l ih =>
    cases i with
    | zero =>
      obtain rfl := Option.some.inj h
      simp only [List.set_cons_zero, List.map_cons, List.sum_cons]
      omega
    | succ i =>
      have := ih h
      simp only [List.set_cons_succ, List.map_cons, List.sum_cons]
      omega

/-- A number of threads after one of them has changed. -/
theorem countP_set {γ : Type} (p : γ → Bool) {l : List γ} {i : ℕ} {g : γ} (h : l[i]? = some g) (g' : γ) :
    (l.set i g').countP p + (if p g then 1 else 0) = l.countP p + (if p g' then 1 else 0) := by
  induction l generalizing i with
  | nil => simp at h
  | cons a l ih =>
    cases i with
    | zero =>
      obtain rfl := Option.some.inj h
      simp only [List.set_cons_zero, List.countP_cons]
      omega
    | succ i =>
      have := ih h
      simp only [List.set_cons_succ, List.countP_cons]
      omega

section Set

variable {γ : Type} {l : List γ} {i j : ℕ} {g g' u : γ}

/-- The threads after one of them has changed. -/
theorem getElem?_set_cases (hj : (l.set i g')[j]? = some u) : (j = i ∧ u = g') ∨ (j ≠ i ∧ l[j]? = some u) := by
  rw [List.getElem?_set] at hj
  split at hj
  · next hij =>
    split at hj
    · exact .inl ⟨hij.symm, (Option.some.inj hj).symm⟩
    · cases hj
  · next hij => exact .inr ⟨Ne.symm hij, hj⟩

theorem mem_set_cases (hu : u ∈ l.set i g') : u = g' ∨ ∃ j, j ≠ i ∧ l[j]? = some u := by
  obtain ⟨j, hj⟩ := List.getElem?_of_mem hu
  rcases getElem?_set_cases hj with ⟨-, rfl⟩ | h
  · exact .inl rfl
  · exact .inr ⟨j, h⟩

theorem mem_set_of_ne (hij : j ≠ i) (hj : l[j]? = some u) : u ∈ l.set i g' := by
  refine List.mem_of_getElem? (i := j) ?_
  rw [List.getElem?_set_ne (Ne.symm hij)]
  exact hj

theorem mem_set_self (hi : l[i]? = some g) : g' ∈ l.set i g' :=
  List.mem_of_getElem? (List.getElem?_set_self (List.getElem?_eq_some_iff.mp hi).1)

theorem set_self (hi : l[i]? = some g) : l.set i g = l := by
  obtain ⟨hlt, rfl⟩ := List.getElem?_eq_some_iff.mp hi
  exact List.set_getElem_self hlt

/-- What some thread is doing, some thread still does when the one that moves goes on with it. -/
theorem exists_mem_set {P : γ → Prop} (hi : l[i]? = some g) (h : ∃ u ∈ l, P u) (hP : P g → P g') :
    ∃ u ∈ l.set i g', P u := by
  obtain ⟨u, hu, hPu⟩ := h
  obtain ⟨j, hj⟩ := List.getElem?_of_mem hu
  by_cases hji : j = i
  · subst hji
    obtain rfl := Option.some.inj (hi.symm.trans hj)
    exact ⟨g', mem_set_self hi, hP hPu⟩
  · exact ⟨u, mem_set_of_ne hji hj, hPu⟩

end Set

/-- A test of all threads but one that can be evaluated, for a reading of the threads. -/
theorem others_of_all {γ δ : Type} {P : γ → Prop} {l : List γ} {i j : ℕ} {v : δ} (f : γ → δ)
    [dec : ∀ (u : γ) (j : ℕ), Decidable (j = i ∨ P u)] (h : (l.zipIdx.all fun (u, j) => decide (j = i ∨ P u)) = true)
    (hji : j ≠ i) (hj : (l.map f)[j]? = some v) : ∃ u, l[j]? = some u ∧ f u = v ∧ P u := by
  rw [List.getElem?_map] at hj
  obtain ⟨u, hu, rfl⟩ := Option.map_eq_some_iff.mp hj
  have hmem : (u, j) ∈ l.zipIdx := List.mem_zipIdx_iff_getElem?.mpr hu
  exact ⟨u, hu, rfl, (of_decide_eq_true (List.all_eq_true.mp h _ hmem)).resolve_left hji⟩

/-- No two threads have the same key. -/
def Apart {γ κ : Type} (f : γ → Option κ) (l : List γ) : Prop :=
  ∀ (i j : ℕ) g g' k, l[i]? = some g → l[j]? = some g' → f g = some k → f g' = some k → i = j

/-- A thread that changes keeps its key, or takes one that no other thread has. -/
theorem Apart.set {γ κ : Type} {f : γ → Option κ} {l : List γ} (h : Apart f l) {i : ℕ} {g' : γ}
    (hg : ∀ k, f g' = some k → ∀ j u, l[j]? = some u → f u = some k → j = i) : Apart f (l.set i g') := by
  intro a b u v k ha hb hu hv
  rw [List.getElem?_set] at ha hb
  split at ha
  · next hia =>
    subst hia
    split at hb
    · next hib => exact hib
    · obtain ⟨-, rfl⟩ : i < l.length ∧ g' = u := by simpa using ha
      exact (hg k hu b v hb hv).symm
  · split at hb
    · next hib =>
      subst hib
      obtain ⟨-, rfl⟩ : i < l.length ∧ g' = v := by simpa using hb
      exact hg k hv a u ha hu
    · exact h a b u v k ha hb hu hv

/-- New threads without a key. -/
theorem Apart.append {γ κ : Type} {f : γ → Option κ} {l : List γ} (h : Apart f l) {l' : List γ}
    (hl : ∀ g ∈ l', f g = none) : Apart f (l ++ l') := by
  have hold : ∀ (i : ℕ) g k, (l ++ l')[i]? = some g → f g = some k → l[i]? = some g := by
    intro i g k hi hg
    rw [List.getElem?_append] at hi
    split at hi
    · exact hi
    · rw [hl g (List.mem_of_getElem? hi)] at hg
      cases hg
  intro i j g g' k hi hj hg hg'
  exact h i j g g' k (hold i g k hi hg) (hold j g' k hj hg') hg hg'

/-- A new thread with a new key. -/
theorem Apart.concat {γ κ : Type} {f : γ → Option κ} {l : List γ} (h : Apart f l) {g : γ}
    (hg : ∀ k, f g = some k → ∀ u ∈ l, f u ≠ some k) : Apart f (l ++ [g]) := by
  intro i j u v k hi hj hu hv
  rw [List.getElem?_append] at hi hj
  split at hi
  · split at hj
    · exact h i j u v k hi hj hu hv
    · obtain rfl := List.mem_singleton.mp (List.mem_of_getElem? hj)
      exact absurd hu (hg k hv u (List.mem_of_getElem? hi))
  · obtain rfl := List.mem_singleton.mp (List.mem_of_getElem? hi)
    split at hj
    · exact absurd hv (hg k hu v (List.mem_of_getElem? hj))
    · have hij : i - l.length < 1 ∧ j - l.length < 1 := by
        constructor
        · exact (List.getElem?_eq_some_iff.mp hi).1
        · exact (List.getElem?_eq_some_iff.mp hj).1
      omega

/-- An action with its answer. -/
abbrev Act (A : Type) (R : A → Type) := (a : A) × R a

/-- A running task: what it was started as, what is left to run, and what it did so far. -/
structure Thread (A : Type) (R : A → Type) (T : Type) where
  task : T
  prog : Prog A R Unit
  log : List (Act A R)

/-- A system of tasks `T` over a shared state `σ`; `C` is what the environment decides in a step. -/
structure System (σ C A : Type) (R : A → Type) (T : Type) where
  /-- The program of a task. -/
  body : T → Prog A R Unit
  /-- One atomic action. -/
  perform : σ → (a : A) → C → Option (R a × σ)
  /-- The tasks an action starts. -/
  spawned : (a : A) → R a → List T
  /-- The tasks that can come in from outside. -/
  external : σ → T → Bool

structure Conf (σ A : Type) (R : A → Type) (T : Type) where
  shared : σ
  threads : List (Thread A R T)

/-- What a step does: a task arrives, or thread `i` performs `a` and gets the answer `r`. -/
inductive Event (A : Type) (R : A → Type) (T : Type) where
  | arrive (t : T)
  | act (i : ℕ) (a : A) (r : R a)

/-- How a step is chosen. -/
inductive Label (C T : Type) where
  | arrive (t : T)
  | sched (i : ℕ) (c : C)

variable {σ C A T γ : Type} {R : A → Type}

/-- No thread has anything left to do. -/
def Conf.quiet (x : Conf σ A R T) : Bool := x.threads.all fun t => t.prog.done

namespace System

variable (S : System σ C A R T)

def start (t : T) : Thread A R T := ⟨t, S.body t, []⟩

def init (s : σ) (t : T) : Conf σ A R T := ⟨s, [S.start t]⟩

/-- The configuration after thread `i` (task `t`, log `l`) got the answer `r` to `a`. -/
def next (x : Conf σ A R T) (i : ℕ) (t : T) (l : List (Act A R)) (a : A)
    (k : R a → Prog A R Unit) (r : R a) (s' : σ) : Conf σ A R T :=
  ⟨s', x.threads.set i ⟨t, k r, l ++ [⟨a, r⟩]⟩ ++ (S.spawned a r).map S.start⟩

/-- One step, with the event it is. -/
def stepWith (x : Conf σ A R T) : Label C T → Option (Event A R T × Conf σ A R T)
  | .arrive t =>
    if S.external x.shared t then some (.arrive t, ⟨x.shared, x.threads ++ [S.start t]⟩) else none
  | .sched i c =>
    match x.threads[i]? with
    | some ⟨t, .act a k, l⟩ =>
      match S.perform x.shared a c with
      | some (r, s') => some (.act i a r, S.next x i t l a k r s')
      | none => none
    | _ => none

/-- Run the labels, as long as every step meets `ok`. -/
def exec (ok : Conf σ A R T → Event A R T → Bool) :
    Conf σ A R T → List (Label C T) → Option (Conf σ A R T)
  | x, [] => some x
  | x, l :: ls =>
    match S.stepWith x l with
    | some (e, y) => if ok x e then exec ok y ls else none
    | none => none

/-- The steps of the system. -/
inductive Step : Conf σ A R T → Event A R T → Conf σ A R T → Prop
  | arrive {x : Conf σ A R T} {t : T} : S.external x.shared t = true →
      Step x (.arrive t) ⟨x.shared, x.threads ++ [S.start t]⟩
  | act {x : Conf σ A R T} {i : ℕ} {t : T} {a : A} {k : R a → Prog A R Unit} {l : List (Act A R)}
      {c : C} {r : R a} {s' : σ} : x.threads[i]? = some ⟨t, .act a k, l⟩ →
      S.perform x.shared a c = some (r, s') → Step x (.act i a r) (S.next x i t l a k r s')

/-- The configurations reached from `x₀` by steps that all meet `ok`. -/
inductive Reach (ok : Conf σ A R T → Event A R T → Prop) (x₀ : Conf σ A R T) :
    Conf σ A R T → Prop
  | init : Reach ok x₀ x₀
  | step {x y : Conf σ A R T} {e : Event A R T} : Reach ok x₀ x → S.Step x e y → ok x e →
      Reach ok x₀ y

section History

variable {H : Type} (note : H → Conf σ A R T → Event A R T → σ → H)

/-- The runs from `x₀` whose steps all meet `ok`, with what was written down of them: `note` is the
history after a step, which it can make of the shared state that the step leaves. -/
inductive Hist (ok : H → Conf σ A R T → Event A R T → Prop) (h₀ : H) (x₀ : Conf σ A R T) :
    H → Conf σ A R T → Prop
  | init : Hist ok h₀ x₀ h₀ x₀
  | step {h : H} {x y : Conf σ A R T} {e : Event A R T} : Hist ok h₀ x₀ h x → S.Step x e y →
      ok h x e → Hist ok h₀ x₀ (note h x e y.shared) y

/-- Run the labels and write down what they do. -/
def execHist (ok : H → Conf σ A R T → Event A R T → Bool) :
    H → Conf σ A R T → List (Label C T) → Option (H × Conf σ A R T)
  | h, x, [] => some (h, x)
  | h, x, l :: ls =>
    match S.stepWith x l with
    | some (e, y) => if ok h x e then execHist ok (note h x e y.shared) y ls else none
    | none => none

end History

variable {S}

theorem step_of_stepWith {x y : Conf σ A R T} {l : Label C T} {e : Event A R T}
    (h : S.stepWith x l = some (e, y)) : S.Step x e y := by
  cases l with
  | arrive t =>
    simp only [stepWith] at h
    split at h
    · next ht => simp only [Option.some.injEq, Prod.mk.injEq] at h; obtain ⟨rfl, rfl⟩ := h
                 exact .arrive ht
    · cases h
  | sched i c =>
    simp only [stepWith] at h
    split at h
    · next t a k l hi =>
      split at h
      · next r s' hp => simp only [Option.some.injEq, Prod.mk.injEq] at h; obtain ⟨rfl, rfl⟩ := h
                        exact .act hi hp
      · cases h
    · cases h

/-- A checked run reaches its last configuration. -/
theorem reach_of_exec {ok : Conf σ A R T → Event A R T → Bool} {x₀ x y : Conf σ A R T}
    {ls : List (Label C T)} (h0 : S.Reach (fun x e => ok x e = true) x₀ x)
    (h : S.exec ok x ls = some y) : S.Reach (fun x e => ok x e = true) x₀ y := by
  induction ls generalizing x with
  | nil => simp only [exec, Option.some.injEq] at h; exact h ▸ h0
  | cons l ls ih =>
    simp only [exec] at h
    split at h
    · next e z hs =>
      split at h
      · next ho => exact ih (h0.step (step_of_stepWith hs) ho) h
      · cases h
    · cases h

/-- A run that can be evaluated, and a test that its last configuration passes. -/
theorem exists_reach {ok : Conf σ A R T → Event A R T → Bool} {x₀ : Conf σ A R T}
    {ls : List (Label C T)} {P : Conf σ A R T → Bool} (h : (S.exec ok x₀ ls).any P = true) :
    ∃ x, S.Reach (fun x e => ok x e = true) x₀ x ∧ P x = true := by
  rw [Option.any_eq_true] at h
  obtain ⟨x, hx, hP⟩ := h
  exact ⟨x, reach_of_exec .init hx, hP⟩

section History

variable {H : Type} {note : H → Conf σ A R T → Event A R T → σ → H}

theorem hist_of_execHist {ok : H → Conf σ A R T → Event A R T → Bool} {h₀ h h' : H}
    {x₀ x y : Conf σ A R T} {ls : List (Label C T)}
    (h0 : S.Hist note (fun h x e => ok h x e = true) h₀ x₀ h x)
    (hx : S.execHist note ok h x ls = some (h', y)) :
    S.Hist note (fun h x e => ok h x e = true) h₀ x₀ h' y := by
  induction ls generalizing h x with
  | nil =>
    obtain ⟨rfl, rfl⟩ := Prod.mk.inj (Option.some.inj hx)
    exact h0
  | cons l ls ih =>
    simp only [execHist] at hx
    split at hx
    · next e z hs =>
      split at hx
      · next ho => exact ih (h0.step (step_of_stepWith hs) ho) hx
      · cases hx
    · cases hx

/-- A written-down run that can be evaluated, and a test that its end passes. -/
theorem exists_hist {ok : H → Conf σ A R T → Event A R T → Bool} {h₀ : H} {x₀ : Conf σ A R T}
    {ls : List (Label C T)} {P : H × Conf σ A R T → Bool}
    (h : (S.execHist note ok h₀ x₀ ls).any P = true) :
    ∃ h x, S.Hist note (fun h x e => ok h x e = true) h₀ x₀ h x ∧ P (h, x) = true := by
  rw [Option.any_eq_true] at h
  obtain ⟨⟨h', x⟩, hx, hP⟩ := h
  exact ⟨h', x, hist_of_execHist .init hx, hP⟩

/-- A run is a written-down run of which nothing is written down. -/
theorem Reach.hist {ok : Conf σ A R T → Event A R T → Prop} {x₀ x : Conf σ A R T}
    (h : S.Reach ok x₀ x) : S.Hist (fun (_ : Unit) _ _ _ => ()) (fun _ => ok) () x₀ () x := by
  induction h with
  | init => exact .init
  | step _ hs ho ih => exact ih.step hs ho

/-- What is written down does not matter to where a run can go. -/
theorem Hist.reach {ok : H → Conf σ A R T → Event A R T → Prop} {ok' : Conf σ A R T → Event A R T → Prop}
    {h₀ h : H} {x₀ x : Conf σ A R T} (hh : S.Hist note ok h₀ x₀ h x)
    (hok : ∀ h x e, ok h x e → ok' x e) : S.Reach ok' x₀ x := by
  induction hh with
  | init => exact .init
  | step _ hs ho ih => exact ih.step hs (hok _ _ _ ho)

theorem Hist.mono {ok ok' : H → Conf σ A R T → Event A R T → Prop} {h₀ h : H} {x₀ x : Conf σ A R T}
    (hh : S.Hist note ok h₀ x₀ h x) (hok : ∀ h x e, ok h x e → ok' h x e) : S.Hist note ok' h₀ x₀ h x := by
  induction hh with
  | init => exact .init
  | step _ hs ho ih => exact ih.step hs (hok _ _ _ ho)

end History

theorem Reach.mono {ok ok' : Conf σ A R T → Event A R T → Prop} {x₀ x : Conf σ A R T}
    (h : S.Reach ok x₀ x) (hok : ∀ x e, ok x e → ok' x e) : S.Reach ok' x₀ x := by
  induction h with
  | init => exact .init
  | step _ hs ho ih => exact ih.step hs (hok _ _ ho)

/-! ### Ghost values and the invariant rule -/

/-- The ghost value of a thread: its task's initial value, moved on by everything it did. -/
def ghost (D : Discipline A R γ) (g₀ : T → γ) (t : Thread A R T) : γ :=
  t.log.foldl (fun g e => D.upd g e.1 e.2) (g₀ t.task)

variable {D : Discipline A R γ} {g₀ : T → γ}

@[simp] theorem ghost_start (t : T) : ghost D g₀ (S.start t) = g₀ t := rfl

theorem ghost_concat (t : T) (p : Prog A R Unit) (l : List (Act A R)) (a : A) (r : R a) :
    ghost D g₀ ⟨t, p, l ++ [⟨a, r⟩]⟩ = D.upd (ghost D g₀ ⟨t, p, l⟩) a r := by
  simp [ghost, List.foldl_append]

/-- A reading of the ghost value that no action changes. -/
theorem foldl_reading {θ : Type} {f : γ → θ} (hf : ∀ g a r, f (D.upd g a r) = f g) (l : List (Act A R)) (g : γ) :
    f (l.foldl (fun g e => D.upd g e.1 e.2) g) = f g := by
  induction l generalizing g with
  | nil => rfl
  | cons e l ih => rw [List.foldl_cons, ih, hf]

theorem ghost_reading {θ : Type} {f : γ → θ} (hf : ∀ g a r, f (D.upd g a r) = f g) (t : Thread A R T) :
    f (ghost D g₀ t) = f (g₀ t.task) := foldl_reading hf t.log _

/-- A reading of the ghost value that can be followed along the log without it. -/
theorem ghost_view {θ : Type} {v₀ : θ} (f : γ → θ) (k : θ → Act A R → θ) (t : Thread A R T)
    (h₀ : f (g₀ t.task) = v₀) (hk : ∀ g a r, k (f g) ⟨a, r⟩ = f (D.upd g a r)) :
    f (ghost D g₀ t) = t.log.foldl k v₀ := by
  rw [← h₀]
  exact (List.foldl_hom f fun g e => hk g e.1 e.2).symm

/-- What an action brings about and no action undoes holds after a log with the action. -/
theorem ghost_of_mem {P : γ → Prop} {t : Thread A R T} {a : A} {r : R a} (he : ⟨a, r⟩ ∈ t.log)
    (hset : ∀ g, P (D.upd g a r)) (hkeep : ∀ g b q, P g → P (D.upd g b q)) : P (ghost D g₀ t) := by
  have hfold : ∀ (l : List (Act A R)) g, P g → P (l.foldl (fun g e => D.upd g e.1 e.2) g) := by
    intro l
    induction l with
    | nil => exact fun g hg => hg
    | cons e l ih => exact fun g hg => ih _ (hkeep g e.1 e.2 hg)
  obtain ⟨pre, post, hl⟩ := List.append_of_mem he
  rw [ghost, hl, List.foldl_append, List.foldl_cons]
  exact hfold post _ (hset _)

/-- What holds in the end and did not at first was brought about by an action of the log. -/
theorem mem_of_ghost {P : γ → Prop} {t : Thread A R T} (h₀ : ¬ P (g₀ t.task)) (hP : P (ghost D g₀ t)) :
    ∃ e ∈ t.log, ∃ g, ¬ P g ∧ P (D.upd g e.1 e.2) := by
  have hfold : ∀ (l : List (Act A R)) g, ¬ P g → P (l.foldl (fun g e => D.upd g e.1 e.2) g) →
      ∃ e ∈ l, ∃ g, ¬ P g ∧ P (D.upd g e.1 e.2) := by
    intro l
    induction l with
    | nil => exact fun g hg hP => absurd hP hg
    | cons e l ih =>
      intro g hg hP
      by_cases he : P (D.upd g e.1 e.2)
      · exact ⟨e, List.mem_cons_self, g, hg, he⟩
      · obtain ⟨e', he', hstep⟩ := ih _ he hP
        exact ⟨e', List.mem_cons_of_mem e he', hstep⟩
  exact hfold t.log _ h₀ hP

theorem ghosts_next (x : Conf σ A R T) (i : ℕ) (t : T) (l : List (Act A R)) (a : A)
    (k : R a → Prog A R Unit) (r : R a) (s' : σ) :
    (S.next x i t l a k r s').threads.map (ghost D g₀) =
      (x.threads.map (ghost D g₀)).set i (D.upd (ghost D g₀ ⟨t, .act a k, l⟩) a r) ++
        (S.spawned a r).map g₀ := by
  simp only [next, List.map_append, List.map_set, List.map_map]
  rw [ghost_concat]
  rfl

/-- **The invariant rule**, for a system whose tasks all satisfy `W`.  `I` relates what was written down
and the shared state to the ghost values of the threads.  Every task's program meets the discipline (and
ends with `fin`); an action whose requirement holds and whose step meets `ok` gets an answer the program
expects and keeps `I`; arrivals keep `I`. -/
theorem Hist.invOn {H : Type} {note : H → Conf σ A R T → Event A R T → σ → H}
    {ok : H → Conf σ A R T → Event A R T → Prop} {n₀ n : H} {x₀ x : Conf σ A R T}
    (W : T → Prop) (I : H → σ → List γ → Prop) (fin : γ → Prop)
    (hbody : ∀ t, W t → wp D (S.body t) (fun _ g => fin g) (g₀ t))
    (hspawn : ∀ a r, ∀ t ∈ S.spawned a r, W t)
    (h₀ : I n₀ x₀.shared (x₀.threads.map (ghost D g₀)))
    (hw₀ : ∀ t ∈ x₀.threads, wp D t.prog (fun _ g => fin g) (ghost D g₀ t))
    (harr : ∀ n x t, I n x.shared (x.threads.map (ghost D g₀)) → S.external x.shared t = true →
      ok n x (.arrive t) → W t ∧
        I (note n x (.arrive t) x.shared) x.shared (x.threads.map (ghost D g₀) ++ [g₀ t]))
    (hact : ∀ n (x : Conf σ A R T) i g a c r s', I n x.shared (x.threads.map (ghost D g₀)) →
      (x.threads.map (ghost D g₀))[i]? = some g → D.req g a → S.perform x.shared a c = some (r, s') →
      ok n x (.act i a r) → D.may g a r ∧ I (note n x (.act i a r) s') s'
        ((x.threads.map (ghost D g₀)).set i (D.upd g a r) ++ (S.spawned a r).map g₀))
    (h : S.Hist note ok n₀ x₀ n x) :
    I n x.shared (x.threads.map (ghost D g₀)) ∧
      ∀ t ∈ x.threads, wp D t.prog (fun _ g => fin g) (ghost D g₀ t) := by
  induction h with
  | init => exact ⟨h₀, hw₀⟩
  | @step n x y e _ hs ho ih =>
    obtain ⟨hI, hW⟩ := ih
    cases hs with
    | @arrive t ht =>
      obtain ⟨hWt, hI'⟩ := harr n x t hI ht ho
      refine ⟨?_, fun u hu => ?_⟩
      · rw [List.map_append, List.map_singleton, ghost_start]
        exact hI'
      · rcases List.mem_append.mp hu with hu | hu
        · exact hW u hu
        · rw [List.mem_singleton] at hu
          subst hu
          exact hbody t hWt
    | @act i t a k l c r s' hi hp =>
      have hw := hW _ (List.mem_of_getElem? hi)
      have hg : (x.threads.map (ghost D g₀))[i]? = some (ghost D g₀ ⟨t, .act a k, l⟩) := by
        rw [List.getElem?_map, hi]; rfl
      obtain ⟨hm, hI'⟩ := hact n x i _ a c r s' hI hg hw.1 hp ho
      refine ⟨by rw [ghosts_next]; exact hI', fun u hu => ?_⟩
      rcases List.mem_append.mp hu with hu | hu
      · rcases List.mem_or_eq_of_mem_set hu with hu | rfl
        · exact hW u hu
        · rw [ghost_concat]; exact hw.2 r hm
      · obtain ⟨t', ht', rfl⟩ := List.mem_map.mp hu
        exact hbody t' (hspawn a r t' ht')

/-- The invariant rule for runs of which nothing is written down. -/
theorem Reach.invOn {ok : Conf σ A R T → Event A R T → Prop} {x₀ x : Conf σ A R T}
    (W : T → Prop) (I : σ → List γ → Prop) (fin : γ → Prop)
    (hbody : ∀ t, W t → wp D (S.body t) (fun _ g => fin g) (g₀ t))
    (hspawn : ∀ a r, ∀ t ∈ S.spawned a r, W t)
    (h₀ : I x₀.shared (x₀.threads.map (ghost D g₀)))
    (hw₀ : ∀ t ∈ x₀.threads, wp D t.prog (fun _ g => fin g) (ghost D g₀ t))
    (harr : ∀ x t, I x.shared (x.threads.map (ghost D g₀)) → S.external x.shared t = true →
      ok x (.arrive t) → W t ∧ I x.shared (x.threads.map (ghost D g₀) ++ [g₀ t]))
    (hact : ∀ (x : Conf σ A R T) i g a c r s', I x.shared (x.threads.map (ghost D g₀)) →
      (x.threads.map (ghost D g₀))[i]? = some g → D.req g a → S.perform x.shared a c = some (r, s') →
      ok x (.act i a r) → D.may g a r ∧
        I s' ((x.threads.map (ghost D g₀)).set i (D.upd g a r) ++ (S.spawned a r).map g₀))
    (h : S.Reach ok x₀ x) :
    I x.shared (x.threads.map (ghost D g₀)) ∧
      ∀ t ∈ x.threads, wp D t.prog (fun _ g => fin g) (ghost D g₀ t) :=
  Hist.invOn W (fun _ => I) fin hbody hspawn h₀ hw₀ (fun _ => harr) (fun _ => hact) h.hist

/-- The invariant rule for an invariant of what was written down and the shared state. -/
theorem Hist.shared {H : Type} {note : H → Conf σ A R T → Event A R T → σ → H}
    {ok : H → Conf σ A R T → Event A R T → Prop} {n₀ n : H} {x₀ x : Conf σ A R T} (I : H → σ → Prop)
    (h₀ : I n₀ x₀.shared)
    (harr : ∀ n x t, I n x.shared → ok n x (.arrive t) → I (note n x (.arrive t) x.shared) x.shared)
    (hact : ∀ n (x : Conf σ A R T) i a c r s', I n x.shared → S.perform x.shared a c = some (r, s') →
      ok n x (.act i a r) → I (note n x (.act i a r) s') s')
    (h : S.Hist note ok n₀ x₀ n x) : I n x.shared := by
  induction h with
  | init => exact h₀
  | @step n x y e _ hs ho ih =>
    cases hs with
    | @arrive t ht => exact harr n x t ih ho
    | @act i t a k l c r s' hi hp => exact hact n x i a c r s' ih hp ho

/-- The invariant rule for an invariant of the shared state. -/
theorem Reach.shared {ok : Conf σ A R T → Event A R T → Prop} {x₀ x : Conf σ A R T} (I : σ → Prop)
    (h₀ : I x₀.shared)
    (hact : ∀ (x : Conf σ A R T) i a c r s', I x.shared → S.perform x.shared a c = some (r, s') →
      ok x (.act i a r) → I s')
    (h : S.Reach ok x₀ x) : I x.shared :=
  Hist.shared (fun _ => I) h₀ (fun _ _ _ hI _ => hI) (fun _ => hact) h.hist

/-- The invariant rule for a system all of whose tasks meet the discipline. -/
theorem Reach.inv {ok : Conf σ A R T → Event A R T → Prop} {x₀ x : Conf σ A R T}
    (I : σ → List γ → Prop) (fin : γ → Prop)
    (hbody : ∀ t, wp D (S.body t) (fun _ g => fin g) (g₀ t))
    (h₀ : I x₀.shared (x₀.threads.map (ghost D g₀)))
    (hw₀ : ∀ t ∈ x₀.threads, wp D t.prog (fun _ g => fin g) (ghost D g₀ t))
    (harr : ∀ x t, I x.shared (x.threads.map (ghost D g₀)) → S.external x.shared t = true →
      ok x (.arrive t) → I x.shared (x.threads.map (ghost D g₀) ++ [g₀ t]))
    (hact : ∀ (x : Conf σ A R T) i g a c r s', I x.shared (x.threads.map (ghost D g₀)) →
      (x.threads.map (ghost D g₀))[i]? = some g → D.req g a → S.perform x.shared a c = some (r, s') →
      ok x (.act i a r) → D.may g a r ∧
        I s' ((x.threads.map (ghost D g₀)).set i (D.upd g a r) ++ (S.spawned a r).map g₀))
    (h : S.Reach ok x₀ x) :
    I x.shared (x.threads.map (ghost D g₀)) ∧
      ∀ t ∈ x.threads, wp D t.prog (fun _ g => fin g) (ghost D g₀ t) :=
  Reach.invOn (fun _ => True) I fin (fun t _ => hbody t) (fun _ _ _ _ => trivial) h₀ hw₀
    (fun x t hI ht ho => ⟨trivial, harr x t hI ht ho⟩) hact h

/-- **The log rule.**  What the invariant gives at every action of a thread holds of every entry of its
log, with the ghost value the thread had then. -/
theorem Reach.log {ok : Conf σ A R T → Event A R T → Prop} {x₀ x : Conf σ A R T} {I : σ → List γ → Prop}
    {fin : γ → Prop} (P : γ → (a : A) → R a → Prop)
    (hinv : ∀ x, S.Reach ok x₀ x → I x.shared (x.threads.map (ghost D g₀)) ∧
      ∀ t ∈ x.threads, wp D t.prog (fun _ g => fin g) (ghost D g₀ t))
    (h₀ : ∀ t ∈ x₀.threads, t.log = [])
    (hact : ∀ (x : Conf σ A R T) i g a c r s', I x.shared (x.threads.map (ghost D g₀)) →
      (x.threads.map (ghost D g₀))[i]? = some g → D.req g a → S.perform x.shared a c = some (r, s') →
      ok x (.act i a r) → P g a r)
    (h : S.Reach ok x₀ x) : ∀ t ∈ x.threads, ∀ pre a r post, t.log = pre ++ ⟨a, r⟩ :: post →
      P (pre.foldl (fun g e => D.upd g e.1 e.2) (g₀ t.task)) a r := by
  have hempty : ∀ t : Thread A R T, t.log = [] → ∀ pre a r post, t.log = pre ++ ⟨a, r⟩ :: post →
      P (pre.foldl (fun g e => D.upd g e.1 e.2) (g₀ t.task)) a r := by
    intro t ht pre a r post hl
    rw [ht] at hl
    simp at hl
  induction h with
  | init => exact fun t ht => hempty t (h₀ t ht)
  | @step x y e hx hs ho ih =>
    cases hs with
    | @arrive t ht =>
      intro u hu
      rcases List.mem_append.mp hu with hu | hu
      · exact ih u hu
      · rw [List.mem_singleton.mp hu]
        exact hempty _ rfl
    | @act i t a k l c r s' hi hp =>
      obtain ⟨hI, hW⟩ := hinv x hx
      have hw := hW _ (List.mem_of_getElem? hi)
      have hg : (x.threads.map (ghost D g₀))[i]? = some (ghost D g₀ ⟨t, .act a k, l⟩) := by
        rw [List.getElem?_map, hi]; rfl
      have hP := hact x i _ a c r s' hI hg hw.1 hp ho
      intro u hu
      rcases List.mem_append.mp hu with hu | hu
      · rcases List.mem_or_eq_of_mem_set hu with hu | rfl
        · exact ih u hu
        · -- the last entry is the new one, the others are old
          intro pre b q post hl
          rcases List.eq_nil_or_concat post with rfl | ⟨post', z, rfl⟩
          · obtain ⟨rfl, hlast⟩ := List.append_inj' hl rfl
            obtain ⟨rfl, hq⟩ := Sigma.mk.inj (List.cons.inj hlast).1
            obtain rfl := eq_of_heq hq
            exact hP
          · have hl' : l ++ [⟨a, r⟩] = (pre ++ ⟨b, q⟩ :: post') ++ [z] := by
              simpa using hl
            obtain ⟨hold, -⟩ := List.append_inj' hl' rfl
            exact ih _ (List.mem_of_getElem? hi) pre b q post' hold
      · obtain ⟨t', -, rfl⟩ := List.mem_map.mp hu
        exact hempty _ rfl

/-- The ghost value of a thread that has ended is a final one. -/
theorem fin_of_done {t : Thread A R T} {fin : γ → Prop} (hd : t.prog.done = true)
    (hw : wp D t.prog (fun _ g => fin g) (ghost D g₀ t)) : fin (ghost D g₀ t) := by
  cases hp : t.prog with
  | ret u => rw [hp] at hw; exact hw
  | act a k => rw [hp] at hd; simp [Prog.done] at hd

/-- In a quiet configuration every thread's ghost value is a final one. -/
theorem fin_of_quiet {x : Conf σ A R T} {fin : γ → Prop} (hq : x.quiet = true)
    (hW : ∀ t ∈ x.threads, wp D t.prog (fun _ g => fin g) (ghost D g₀ t)) :
    ∀ g ∈ x.threads.map (ghost D g₀), fin g := by
  intro g hg
  obtain ⟨t, ht, rfl⟩ := List.mem_map.mp hg
  exact fin_of_done (List.all_eq_true.mp hq t ht) (hW t ht)

end System

end Conc
