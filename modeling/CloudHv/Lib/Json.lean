import Mathlib.Data.String.Basic

/-!
# Json — edits of JSON values

Values as a parser gives them: an object has its fields in the order of their keys.  An edit inserts, removes or
changes fields, here or further down; on a value that is no object it does nothing.

`Agree E j j'`: the two values differ at most at the places `E` and below them.  What an edit of a whole document
leaves alone follows from its parts (`agree_edits`, `agree_modify`).  `Kept f g`: what `f` has settled, `g` leaves
settled; idempotent edits with this property are idempotent together (`edits_idem`).
-/

inductive Json where
  | null
  | bool (b : Bool)
  /-- A number, as it is written. -/
  | num (text : String)
  | str (s : String)
  | arr (items : List Json)
  | obj (fields : List (String × Json))

namespace Json

/-! ### Fields -/

section Fields

variable {ν : Type}

/-- Put a field where its key belongs, in place of one that has this key. -/
def insertKey (k : String) (v : ν) : List (String × ν) → List (String × ν)
  | [] => [(k, v)]
  | (k', v') :: l => if k < k' then (k, v) :: (k', v') :: l else if k = k' then (k, v) :: l else (k', v') :: insertKey k v l

def removeKey (k : String) (l : List (String × ν)) : List (String × ν) := l.filter fun p => p.1 ≠ k

def modifyKey (k : String) (f : ν → ν) (l : List (String × ν)) : List (String × ν) :=
  l.map fun p => if p.1 = k then (p.1, f p.2) else p

variable {k k' : String} {v v' : ν} {l : List (String × ν)}

theorem lookup_cons_eq {p : String × ν} : (p :: l).lookup k = if k = p.1 then some p.2 else l.lookup k := by
  rw [List.lookup_cons]
  by_cases h : k = p.1
  · rw [if_pos h, h, beq_self_eq_true]
  · rw [if_neg h, beq_eq_false_iff_ne.mpr h]

theorem lookup_insertKey : (insertKey k v l).lookup k' = if k' = k then some v else l.lookup k' := by
  induction l with
  | nil => exact lookup_cons_eq
  | cons p l ih =>
    obtain ⟨q, u⟩ := p
    simp only [insertKey]
    split
    · rw [lookup_cons_eq]
    · split
      · next hkq =>
        subst hkq
        rw [lookup_cons_eq, lookup_cons_eq]
        by_cases hk : k' = k
        · rw [if_pos hk, if_pos hk]
        · rw [if_neg hk, if_neg hk, if_neg hk]
      · next hkq =>
        rw [lookup_cons_eq, lookup_cons_eq, ih]
        by_cases hq : k' = q
        · have hne : k' ≠ k := fun h => hkq (h.symm.trans hq)
          rw [if_pos hq, if_neg hne, if_pos hq]
        · rw [if_neg hq, if_neg hq]

theorem lookup_removeKey : (removeKey k l).lookup k' = if k' = k then none else l.lookup k' := by
  induction l with
  | nil => simp [removeKey]
  | cons p l ih =>
    obtain ⟨q, u⟩ := p
    unfold removeKey at ih ⊢
    rw [lookup_cons_eq, List.filter_cons]
    split
    · next hq =>
      have hq' : q ≠ k := of_decide_eq_true hq
      rw [lookup_cons_eq, ih]
      by_cases hk : k' = q
      · have hne : k' ≠ k := fun h => hq' (hk.symm.trans h)
        rw [if_pos hk, if_neg hne, if_pos hk]
      · rw [if_neg hk, if_neg hk]
    · next hq =>
      have hq' : q = k := by simpa using hq
      rw [ih, hq']
      by_cases hk : k' = k
      · rw [if_pos hk, if_pos hk]
      · rw [if_neg hk, if_neg hk, if_neg hk]

theorem lookup_modifyKey {f : ν → ν} :
    (modifyKey k f l).lookup k' = if k' = k then (l.lookup k').map f else l.lookup k' := by
  induction l with
  | nil => simp [modifyKey]
  | cons p l ih =>
    obtain ⟨q, u⟩ := p
    have hcons : modifyKey k f ((q, u) :: l) = (q, if q = k then f u else u) :: modifyKey k f l := by
      unfold modifyKey
      rw [List.map_cons]
      by_cases hq : q = k
      · rw [if_pos hq, if_pos hq]
      · rw [if_neg hq, if_neg hq]
    rw [hcons, lookup_cons_eq, lookup_cons_eq, ih]
    by_cases hk : k' = q
    · subst hk
      rw [if_pos rfl, if_pos rfl]
      by_cases hq : k' = k
      · rw [if_pos hq, if_pos hq, Option.map_some]
      · rw [if_neg hq, if_neg hq]
    · rw [if_neg hk, if_neg hk]

theorem insertKey_insertKey : insertKey k v' (insertKey k v l) = insertKey k v' l := by
  induction l with
  | nil => simp [insertKey]
  | cons p l ih =>
    obtain ⟨q, u⟩ := p
    simp only [insertKey]
    split
    · simp [insertKey]
    · split
      · simp [insertKey]
      · next hlt hne => simp only [insertKey, if_neg hlt, if_neg hne, ih]

theorem insertKey_lt (h : k < k') : insertKey k v ((k', v') :: l) = (k, v) :: (k', v') :: l := if_pos h

theorem insertKey_eq : insertKey k v ((k, v') :: l) = (k, v) :: l := by
  simp [insertKey]

theorem insertKey_gt (h : k' < k) : insertKey k v ((k', v') :: l) = (k', v') :: insertKey k v l := by
  have hlt : ¬ k < k' := lt_asymm h
  have hne : k ≠ k' := (ne_of_lt h).symm
  simp only [insertKey, if_neg hlt, if_neg hne]

theorem insertKey_comm_lt (h : k < k') : insertKey k v (insertKey k' v' l) = insertKey k' v' (insertKey k v l) := by
  induction l with
  | nil =>
    rw [insertKey, insertKey, insertKey_lt h, insertKey_gt h, insertKey]
  | cons p l ih =>
    obtain ⟨q, u⟩ := p
    rcases lt_trichotomy k q with hk | rfl | hk
    · rw [insertKey_lt hk, insertKey_gt h]
      rcases lt_trichotomy k' q with hk' | rfl | hk'
      · rw [insertKey_lt hk', insertKey_lt h]
      · rw [insertKey_eq, insertKey_lt h]
      · rw [insertKey_gt hk', insertKey_lt hk]
    · rw [insertKey_eq, insertKey_gt h, insertKey_eq, insertKey_gt h]
    · have hk' : q < k' := lt_trans hk h
      rw [insertKey_gt hk', insertKey_gt hk, insertKey_gt hk,
        insertKey_gt hk', ih]

theorem insertKey_comm (hne : k ≠ k') : insertKey k v (insertKey k' v' l) = insertKey k' v' (insertKey k v l) := by
  rcases lt_or_gt_of_ne hne with h | h
  · exact insertKey_comm_lt h
  · exact (insertKey_comm_lt h).symm

theorem modifyKey_modifyKey {f g : ν → ν} : modifyKey k f (modifyKey k g l) = modifyKey k (f ∘ g) l := by
  unfold modifyKey
  rw [List.map_map]
  refine List.map_congr_left fun p _ => ?_
  by_cases hp : p.1 = k
  · simp [hp]
  · simp [hp]

theorem modifyKey_comm {f g : ν → ν} (hne : k ≠ k') :
    modifyKey k f (modifyKey k' g l) = modifyKey k' g (modifyKey k f l) := by
  unfold modifyKey
  rw [List.map_map, List.map_map]
  refine List.map_congr_left fun p _ => ?_
  by_cases hk : p.1 = k
  · simp [hk, hne]
  · by_cases hk' : p.1 = k'
    · simp [hk', hne.symm]
    · simp [hk, hk']

theorem mem_insertKey {p : String × ν} (hp : p ∈ insertKey k v l) : p = (k, v) ∨ p ∈ l := by
  induction l with
  | nil => exact Or.inl (List.mem_singleton.mp hp)
  | cons q l ih =>
    obtain ⟨q, u⟩ := q
    rcases lt_trichotomy k q with hk | rfl | hk
    · rw [insertKey_lt hk] at hp
      exact List.mem_cons.mp hp
    · rw [insertKey_eq] at hp
      exact (List.mem_cons.mp hp).imp_right (List.mem_cons_of_mem _)
    · rw [insertKey_gt hk] at hp
      rcases List.mem_cons.mp hp with rfl | hp
      · exact Or.inr List.mem_cons_self
      · exact (ih hp).imp_right (List.mem_cons_of_mem _)

theorem removeKey_eq_self : removeKey k l = l ↔ ∀ p ∈ l, p.1 ≠ k := by
  simp [removeKey]

theorem fst_ite_modify {f : ν → ν} {p : String × ν} : (if p.1 = k then (p.1, f p.2) else p).1 = p.1 := by
  split <;> rfl

theorem modifyKey_eq_self {f : ν → ν} : modifyKey k f l = l ↔ ∀ p ∈ l, p.1 = k → f p.2 = p.2 := by
  have hid : modifyKey k f l = l ↔ modifyKey k f l = l.map id := by rw [List.map_id]
  rw [hid, modifyKey, List.map_inj_left]
  refine forall₂_congr fun p _ => ?_
  by_cases hk : p.1 = k
  · simp [← hk, Prod.ext_iff]
  · simp [hk]

/-- The field is there and is the one that an insertion with this key would replace. -/
def Placed (k : String) (v : ν) (l : List (String × ν)) : Prop :=
  ∃ pre post, l = pre ++ (k, v) :: post ∧ ∀ p ∈ pre, p.1 < k

theorem placed_insertKey : Placed k v (insertKey k v l) := by
  induction l with
  | nil => exact ⟨[], [], rfl, by simp⟩
  | cons p l ih =>
    obtain ⟨q, u⟩ := p
    rcases lt_trichotomy k q with hk | rfl | hk
    · exact ⟨[], (q, u) :: l, insertKey_lt hk, by simp⟩
    · exact ⟨[], l, insertKey_eq, by simp⟩
    · obtain ⟨before, after, heq, hlt⟩ := ih
      refine ⟨(q, u) :: before, after, by rw [insertKey_gt hk, heq, List.cons_append], ?_⟩
      intro p hp
      rcases List.mem_cons.mp hp with rfl | hp
      · exact hk
      · exact hlt p hp

theorem Placed.insertKey_self (h : Placed k v l) : insertKey k v l = l := by
  obtain ⟨before, after, rfl, hlt⟩ := h
  induction before with
  | nil => exact insertKey_eq
  | cons p before ih =>
    have hp : p.1 < k := hlt p List.mem_cons_self
    rw [List.cons_append, insertKey_gt hp, ih fun q hq => hlt q (List.mem_cons_of_mem p hq)]

theorem Placed.removeKey (h : Placed k v l) (hne : k ≠ k') : Placed k v (removeKey k' l) := by
  obtain ⟨before, after, rfl, hlt⟩ := h
  refine ⟨Json.removeKey k' before, Json.removeKey k' after, ?_, fun p hp => hlt p (List.mem_filter.mp hp).1⟩
  unfold Json.removeKey
  rw [List.filter_append, List.filter_cons, if_pos (decide_eq_true hne)]

theorem Placed.modifyKey {f : ν → ν} (h : Placed k v l) (hne : k ≠ k') : Placed k v (modifyKey k' f l) := by
  obtain ⟨before, after, rfl, hlt⟩ := h
  refine ⟨Json.modifyKey k' f before, Json.modifyKey k' f after, ?_, ?_⟩
  · unfold Json.modifyKey
    rw [List.map_append, List.map_cons, if_neg hne]
  · intro p hp
    obtain ⟨q, hq, rfl⟩ := List.mem_map.mp hp
    rw [fst_ite_modify]
    exact hlt q hq

end Fields

/-! ### Values -/

def asStr : Json → Option String
  | str s => some s
  | _ => none

def get (j : Json) (k : String) : Option Json :=
  match j with
  | obj l => l.lookup k
  | _ => none

/-- An edit of the fields of an object; other values stay as they are. -/
def onFields (f : List (String × Json) → List (String × Json)) : Json → Json
  | obj l => obj (f l)
  | j => j

/-- An object with these fields; of two with one key the later one counts. -/
def object (fields : List (String × Json)) : Json := obj (fields.foldl (fun l p => insertKey p.1 p.2 l) [])

def insert (k : String) (v : Json) : Json → Json := onFields (insertKey k v)

def remove (k : String) : Json → Json := onFields (removeKey k)

def modify (k : String) (f : Json → Json) : Json → Json := onFields (modifyKey k f)

variable {k k' : String} {v v' : Json} {f g : Json → Json} {j : Json}

theorem get_insert {l : List (String × Json)} :
    (insert k v (obj l)).get k' = if k' = k then some v else (obj l).get k' := lookup_insertKey

theorem get_remove : (remove k j).get k' = if k' = k then none else j.get k' := by
  cases j with
  | obj l => exact lookup_removeKey
  | _ => by_cases h : k' = k <;> simp [h, remove, onFields, get]

theorem get_modify : (modify k f j).get k' = if k' = k then (j.get k').map f else j.get k' := by
  cases j with
  | obj l => exact lookup_modifyKey
  | _ => by_cases h : k' = k <;> simp [h, modify, onFields, get]

theorem insert_insert : insert k v' (insert k v j) = insert k v' j := by
  cases j with
  | obj l => exact congrArg obj insertKey_insertKey
  | _ => rfl

theorem insert_comm (hne : k ≠ k') : insert k v (insert k' v' j) = insert k' v' (insert k v j) := by
  cases j with
  | obj l => exact congrArg obj (insertKey_comm hne)
  | _ => rfl

theorem modify_modify : modify k f (modify k g j) = modify k (f ∘ g) j := by
  cases j with
  | obj l => exact congrArg obj modifyKey_modifyKey
  | _ => rfl

theorem modify_comm (hne : k ≠ k') : modify k f (modify k' g j) = modify k' g (modify k f j) := by
  cases j with
  | obj l => exact congrArg obj (modifyKey_comm hne)
  | _ => rfl

/-! ### Places -/

inductive Step where
  | key (k : String)
  | index (i : ℕ)
  deriving DecidableEq

def child : Json → Step → Option Json
  | obj l, .key k => l.lookup k
  | arr l, .index i => l[i]?
  | _, _ => none

/-- The value at a path. -/
def valueAt (j : Json) : List Step → Option Json
  | [] => some j
  | s :: p => (j.child s).bind fun v => v.valueAt p

theorem valueAt_key {p : List Step} : j.valueAt (.key k :: p) = (j.get k).bind (valueAt · p) := by
  cases j <;> rfl

/-- A value without what an object or an array has inside. -/
def shell : Json → Json
  | obj _ => obj []
  | arr _ => arr []
  | j => j

/-- The two values are the same but at the places `E` and below: what stands above a place keeps its kind, and what
is neither above nor below one is the same value. -/
structure Agree (E : List (List Step)) (j j' : Json) : Prop where
  shell : ∀ p, (∀ e ∈ E, ¬ e <+: p) → (j'.valueAt p).map shell = (j.valueAt p).map shell
  frame : ∀ p, (∀ e ∈ E, ¬ e <+: p ∧ ¬ p <+: e) → j'.valueAt p = j.valueAt p

theorem Agree.refl (E : List (List Step)) (j : Json) : Agree E j j := ⟨fun _ _ => rfl, fun _ _ => rfl⟩

theorem Agree.trans {E : List (List Step)} {a b c : Json} (h : Agree E a b) (h' : Agree E b c) : Agree E a c :=
  ⟨fun p hp => (h'.shell p hp).trans (h.shell p hp), fun p hp => (h'.frame p hp).trans (h.frame p hp)⟩

theorem Agree.mono {E E' : List (List Step)} {a b : Json} (h : Agree E a b) (hsub : E ⊆ E') : Agree E' a b :=
  ⟨fun p hp => h.shell p fun e he => hp e (hsub he), fun p hp => h.frame p fun e he => hp e (hsub he)⟩

/-- An edit of an object's fields, from what it does to each of them. -/
theorem agree_obj {E : List (List Step)} {l l' : List (String × Json)} (hE : E ≠ [])
    (hkey : ∀ q p, (∀ e ∈ E, ¬ e <+: .key q :: p) →
      (((obj l').child (.key q)).bind (valueAt · p)).map Json.shell =
        (((obj l).child (.key q)).bind (valueAt · p)).map Json.shell ∧
      ((∀ e ∈ E, ¬ .key q :: p <+: e) →
        ((obj l').child (.key q)).bind (valueAt · p) = ((obj l).child (.key q)).bind (valueAt · p))) :
    Agree E (obj l) (obj l') := by
  constructor
  · intro p hp
    match p with
    | [] => rfl
    | .index i :: p => rfl
    | .key q :: p => exact (hkey q p hp).1
  · intro p hp
    match p with
    | [] =>
      obtain ⟨e, he⟩ := List.exists_mem_of_ne_nil E hE
      exact absurd (List.nil_prefix (l := e)) (hp e he).2
    | .index i :: p => rfl
    | .key q :: p => exact (hkey q p fun e he => (hp e he).1).2 fun e he => (hp e he).2

/-- An edit that leaves all keys but one as they are. -/
theorem agree_of_lookup {l l' : List (String × Json)} (h : ∀ q, q ≠ k → l'.lookup q = l.lookup q) :
    Agree [[.key k]] (obj l) (obj l') := by
  refine agree_obj (by simp) fun q p hp => ?_
  have hq : q ≠ k := by
    rintro rfl
    exact hp _ List.mem_cons_self ⟨p, rfl⟩
  simp only [child, h q hq, implies_true, and_self]

theorem agree_insert : Agree [[.key k]] j (insert k v j) := by
  cases j with
  | obj l =>
    refine agree_of_lookup fun q hq => ?_
    rw [lookup_insertKey, if_neg hq]
  | _ => exact Agree.refl _ _

theorem agree_remove : Agree [[.key k]] j (remove k j) := by
  cases j with
  | obj l =>
    refine agree_of_lookup fun q hq => ?_
    rw [lookup_removeKey, if_neg hq]
  | _ => exact Agree.refl _ _

/-- An edit below a key changes what the inner edit changes, below that key. -/
theorem agree_modify {E E' : List (List Step)} (hE : E' ≠ []) (hsub : E.map (.key k :: ·) ⊆ E')
    (h : ∀ v, j.get k = some v → Agree E v (f v)) : Agree E' j (modify k f j) := by
  cases j with
  | obj l =>
    refine agree_obj hE fun q p hp => ?_
    show ((((modifyKey k f l).lookup q).bind (valueAt · p)).map Json.shell = ((l.lookup q).bind (valueAt · p)).map Json.shell)
      ∧ (_ → ((modifyKey k f l).lookup q).bind (valueAt · p) = (l.lookup q).bind (valueAt · p))
    rw [lookup_modifyKey]
    by_cases hq : q = k
    · subst hq
      rw [if_pos rfl]
      cases hv : l.lookup q with
      | none => exact ⟨rfl, fun _ => rfl⟩
      | some v =>
        have hb : Agree E v (f v) := h v hv
        have hnot : ∀ e ∈ E, ¬ e <+: p := fun e he hpre =>
          hp _ (hsub (List.mem_map_of_mem he)) (List.cons_prefix_cons.mpr ⟨rfl, hpre⟩)
        refine ⟨hb.shell p hnot, fun habove => hb.frame p fun e he => ⟨hnot e he, fun hpre => ?_⟩⟩
        exact habove _ (hsub (List.mem_map_of_mem he)) (List.cons_prefix_cons.mpr ⟨rfl, hpre⟩)
    · rw [if_neg hq]
      exact ⟨rfl, fun _ => rfl⟩
  | _ => exact Agree.refl _ _

/-! ### Edits in sequence -/

/-- One edit after the other, the first of the list first. -/
def edits (fs : List (Json → Json)) (j : Json) : Json := fs.foldl (fun j f => f j) j

theorem agree_edits {E : List (List Step)} {fs : List (Json → Json)} (h : ∀ f ∈ fs, ∀ j, Agree E j (f j)) :
    Agree E j (edits fs j) := by
  induction fs generalizing j with
  | nil => exact Agree.refl E j
  | cons f fs ih => exact (h f List.mem_cons_self j).trans (ih fun g hg => h g (List.mem_cons_of_mem f hg))

/-- What `f` has settled, `g` leaves settled. -/
def Kept (f g : Json → Json) : Prop := ∀ j, f j = j → f (g j) = g j

theorem edits_kept {fs : List (Json → Json)} (hf : f j = j) (h : ∀ g ∈ fs, Kept f g) :
    f (edits fs j) = edits fs j := by
  induction fs generalizing j with
  | nil => exact hf
  | cons g fs ih =>
    exact ih (h g List.mem_cons_self j hf) fun g' hg' => h g' (List.mem_cons_of_mem g hg')

theorem edits_settled {fs : List (Json → Json)} (hidem : ∀ f ∈ fs, ∀ j, f (f j) = f j) (hkept : fs.Pairwise Kept) :
    ∀ f ∈ fs, f (edits fs j) = edits fs j := by
  induction fs generalizing j with
  | nil => simp
  | cons g fs ih =>
    intro f hf
    rcases List.mem_cons.mp hf with rfl | hf
    · show f (edits fs (f j)) = edits fs (f j)
      exact edits_kept (hidem f List.mem_cons_self j) fun g hg => List.rel_of_pairwise_cons hkept hg
    · exact ih (fun h hh => hidem h (List.mem_cons_of_mem g hh)) hkept.of_cons f hf

theorem edits_fixed {fs : List (Json → Json)} (h : ∀ f ∈ fs, f j = j) : edits fs j = j := by
  induction fs with
  | nil => rfl
  | cons f fs ih =>
    have hf : f j = j := h f List.mem_cons_self
    show edits fs (f j) = j
    rw [hf]
    exact ih fun g hg => h g (List.mem_cons_of_mem f hg)

/-- Idempotent edits that leave each other's work alone are idempotent together. -/
theorem edits_idem {fs : List (Json → Json)} (hidem : ∀ f ∈ fs, ∀ j, f (f j) = f j) (hkept : fs.Pairwise Kept) :
    edits fs (edits fs j) = edits fs j :=
  edits_fixed (edits_settled hidem hkept)

theorem remove_remove : remove k (remove k j) = remove k j := by
  cases j with
  | obj l => exact congrArg obj (by simp [removeKey])
  | _ => rfl

theorem modify_idem (h : ∀ v, f (f v) = f v) : modify k f (modify k f j) = modify k f j := by
  rw [modify_modify]
  exact congrArg (modify k · j) (funext h)

theorem kept_insert_remove (hne : k ≠ k') : Kept (insert k v) (remove k') := by
  intro j hj
  cases j with
  | obj l =>
    have hl : insertKey k v l = l := obj.inj hj
    have hp : Placed k v l := hl ▸ placed_insertKey
    exact congrArg obj (hp.removeKey hne).insertKey_self
  | _ => rfl

theorem kept_insert_modify (hne : k ≠ k') : Kept (insert k v) (modify k' f) := by
  intro j hj
  cases j with
  | obj l =>
    have hl : insertKey k v l = l := obj.inj hj
    have hp : Placed k v l := hl ▸ placed_insertKey
    exact congrArg obj (hp.modifyKey hne).insertKey_self
  | _ => rfl

theorem kept_remove_insert (hne : k ≠ k') : Kept (remove k) (insert k' v) := by
  intro j hj
  cases j with
  | obj l =>
    have hl : ∀ p ∈ l, p.1 ≠ k := removeKey_eq_self.mp (obj.inj hj)
    refine congrArg obj (removeKey_eq_self.mpr fun p hp => ?_)
    rcases mem_insertKey hp with rfl | hp
    · exact hne.symm
    · exact hl p hp
  | _ => rfl

theorem kept_remove_remove : Kept (remove k) (remove k') := by
  intro j hj
  cases j with
  | obj l =>
    have hl : ∀ p ∈ l, p.1 ≠ k := removeKey_eq_self.mp (obj.inj hj)
    exact congrArg obj (removeKey_eq_self.mpr fun p hp => hl p (List.mem_filter.mp hp).1)
  | _ => rfl

theorem kept_remove_modify : Kept (remove k) (modify k' f) := by
  intro j hj
  cases j with
  | obj l =>
    have hl : ∀ p ∈ l, p.1 ≠ k := removeKey_eq_self.mp (obj.inj hj)
    refine congrArg obj (removeKey_eq_self.mpr fun p hp => ?_)
    obtain ⟨q, hq, rfl⟩ := List.mem_map.mp hp
    rw [fst_ite_modify]
    exact hl q hq
  | _ => rfl

theorem kept_modify_insert (hne : k ≠ k') : Kept (modify k f) (insert k' v) := by
  intro j hj
  cases j with
  | obj l =>
    have hl : ∀ p ∈ l, p.1 = k → f p.2 = p.2 := modifyKey_eq_self.mp (obj.inj hj)
    refine congrArg obj (modifyKey_eq_self.mpr fun p hp => ?_)
    rcases mem_insertKey hp with rfl | hp
    · exact fun hk => absurd hk hne.symm
    · exact hl p hp
  | _ => rfl

theorem kept_modify_remove : Kept (modify k f) (remove k') := by
  intro j hj
  cases j with
  | obj l =>
    have hl : ∀ p ∈ l, p.1 = k → f p.2 = p.2 := modifyKey_eq_self.mp (obj.inj hj)
    exact congrArg obj (modifyKey_eq_self.mpr fun p hp => hl p (List.mem_filter.mp hp).1)
  | _ => rfl

theorem kept_modify_modify (hne : k ≠ k') : Kept (modify k f) (modify k' g) := by
  intro j hj
  rw [modify_comm hne, hj]

end Json
