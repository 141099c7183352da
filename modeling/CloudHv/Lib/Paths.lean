import CloudHv.Lib.Text
import Mathlib.Tactic.Tauto

/-!
# Paths — Unix paths as text

`join` and `fileName` are those of `std::path`.  `resolve` takes the `.` and `..` out of a path without looking at a
file system: a `..` removes the component before it, at the root it is the root, and at the start of a relative path
it stays.

A path without a `..` component, joined to a base, leads to a place at or below it (`resolve_join`).
-/

namespace Paths

/-- The pieces between the slashes, empty ones included. -/
def split (s : String) : List String := (s.toList.splitOn '/').map String.ofList

def isAbsolute (s : String) : Bool := s.toList.head? = some '/'

/-- `Path::join`: an absolute path replaces the base. -/
def join (base p : String) : String :=
  if isAbsolute p then p
  else if base = "" ∨ base.toList.getLast? = some '/' then base ++ p
  else base ++ "/" ++ p

/-- The components that are neither empty nor the directory itself. -/
def names (s : String) : List String := (split s).filter fun w => w ≠ "" ∧ w ≠ "."

/-- `Path::file_name`; none of a path that ends in `..`, of the root and of the empty path. -/
def fileName (s : String) : Option String := (names s).getLast?.filter (· ≠ "..")

/-- What a component makes of the components before it. -/
def down (absolute : Bool) (ps : List String) (w : String) : List String :=
  if w = "" ∨ w = "." then ps
  else if w = ".." then
    if ps = [] ∨ ps.getLast? = some ".." then if absolute then ps else ps ++ [".."]
    else ps.dropLast
  else ps ++ [w]

structure Resolved where
  absolute : Bool
  parts : List String
  deriving DecidableEq

def resolve (s : String) : Resolved := ⟨isAbsolute s, (split s).foldl (down (isAbsolute s)) []⟩

/-- `q` is `p` or lies below it. -/
def Resolved.Below (p q : Resolved) : Prop :=
  q.absolute = p.absolute ∧ p.parts <+: q.parts ∧ ".." ∉ q.parts.drop p.parts.length

instance (p q : Resolved) : Decidable (p.Below q) :=
  inferInstanceAs (Decidable (q.absolute = p.absolute ∧ p.parts <+: q.parts ∧ ".." ∉ q.parts.drop p.parts.length))

/-- `q` is in the directory `p`. -/
def Resolved.Child (p q : Resolved) : Prop := ∃ w, w ≠ ".." ∧ q = ⟨p.absolute, p.parts ++ [w]⟩

/-- A single ordinary component. -/
def Component (w : String) : Prop := (w ≠ "" ∧ w ≠ "." ∧ w ≠ "..") ∧ '/' ∉ w.toList

/-! ### Splitting and joining -/

variable {s base p w : String}

theorem split_append_slash (s t : String) : split (s ++ "/" ++ t) = split s ++ split t := by
  have hlist : (s ++ "/" ++ t).toList = s.toList ++ '/' :: t.toList := by simp
  unfold split
  rw [hlist, List.splitOn_append_cons_self, List.map_append]

theorem split_single (h : '/' ∉ s.toList) : split s = [s] := by
  unfold split
  rw [List.splitOn_eq_singleton h]
  simp

theorem split_empty : split "" = [""] := by
  decide

/-- A text that ends in a slash, without it. -/
theorem exists_of_getLast (h : base.toList.getLast? = some '/') : ∃ b, base = b ++ "/" := by
  obtain ⟨l, hl⟩ := List.getLast?_eq_some_iff.mp h
  refine ⟨String.ofList l, String.toList_inj.mp ?_⟩
  simp [hl]

theorem foldl_down_empty (a : Bool) (ps ws : List String) : (ws ++ [""]).foldl (down a) ps = ws.foldl (down a) ps := by
  rw [List.foldl_append]
  simp [down]

/-- A relative path goes on where its base has led to. -/
theorem foldl_split_join (a : Bool) (ps : List String) (hrel : isAbsolute p = false) :
    (split (join base p)).foldl (down a) ps = (split p).foldl (down a) ((split base).foldl (down a) ps) := by
  unfold join
  rw [if_neg (by simp [hrel])]
  by_cases hb : base = ""
  · rw [if_pos (Or.inl hb), hb, String.empty_append, split_empty]
    rfl
  · by_cases hlast : base.toList.getLast? = some '/'
    · obtain ⟨b, rfl⟩ := exists_of_getLast hlast
      have hend : split (b ++ "/") = split b ++ [""] := by
        have h : split (b ++ "/" ++ "") = split b ++ split "" := split_append_slash b ""
        rwa [String.append_empty, split_empty] at h
      rw [if_pos (Or.inr hlast), split_append_slash, List.foldl_append, hend, foldl_down_empty]
    · rw [if_neg (by tauto), split_append_slash, List.foldl_append]

theorem isAbsolute_join (hrel : isAbsolute p = false) : isAbsolute (join base p) = isAbsolute base := by
  unfold join
  rw [if_neg (by simp [hrel])]
  by_cases hb : base = ""
  · rw [if_pos (Or.inl hb), hb, String.empty_append, hrel]
    rfl
  · have hne : base.toList ≠ [] := fun h => hb (String.toList_inj.mp (by simpa using h))
    have happ : ∀ t : String, isAbsolute (base ++ t) = isAbsolute base := by
      intro t
      unfold isAbsolute
      rw [String.toList_append, List.head?_append_of_ne_nil _ hne]
    split
    · exact happ p
    · rw [String.append_assoc, happ]

/-- Components without a `..` add their names. -/
theorem foldl_down_names {a : Bool} {ps ws : List String} (h : ".." ∉ ws) :
    ws.foldl (down a) ps = ps ++ ws.filter fun w => w ≠ "" ∧ w ≠ "." := by
  induction ws generalizing ps with
  | nil => simp
  | cons w ws ih =>
    have hw : w ≠ ".." := fun e => h (e ▸ List.mem_cons_self)
    have hws : ".." ∉ ws := fun hm => h (List.mem_cons_of_mem w hm)
    rw [List.foldl_cons, ih hws]
    unfold down
    by_cases hskip : w = "" ∨ w = "."
    · have hno : ¬ (w ≠ "" ∧ w ≠ ".") := by tauto
      rw [if_pos hskip, List.filter_cons_of_neg (by simpa using hno)]
    · have hyes : w ≠ "" ∧ w ≠ "." := by tauto
      rw [if_neg hskip, if_neg hw, List.filter_cons_of_pos (by simpa using hyes), List.append_assoc]
      rfl

/-- **A relative path without a `..` stays at or below its base.** -/
theorem resolve_join (hrel : isAbsolute p = false) (hdots : ".." ∉ split p) :
    resolve (join base p) = ⟨(resolve base).absolute, (resolve base).parts ++ names p⟩ := by
  unfold resolve
  rw [isAbsolute_join hrel, foldl_split_join _ _ hrel, foldl_down_names hdots]
  rfl

theorem below_join (hrel : isAbsolute p = false) (hdots : ".." ∉ split p) :
    (resolve base).Below (resolve (join base p)) := by
  rw [resolve_join hrel hdots]
  refine ⟨rfl, List.prefix_append _ _, ?_⟩
  rw [List.drop_left]
  exact fun h => hdots (List.mem_filter.mp h).1

theorem Component.relative (h : '/' ∉ w.toList) : isAbsolute w = false := by
  unfold isAbsolute
  refine decide_eq_false fun hhead => h ?_
  exact List.mem_of_head? hhead

/-- One component more, ordinary or not. -/
theorem resolve_join_single (h : '/' ∉ w.toList) :
    resolve (join base w) = ⟨(resolve base).absolute, down (isAbsolute base) (resolve base).parts w⟩ := by
  have hrel : isAbsolute w = false := Component.relative h
  unfold resolve
  rw [isAbsolute_join hrel, foldl_split_join _ _ hrel, split_single h]
  rfl

/-- The directory of a name. -/
theorem Component.resolve_join (h : Component w) :
    resolve (join base w) = ⟨(resolve base).absolute, (resolve base).parts ++ [w]⟩ := by
  obtain ⟨⟨hne, hdot, hdots⟩, hslash⟩ := h
  rw [resolve_join_single hslash, down, if_neg (by tauto), if_neg hdots]

/-! ### Where a component stands in the text -/

theorem intercalate_around {α : Type} (x : α) (us : List (List α)) (w : List α) (vs : List (List α)) :
    [x].intercalate (us ++ w :: vs) = us.flatMap (· ++ [x]) ++ w ++ vs.flatMap (x :: ·) := by
  induction us with
  | nil =>
    induction vs generalizing w with
    | nil => simp
    | cons v vs ih =>
      rw [List.nil_append, List.intercalate_cons_cons, ← List.nil_append (v :: vs), ih]
      simp
  | cons u us ih =>
    obtain ⟨t, ts, ht⟩ := List.exists_cons_of_ne_nil (show us ++ w :: vs ≠ [] by simp)
    rw [List.cons_append, ht, List.intercalate_cons_cons, ← ht, ih]
    simp

/-- A component is a piece of the text between slashes or the ends. -/
theorem mem_split (h : w ∈ split p) : ∃ a b, p.toList = a ++ w.toList ++ b ∧ (a = [] ∨ ∃ a', a = a' ++ ['/']) ∧
    (b = [] ∨ ∃ b', b = '/' :: b') := by
  obtain ⟨u, hu, rfl⟩ := List.mem_map.mp h
  obtain ⟨us, vs, hsplit⟩ := List.append_of_mem hu
  have hp : p.toList = us.flatMap (· ++ ['/']) ++ u ++ vs.flatMap ('/' :: ·) := by
    rw [← intercalate_around, ← hsplit, List.intercalate_splitOn]
  refine ⟨_, _, by rw [hp, String.toList_ofList], ?_, ?_⟩
  · rcases List.eq_nil_or_concat us with rfl | ⟨us, v, rfl⟩
    · exact Or.inl rfl
    · exact Or.inr ⟨us.flatMap (· ++ ['/']) ++ v, by simp⟩
  · cases vs with
    | nil => exact Or.inl rfl
    | cons v vs => exact Or.inr ⟨v ++ vs.flatMap ('/' :: ·), rfl⟩

/-- A text that has `..` as a component is `..`, or has a slash next to the dots. -/
theorem dots_of_mem (h : ".." ∈ split p) :
    p = ".." ∨ "../".toList <:+: p.toList ∨ "/..".toList <:+: p.toList := by
  obtain ⟨a, b, hp, ha, hb⟩ := mem_split h
  rcases hb with rfl | ⟨b, rfl⟩
  · rcases ha with rfl | ⟨a, rfl⟩
    · exact Or.inl (String.toList_inj.mp (by simpa using hp))
    · exact Or.inr (Or.inr ⟨a, [], by simp [hp]⟩)
  · exact Or.inr (Or.inl ⟨a, b, by simp [hp]⟩)

/-- No component has a slash in it. -/
theorem slash_not_mem (h : w ∈ split p) : '/' ∉ w.toList := by
  obtain ⟨u, hu, rfl⟩ := List.mem_map.mp h
  rw [List.splitOn_eq_splitOnP] at hu
  intro hslash
  rw [String.toList_ofList] at hslash
  have hno : ('/' == '/') = false := Text.not_sep_of_mem hu '/' hslash
  cases hno

/-! ### The last component -/

theorem fileName_mem {n : String} (h : fileName s = some n) : n ∈ split s ∧ n ≠ "" := by
  obtain ⟨hlast, -⟩ := Option.filter_eq_some_iff.mp h
  obtain ⟨hmem, hkeep⟩ := List.mem_filter.mp (List.mem_of_getLast? hlast)
  exact ⟨hmem, (of_decide_eq_true hkeep).1⟩

theorem fileName_ne_empty {n : String} (h : fileName s = some n) : n ≠ "" := (fileName_mem h).2

/-- The characters of the last component are the path's. -/
theorem mem_of_fileName {n : String} (h : fileName s = some n) {c : Char} (hc : c ∈ n.toList) : c ∈ s.toList := by
  obtain ⟨a, b, hs, -⟩ := mem_split (fileName_mem h).1
  rw [hs]
  exact List.mem_append_left b (List.mem_append_right a hc)

end Paths
