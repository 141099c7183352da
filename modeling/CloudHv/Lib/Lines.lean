import Mathlib.Data.List.Basic

/-!
# Lines — lines of a stream that comes in pieces

A stream is read in pieces of any size, none of them empty; a `Reader` buffers what it has of the last one.
`readUntil` takes the elements up to the next delimiter, or all that are left.  `each` gives one line after the other
to a step function, until the step or the stream ends.  What it does depends on the elements of the stream only, not
on the pieces they come in (`each_eq`).
-/

namespace Lines

variable {α : Type} [DecidableEq α] {d : α}

/-- What one read of a stream returns. -/
abbrev Piece (α : Type) := {l : List α // l ≠ []}

structure Reader (α : Type) where
  buf : List α
  pieces : List (Piece α)

namespace Reader

def elems (r : Reader α) : List α := r.buf ++ (r.pieces.map Subtype.val).flatten

def ofPieces (ps : List (Piece α)) : Reader α := ⟨[], ps⟩

end Reader

/-- The elements up to the first delimiter and with it, and those after it. -/
def cut (d : α) : List α → List α × List α
  | [] => ([], [])
  | x :: xs => if x = d then ([x], xs) else (x :: (cut d xs).1, (cut d xs).2)

def readUntil (d : α) : List α → List (Piece α) → List α × Reader α
  | buf, [] => if d ∈ buf then ((cut d buf).1, ⟨(cut d buf).2, []⟩) else (buf, ⟨[], []⟩)
  | buf, p :: ps =>
    if d ∈ buf then ((cut d buf).1, ⟨(cut d buf).2, p :: ps⟩)
    else (buf ++ (readUntil d p.1 ps).1, (readUntil d p.1 ps).2)

/-- The lines of a list, each with its delimiter; the last one may lack it. -/
def lines (d : α) : List α → List (List α)
  | [] => []
  | x :: xs =>
    if x = d then [x] :: lines d xs
    else match lines d xs with
      | [] => [[x]]
      | l :: ls => (x :: l) :: ls

theorem cut_not_mem {l : List α} (h : d ∉ l) : cut d l = (l, []) := by
  induction l with
  | nil => rfl
  | cons x l ih =>
    obtain ⟨hx, hl⟩ := not_or.mp (mt List.mem_cons.mpr h)
    rw [cut, if_neg (Ne.symm hx), ih hl]

theorem cut_append_mem {l : List α} (h : d ∈ l) (rest : List α) :
    cut d (l ++ rest) = ((cut d l).1, (cut d l).2 ++ rest) := by
  induction l with
  | nil => cases h
  | cons x l ih =>
    rw [List.cons_append, cut, cut]
    by_cases hx : x = d
    · rw [if_pos hx, if_pos hx]
    · have hl : d ∈ l := (List.mem_cons.mp h).resolve_left (Ne.symm hx)
      rw [if_neg hx, if_neg hx, ih hl]

theorem cut_append_not_mem {l : List α} (h : d ∉ l) (rest : List α) :
    cut d (l ++ rest) = (l ++ (cut d rest).1, (cut d rest).2) := by
  induction l with
  | nil => rfl
  | cons x l ih =>
    obtain ⟨hx, hl⟩ := not_or.mp (mt List.mem_cons.mpr h)
    rw [List.cons_append, cut, if_neg (Ne.symm hx), ih hl, List.cons_append]

/-- A line and its delimiter. -/
theorem cut_line {l : List α} (h : d ∉ l) (rest : List α) : cut d (l ++ d :: rest) = (l ++ [d], rest) := by
  rw [cut_append_not_mem h, cut, if_pos rfl]

theorem cut_eq (l : List α) : (cut d l).1 ++ (cut d l).2 = l := by
  induction l with
  | nil => rfl
  | cons x l ih =>
    rw [cut]
    split
    · rfl
    · exact congrArg (x :: ·) ih

theorem cut_fst_nil {l : List α} : (cut d l).1 = [] ↔ l = [] := by
  cases l with
  | nil => exact ⟨fun _ => rfl, fun _ => rfl⟩
  | cons x l =>
    rw [cut]
    split <;> simp

/-- **A line is read whatever the pieces are**, and what is left of the stream is what comes after it. -/
theorem readUntil_eq (buf : List α) (ps : List (Piece α)) :
    (readUntil d buf ps).1 = (cut d (Reader.elems ⟨buf, ps⟩)).1 ∧
      (readUntil d buf ps).2.elems = (cut d (Reader.elems ⟨buf, ps⟩)).2 := by
  induction ps generalizing buf with
  | nil =>
    have helems : Reader.elems ⟨buf, []⟩ = buf := List.append_nil buf
    rw [helems, readUntil]
    split
    · exact ⟨rfl, List.append_nil _⟩
    · next h =>
      rw [cut_not_mem h]
      exact ⟨rfl, rfl⟩
  | cons p ps ih =>
    have helems : Reader.elems ⟨buf, p :: ps⟩ = buf ++ Reader.elems ⟨p.1, ps⟩ := by
      simp [Reader.elems]
    rw [readUntil]
    split
    · next h =>
      refine ⟨?_, ?_⟩
      · rw [helems, cut_append_mem h]
      · rw [helems, cut_append_mem h]
        simp [Reader.elems]
    · next h =>
      rw [helems, cut_append_not_mem h]
      exact ⟨congrArg (buf ++ ·) (ih p.1).1, (ih p.1).2⟩

theorem lines_cut {l : List α} (h : l ≠ []) : lines d l = (cut d l).1 :: lines d (cut d l).2 := by
  induction l with
  | nil => exact absurd rfl h
  | cons x l ih =>
    rw [lines, cut]
    by_cases hx : x = d
    · rw [if_pos hx, if_pos hx]
    · rw [if_neg hx, if_neg hx]
      cases l with
      | nil => rfl
      | cons y l => rw [ih (by simp)]

theorem lines_line {l : List α} (h : d ∉ l) (rest : List α) :
    lines d (l ++ d :: rest) = (l ++ [d]) :: lines d rest := by
  rw [lines_cut (by simp), cut_line h]

/-! ### One line after the other -/

section Each

variable {σ ε : Type} (step : σ → List α → σ × Option ε)

/-- Read lines and give them to `step` until it ends the loop, or nothing is left; `n` bounds the lines. -/
def each (d : α) : ℕ → σ → Reader α → σ × Option ε
  | 0, s, _ => (s, none)
  | n + 1, s, r =>
    if (readUntil d r.buf r.pieces).1 = [] then (s, none)
    else match step s (readUntil d r.buf r.pieces).1 with
      | (s', none) => each d n s' (readUntil d r.buf r.pieces).2
      | (s', some e) => (s', some e)

/-- The same on a list of lines. -/
def eachOf : σ → List (List α) → σ × Option ε
  | s, [] => (s, none)
  | s, l :: ls =>
    match step s l with
    | (s', none) => eachOf s' ls
    | (s', some e) => (s', some e)

/-- **The loop sees the lines of the stream**, with any bound that is large enough. -/
theorem each_eq {n : ℕ} {r : Reader α} (hn : r.elems.length < n) (s : σ) :
    each step d n s r = eachOf step s (lines d r.elems) := by
  induction n generalizing r s with
  | zero => exact absurd hn (Nat.not_lt_zero _)
  | succ n ih =>
    obtain ⟨hline, hrest⟩ := readUntil_eq (d := d) r.buf r.pieces
    have hr : Reader.elems ⟨r.buf, r.pieces⟩ = r.elems := rfl
    rw [hr] at hline hrest
    rw [each, hline]
    by_cases hnil : r.elems = []
    · rw [if_pos (cut_fst_nil.mpr hnil), hnil]
      rfl
    · have hpos : 0 < (cut d r.elems).1.length := List.length_pos_iff.mpr (mt cut_fst_nil.mp hnil)
      have hlen := congrArg List.length (cut_eq (d := d) r.elems)
      rw [List.length_append] at hlen
      rw [if_neg (mt cut_fst_nil.mp hnil), lines_cut hnil, eachOf]
      cases step s (cut d r.elems).1 with
      | mk s' o =>
        cases o with
        | none =>
          have hlt : (readUntil d r.buf r.pieces).2.elems.length < n := by
            rw [hrest]
            omega
          show each step d n s' (readUntil d r.buf r.pieces).2 = _
          rw [ih hlt s', hrest]
        | some e => rfl

end Each

end Lines
