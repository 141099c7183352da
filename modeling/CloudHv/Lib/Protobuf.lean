import CloudHv.Lib.Utf8
import Mathlib.Algebra.Order.BigOperators.Group.List
import Mathlib.Algebra.Order.Ring.Nat
import Mathlib.Data.Nat.Log

/-!
# Protobuf — messages as tagged fields

A message is written as one entry for every item of its fields: a tag, and then the item.  A reader takes the entries
one by one, puts an item into the field of its tag, and passes over entries whose tag no field has.  A message is read
back from its entries in any order that keeps the items of a field in theirs, with any other entries between them
(`Message.merge_arranged`), so also as it is written (`Message.merge_write`).  The sizes that are computed beforehand
are those of what is written (`Message.length_write`).

What writes, measures and reads a single item is a parameter (`Runtime`); `Runtime.base128` is one.
-/

namespace Protobuf

/-! ### The runtime -/

/-- Items of a type: their bytes behind a tag, the size that is computed for them, and their reader. -/
structure Coded (α : Type) where
  write : α → List UInt8
  size : α → ℕ
  read : List UInt8 → Option (α × List UInt8)

/-- Items are read back whatever follows them, and have their sizes, as long as these are numbers of 32 bits. -/
structure Coded.Exact {α : Type} (c : Coded α) : Prop where
  read_write : ∀ a, c.size a < 2 ^ 32 → ∀ rest, c.read (c.write a ++ rest) = some (a, rest)
  length_write : ∀ a, c.size a < 2 ^ 32 → (c.write a).length = c.size a

/-- What generated code calls.  `len` and `lenSize` are for the size in front of a message that is itself an item, and
`chunk` reads it and the bytes that it counts. -/
structure Runtime where
  tag : UInt32 → List UInt8
  tagSize : ℕ → ℕ
  readTag : List UInt8 → Option (UInt32 × List UInt8)
  string : Coded String
  bytes : Coded (List UInt8)
  bool : Coded Bool
  uint32 : Coded UInt32
  uint64 : Coded UInt64
  /-- An enumeration, by the number of its value, which need not be a known one. -/
  enum : Coded Int32
  len : UInt32 → List UInt8
  lenSize : ℕ → ℕ
  chunk : List UInt8 → Option (List UInt8 × List UInt8)
  /-- Passes over the item of an unknown tag. -/
  skip : UInt32 → List UInt8 → Option (List UInt8)

/-- The number of a field, here one of the first, and its type on the wire. -/
def tagOf (num : Fin 16) (wire : Fin 8) : UInt32 := UInt32.ofNat (num * 8 + wire)

/-- What is written is read back and has its size; the tag of one of the first fields is a byte, and so is a bool. -/
structure Runtime.Laws (R : Runtime) : Prop where
  readTag : ∀ t rest, R.readTag (R.tag t ++ rest) = some (t, rest)
  tag_ne_nil : ∀ t, R.tag t ≠ []
  tag_one : ∀ num wire, (R.tag (tagOf num wire)).length = 1
  tagSize_one : ∀ num : Fin 16, R.tagSize num = 1
  string : R.string.Exact
  bytes : R.bytes.Exact
  bool : R.bool.Exact
  bool_size : ∀ b, R.bool.size b = 1
  uint32 : R.uint32.Exact
  uint64 : R.uint64.Exact
  enum : R.enum.Exact
  length_len : ∀ n, n < 2 ^ 32 → (R.len (UInt32.ofNat n)).length = R.lenSize n
  chunk : ∀ bs, bs.length < 2 ^ 32 → ∀ rest, R.chunk (R.len (UInt32.ofNat bs.length) ++ (bs ++ rest)) = some (bs, rest)

variable {R : Runtime}

/-! ### Kinds of fields -/

/-- A kind of field: its items as they are written behind their tags, the sizes that are computed for them with their
tags, and what an item does to the value that is there. -/
structure Kind (α : Type) where
  wire : Fin 8
  zero : α
  items : α → List (List UInt8)
  sizes : Fin 16 → α → List ℕ
  read : List UInt8 → α → Option (α × List UInt8)

namespace Kind

variable {α : Type}

/-- Items that lead from a value to another one, whatever comes behind them. -/
inductive Takes (k : Kind α) : List (List UInt8) → α → α → Prop
  | nil {a : α} : Takes k [] a a
  | cons {p : List UInt8} {ps : List (List UInt8)} {a b c : α} (h : ∀ rest, k.read (p ++ rest) a = some (b, rest))
      (ht : Takes k ps b c) : Takes k (p :: ps) a c

/-- Values of a size are read back from their items; `num` is the number of the field. -/
structure Exact (k : Kind α) (R : Runtime) (num : Fin 16) : Prop where
  takes : ∀ a, (k.sizes num a).sum < 2 ^ 32 → Takes k (k.items a) k.zero a
  length : ∀ a, (k.sizes num a).sum < 2 ^ 32 →
    (k.items a).map (fun p => (R.tag (tagOf num k.wire)).length + p.length) = k.sizes num a

section Kinds

variable (R)

def string : Kind String where
  wire := 2
  zero := ""
  items s := if s = "" then [] else [R.string.write s]
  sizes num s := if s = "" then [] else [R.tagSize num + R.string.size s]
  read bs _ := R.string.read bs

def bytes : Kind (List UInt8) where
  wire := 2
  zero := []
  items b := if b = [] then [] else [R.bytes.write b]
  sizes num b := if b = [] then [] else [R.tagSize num + R.bytes.size b]
  read bs _ := R.bytes.read bs

def bool : Kind Bool where
  wire := 0
  zero := false
  items b := if b = false then [] else [R.bool.write b]
  sizes _ b := if b = false then [] else [1 + 1]
  read bs _ := R.bool.read bs

def uint32 : Kind UInt32 where
  wire := 0
  zero := 0
  items n := if n = 0 then [] else [R.uint32.write n]
  sizes num n := if n = 0 then [] else [R.tagSize num + R.uint32.size n]
  read bs _ := R.uint32.read bs

def uint64 : Kind UInt64 where
  wire := 0
  zero := 0
  items n := if n = 0 then [] else [R.uint64.write n]
  sizes num n := if n = 0 then [] else [R.tagSize num + R.uint64.size n]
  read bs _ := R.uint64.read bs

def enum : Kind Int32 where
  wire := 0
  zero := 0
  items v := if v = 0 then [] else [R.enum.write v]
  sizes num v := if v = 0 then [] else [R.tagSize num + R.enum.size v]
  read bs _ := R.enum.read bs

/-- A repeated field of strings. -/
def strings : Kind (List String) where
  wire := 2
  zero := []
  items l := l.map R.string.write
  sizes num l := l.map fun s => R.tagSize num + R.string.size s
  read bs l := do
    let (s, rest) ← R.string.read bs
    some (l ++ [s], rest)

end Kinds

/-! What is written is read back. -/

variable {num : Fin 16}

theorem Takes.one {k : Kind α} {p : List UInt8} {a b : α} (h : ∀ rest, k.read (p ++ rest) a = some (b, rest)) :
    Takes k [p] a b := .cons h .nil

theorem Takes.eq_of_nil {k : Kind α} {a b : α} (h : Takes k [] a b) : a = b := by
  cases h
  rfl

/-- A field that is written once, unless it has a certain value. -/
theorem exact_of {k : Kind α} [DecidableEq α] {c : Coded α} (hR : R.Laws) (hc : c.Exact)
    (hitems : ∀ a, k.items a = if a = k.zero then [] else [c.write a])
    (hsizes : ∀ a, k.sizes num a = if a = k.zero then [] else [1 + c.size a]) (hread : ∀ bs a, k.read bs a = c.read bs) :
    k.Exact R num where
  takes a h := by
    rw [hsizes] at h
    rw [hitems]
    by_cases ha : a = k.zero
    · rw [if_pos ha, ha]
      exact .nil
    · rw [if_neg ha, List.sum_singleton] at h
      rw [if_neg ha]
      refine .one fun rest => ?_
      rw [hread]
      exact hc.read_write a (by omega) rest
  length a h := by
    rw [hsizes] at h
    rw [hitems, hsizes]
    by_cases ha : a = k.zero
    · rw [if_pos ha, if_pos ha]
      rfl
    · rw [if_neg ha, List.sum_singleton] at h
      rw [if_neg ha, if_neg ha, List.map_singleton, hR.tag_one num k.wire, hc.length_write a (by omega)]

theorem string_exact (hR : R.Laws) : (Kind.string R).Exact R num := by
  refine exact_of hR hR.string (fun _ => rfl) (fun a => ?_) fun _ _ => rfl
  rw [← hR.tagSize_one num]
  rfl

theorem bytes_exact (hR : R.Laws) : (Kind.bytes R).Exact R num := by
  refine exact_of hR hR.bytes (fun _ => rfl) (fun a => ?_) fun _ _ => rfl
  rw [← hR.tagSize_one num]
  rfl

theorem bool_exact (hR : R.Laws) : (Kind.bool R).Exact R num := by
  refine exact_of hR hR.bool (fun _ => rfl) (fun b => ?_) fun _ _ => rfl
  rw [hR.bool_size]
  rfl

theorem uint32_exact (hR : R.Laws) : (Kind.uint32 R).Exact R num := by
  refine exact_of hR hR.uint32 (fun _ => rfl) (fun a => ?_) fun _ _ => rfl
  rw [← hR.tagSize_one num]
  rfl

theorem uint64_exact (hR : R.Laws) : (Kind.uint64 R).Exact R num := by
  refine exact_of hR hR.uint64 (fun _ => rfl) (fun a => ?_) fun _ _ => rfl
  rw [← hR.tagSize_one num]
  rfl

theorem enum_exact (hR : R.Laws) : (Kind.enum R).Exact R num := by
  refine exact_of hR hR.enum (fun _ => rfl) (fun a => ?_) fun _ _ => rfl
  rw [← hR.tagSize_one num]
  rfl

/-- A repeated field, whose items are put behind the ones that are there. -/
theorem exact_of_repeated {β : Type} {k : Kind (List β)} {item : β → List UInt8} {size : β → ℕ}
    (hzero : k.zero = []) (hitems : ∀ l, k.items l = l.map item) (hsizes : ∀ l, k.sizes num l = l.map size)
    (hlen : ∀ b, size b < 2 ^ 32 → (R.tag (tagOf num k.wire)).length + (item b).length = size b)
    (hread : ∀ b l, size b < 2 ^ 32 → ∀ rest, k.read (item b ++ rest) l = some (l ++ [b], rest)) : k.Exact R num where
  takes l h := by
    have hall : ∀ (l acc : List β), (l.map size).sum < 2 ^ 32 → Takes k (l.map item) acc (acc ++ l) := by
      intro l
      induction l with
      | nil =>
        intro acc _
        rw [List.append_nil]
        exact .nil
      | cons b l ih =>
        intro acc hsum
        rw [List.map_cons, List.sum_cons] at hsum
        have hrest := ih (acc ++ [b]) (by omega)
        rw [List.append_assoc] at hrest
        exact .cons (hread b acc (by omega)) hrest
    rw [hsizes] at h
    rw [hitems, hzero]
    exact hall l [] h
  length l h := by
    rw [hsizes] at h
    rw [hitems, hsizes, List.map_map]
    refine List.map_congr_left fun b hb => hlen b ?_
    have hle := List.single_le_sum (fun x _ => Nat.zero_le x) _ (List.mem_map_of_mem (f := size) hb)
    omega

theorem strings_exact (hR : R.Laws) : (Kind.strings R).Exact R num := by
  have hone := hR.tagSize_one num
  refine exact_of_repeated rfl (fun _ => rfl) (fun _ => rfl) (fun s h => ?_) fun s l h rest => ?_
  · have htag : (R.tag (tagOf num (strings R).wire)).length = 1 := hR.tag_one num 2
    rw [htag, hR.string.length_write s (by omega), hone]
  · show (R.string.read (R.string.write s ++ rest)).bind _ = _
    rw [hR.string.read_write s (by omega)]
    rfl

end Kind

/-! ### Messages -/

/-- A field of a message. -/
structure Slot where
  {α : Type}
  num : Fin 16
  kind : Kind α

def Slot.tag (s : Slot) : UInt32 := tagOf s.num s.kind.wire

def Slot.AllExact (R : Runtime) : List Slot → Prop
  | [] => True
  | s :: ss => s.kind.Exact R s.num ∧ AllExact R ss

def Vals : List Slot → Type
  | [] => Unit
  | s :: ss => s.α × Vals ss

structure Entry where
  tag : UInt32
  item : List UInt8

def Entry.bytes (R : Runtime) (e : Entry) : List UInt8 := R.tag e.tag ++ e.item

namespace Vals

def zero : (ss : List Slot) → Vals ss
  | [] => ()
  | s :: ss => (s.kind.zero, zero ss)

/-- The entries in the order of the fields. -/
def entries : (ss : List Slot) → Vals ss → List Entry
  | [], _ => []
  | s :: ss, v => (s.kind.items v.1).map (Entry.mk s.tag) ++ entries ss v.2

def size : (ss : List Slot) → Vals ss → ℕ
  | [], _ => 0
  | s :: ss, v => (s.kind.sizes s.num v.1).sum + size ss v.2

/-- An item of a field. -/
def take (tag : UInt32) : (ss : List Slot) → List UInt8 → Vals ss → Option (Vals ss × List UInt8)
  | [], _, _ => none
  | s :: ss, bs, v =>
    if s.tag = tag then do
      let (a, rest) ← s.kind.read bs v.1
      some ((a, v.2), rest)
    else do
      let (w, rest) ← take tag ss bs v.2
      some ((v.1, w), rest)

/-- Up to `n` entries, to the end of the stream. -/
def mergeIn (R : Runtime) (ss : List Slot) : ℕ → List UInt8 → Vals ss → Option (Vals ss)
  | _, [], v => some v
  | 0, _ :: _, _ => none
  | n + 1, b :: bs, v => do
    let (tag, rest) ← R.readTag (b :: bs)
    if tag ∈ ss.map Slot.tag then do
      let (w, rest) ← take tag ss rest v
      mergeIn R ss n rest w
    else do
      let rest ← R.skip tag rest
      mergeIn R ss n rest v

end Vals

/-- A type of messages: its fields, in the order in which they are written. -/
structure Message (σ : Type) where
  slots : List Slot
  toVals : σ → Vals slots
  ofVals : Vals slots → σ

namespace Message

variable {σ : Type} (M : Message σ)

def new : σ := M.ofVals (Vals.zero M.slots)

/-- The size that is computed. -/
def size (m : σ) : ℕ := Vals.size M.slots (M.toVals m)

def write (R : Runtime) (m : σ) : List UInt8 := (Vals.entries M.slots (M.toVals m)).flatMap (Entry.bytes R)

def merge (R : Runtime) (bs : List UInt8) (m : σ) : Option σ :=
  (Vals.mergeIn R M.slots bs.length bs (M.toVals m)).map M.ofVals

/-- The struct is its values, the tags are distinct, and the kinds are read back. -/
structure Exact (R : Runtime) : Prop where
  of_to : ∀ m, M.ofVals (M.toVals m) = m
  to_of : ∀ v, M.toVals (M.ofVals v) = v
  tags : (M.slots.map Slot.tag).Nodup
  kinds : Slot.AllExact R M.slots

end Message

/-! ### Entries that say a message -/

/-- The entries with the tag of a field have its items, in order. -/
def Vals.Arranged (es : List Entry) : (ss : List Slot) → Vals ss → Prop
  | [], _ => True
  | s :: ss, v => (es.filter fun e => e.tag = s.tag).map Entry.item = s.kind.items v.1 ∧ Arranged es ss v.2

/-- The entries lead from values of the fields to other ones. -/
def Vals.Leads (es : List Entry) : (ss : List Slot) → Vals ss → Vals ss → Prop
  | [], _, _ => True
  | s :: ss, v, w =>
    s.kind.Takes ((es.filter fun e => e.tag = s.tag).map Entry.item) v.1 w.1 ∧ Leads es ss v.2 w.2

/-- An entry of another tag is passed over. -/
def Skipped (R : Runtime) (ss : List Slot) (e : Entry) : Prop :=
  e.tag ∉ ss.map Slot.tag → ∀ rest, R.skip e.tag (e.item ++ rest) = some rest

namespace Vals

theorem leads_other {e : Entry} {es : List Entry} {ss : List Slot} {v w : Vals ss} (he : e.tag ∉ ss.map Slot.tag) :
    Leads (e :: es) ss v w ↔ Leads es ss v w := by
  induction ss with
  | nil => rfl
  | cons s ss ih =>
    rw [List.map_cons, List.mem_cons, not_or] at he
    have hfilter : (e :: es).filter (fun e => e.tag = s.tag) = es.filter fun e => e.tag = s.tag :=
      List.filter_cons_of_neg (by simpa using he.1)
    rw [Leads, Leads, hfilter, ih he.2]

/-- An entry is taken by the field of its tag. -/
theorem leads_cons {e : Entry} {es : List Entry} {ss : List Slot} {v w : Vals ss} (hnodup : (ss.map Slot.tag).Nodup)
    (he : e.tag ∈ ss.map Slot.tag) (h : Leads (e :: es) ss v w) :
    ∃ v', (∀ rest, take e.tag ss (e.item ++ rest) v = some (v', rest)) ∧ Leads es ss v' w := by
  induction ss with
  | nil => cases he
  | cons s ss ih =>
    rw [List.map_cons, List.nodup_cons] at hnodup
    by_cases htag : e.tag = s.tag
    · have hfilter : (e :: es).filter (fun e => e.tag = s.tag) = e :: es.filter fun e => e.tag = s.tag :=
        List.filter_cons_of_pos (decide_eq_true htag)
      rw [Leads, hfilter, List.map_cons] at h
      obtain ⟨hhead, htail⟩ := h
      have hother : e.tag ∉ ss.map Slot.tag := by
        rw [htag]
        exact hnodup.1
      cases hhead with
      | @cons _ _ _ b _ hread hrest =>
        refine ⟨(b, v.2), fun rest => ?_, hrest, (leads_other hother).mp htail⟩
        rw [take, if_pos htag.symm, hread rest]
        rfl
    · have hfilter : (e :: es).filter (fun e => e.tag = s.tag) = es.filter fun e => e.tag = s.tag :=
        List.filter_cons_of_neg (by simpa using htag)
      rw [Leads, hfilter] at h
      rw [List.map_cons, List.mem_cons] at he
      obtain ⟨v', htake, hleads⟩ := ih hnodup.2 (he.resolve_left htag) h.2
      refine ⟨(v.1, v'), fun rest => ?_, h.1, hleads⟩
      rw [take, if_neg fun ht => htag ht.symm, htake rest]
      rfl

theorem leads_nil {ss : List Slot} {v w : Vals ss} (h : Leads [] ss v w) : v = w := by
  induction ss with
  | nil => rfl
  | cons s ss ih =>
    obtain ⟨hhead, htail⟩ := h
    exact Prod.ext hhead.eq_of_nil (ih htail)

/-- By the entries: each is taken by a field, or skipped. -/
theorem mergeIn_entries (hR : R.Laws) {ss : List Slot} (hnodup : (ss.map Slot.tag).Nodup) {es : List Entry} {v w : Vals ss}
    (h : Leads es ss v w) (hskip : ∀ e ∈ es, Skipped R ss e) {n : ℕ} (hn : es.length ≤ n) :
    mergeIn R ss n (es.flatMap (Entry.bytes R)) v = some w := by
  induction es generalizing v n with
  | nil =>
    rw [List.flatMap_nil, leads_nil h]
    cases n <;> rfl
  | cons e es ih =>
    obtain ⟨n, rfl⟩ : ∃ m, n = m + 1 := Nat.exists_eq_add_one.mpr (by rw [List.length_cons] at hn; omega)
    have hrest : ∀ e' ∈ es, Skipped R ss e' := fun e' he' => hskip e' (List.mem_cons_of_mem e he')
    have hlen : es.length ≤ n := Nat.le_of_succ_le_succ hn
    have hbytes : (e :: es).flatMap (Entry.bytes R) = R.tag e.tag ++ (e.item ++ es.flatMap (Entry.bytes R)) := by
      rw [List.flatMap_cons, Entry.bytes, List.append_assoc]
    have hread := hR.readTag e.tag (e.item ++ es.flatMap (Entry.bytes R))
    rw [hbytes]
    cases hcons : R.tag e.tag ++ (e.item ++ es.flatMap (Entry.bytes R)) with
    | nil => exact absurd (List.append_eq_nil_iff.mp hcons).1 (hR.tag_ne_nil _)
    | cons b bs =>
      rw [hcons] at hread
      rw [mergeIn, hread, Option.bind_eq_bind, Option.bind_some]
      dsimp only
      by_cases he : e.tag ∈ ss.map Slot.tag
      · obtain ⟨v', htake, hleads⟩ := leads_cons hnodup he h
        rw [if_pos he, htake, Option.bind_eq_bind, Option.bind_some]
        exact ih hleads hrest hlen
      · rw [if_neg he, hskip e List.mem_cons_self he, Option.bind_eq_bind, Option.bind_some]
        exact ih ((leads_other he).mp h) hrest hlen

/-- From the values that a message begins with. -/
theorem Arranged.leads {es : List Entry} {ss : List Slot} {v : Vals ss} (h : Arranged es ss v)
    (hkinds : Slot.AllExact R ss) (hsize : size ss v < 2 ^ 32) : Leads es ss (zero ss) v := by
  induction ss with
  | nil => trivial
  | cons s ss ih =>
    obtain ⟨hitems, htail⟩ := h
    rw [size] at hsize
    refine ⟨?_, ih htail hkinds.2 (by omega)⟩
    rw [hitems]
    exact hkinds.1.takes v.1 (by omega)

end Vals

namespace Message

variable {σ : Type} {M : Message σ}

/-- **Entries that say a message are read as it**, in any order between the fields, and with entries of unknown tags
between them. -/
theorem merge_arranged (hR : R.Laws) (hM : M.Exact R) {m : σ} (hsize : M.size m < 2 ^ 32) {es : List Entry}
    (hes : Vals.Arranged es M.slots (M.toVals m)) (hskip : ∀ e ∈ es, Skipped R M.slots e) :
    M.merge R (es.flatMap (Entry.bytes R)) M.new = some m := by
  have hlen : es.length ≤ (es.flatMap (Entry.bytes R)).length := by
    have hone : ∀ n ∈ es.map fun e => (e.bytes R).length, 1 ≤ n := fun n hn => by
      obtain ⟨e, -, rfl⟩ := List.mem_map.mp hn
      have hpos := List.length_pos_of_ne_nil (hR.tag_ne_nil e.tag)
      rw [Entry.bytes, List.length_append]
      omega
    have hsum := List.length_le_sum_of_one_le _ hone
    rw [List.length_map] at hsum
    rwa [List.length_flatMap]
  have hrun := Vals.mergeIn_entries hR hM.tags (hes.leads hM.kinds hsize) hskip hlen
  rw [merge, new, hM.to_of, hrun, Option.map_some, hM.of_to]

theorem mem_entries {e : Entry} {ss : List Slot} {v : Vals ss} (h : e ∈ Vals.entries ss v) : e.tag ∈ ss.map Slot.tag := by
  induction ss with
  | nil => cases h
  | cons s ss ih =>
    rw [Vals.entries] at h
    rcases List.mem_append.mp h with h | h
    · obtain ⟨p, -, rfl⟩ := List.mem_map.mp h
      exact List.mem_cons_self
    · exact List.mem_cons_of_mem _ (ih h)

theorem entries_arranged {ss : List Slot} (hnodup : (ss.map Slot.tag).Nodup) (v : Vals ss) :
    Vals.Arranged (Vals.entries ss v) ss v := by
  -- other entries in front that have no tag of these fields
  have hall : ∀ (before : List Entry) (ss : List Slot) (v : Vals ss), (ss.map Slot.tag).Nodup →
      (∀ e ∈ before, e.tag ∉ ss.map Slot.tag) → Vals.Arranged (before ++ Vals.entries ss v) ss v := by
    intro before ss
    induction ss generalizing before with
    | nil => exact fun _ _ _ => trivial
    | cons s ss ih =>
      intro v hnodup hbefore
      rw [List.map_cons, List.nodup_cons] at hnodup
      have hnone : ∀ es : List Entry, (∀ e ∈ es, e.tag ≠ s.tag) → es.filter (fun e => e.tag = s.tag) = [] := fun es h =>
        List.filter_eq_nil_iff.mpr fun e he => by simpa using h e he
      have htail : ∀ e ∈ Vals.entries ss v.2, e.tag ≠ s.tag := fun e he heq =>
        hnodup.1 (heq ▸ mem_entries he)
      have hown : ((s.kind.items v.1).map (Entry.mk s.tag)).filter (fun e => e.tag = s.tag) =
          (s.kind.items v.1).map (Entry.mk s.tag) := by
        refine List.filter_eq_self.mpr fun e he => ?_
        obtain ⟨p, -, rfl⟩ := List.mem_map.mp he
        exact decide_eq_true rfl
      refine ⟨?_, ?_⟩
      · rw [Vals.entries, List.filter_append, List.filter_append, hown, hnone before, hnone _ htail, List.nil_append,
          List.append_nil, List.map_map]
        · exact List.map_id _
        · intro e he heq
          exact hbefore e he (heq ▸ List.mem_cons_self)
      · rw [Vals.entries, ← List.append_assoc]
        refine ih _ v.2 hnodup.2 fun e he => ?_
        rcases List.mem_append.mp he with he | he
        · exact fun h => hbefore e he (List.mem_cons_of_mem _ h)
        · obtain ⟨p, -, rfl⟩ := List.mem_map.mp he
          exact hnodup.1
  exact hall [] ss v hnodup fun e he => (by cases he)

/-- **A message is read back as it is written.** -/
theorem merge_write (hR : R.Laws) (hM : M.Exact R) {m : σ} (hsize : M.size m < 2 ^ 32) :
    M.merge R (M.write R m) M.new = some m :=
  merge_arranged hR hM hsize (entries_arranged hM.tags _) fun _ he hnot => absurd (mem_entries he) hnot

theorem length_entries {ss : List Slot} (hkinds : Slot.AllExact R ss) {v : Vals ss} (hsize : Vals.size ss v < 2 ^ 32) :
    ((Vals.entries ss v).flatMap (Entry.bytes R)).length = Vals.size ss v := by
  induction ss with
  | nil => rfl
  | cons s ss ih =>
    rw [Vals.size] at hsize ⊢
    have hown : (((s.kind.items v.1).map (Entry.mk s.tag)).flatMap (Entry.bytes R)).length =
        (s.kind.sizes s.num v.1).sum := by
      rw [← hkinds.1.length v.1 (by omega), List.length_flatMap, List.map_map]
      refine congrArg List.sum (List.map_congr_left fun p _ => ?_)
      exact List.length_append
    rw [Vals.entries, List.flatMap_append, List.length_append, hown, ih hkinds.2 (by omega)]

theorem length_write (hM : M.Exact R) {m : σ} (hsize : M.size m < 2 ^ 32) : (M.write R m).length = M.size m :=
  length_entries hM.kinds hsize

end Message

/-! ### Messages in messages -/

namespace Kind

/-- A repeated field of messages.  In front of each is the size that was computed for it, as a 32-bit number. -/
def messages (R : Runtime) {σ : Type} (M : Message σ) : Kind (List σ) where
  wire := 2
  zero := []
  items l := l.map fun m => R.len (UInt32.ofNat (M.size m)) ++ M.write R m
  sizes _ l := l.map fun m => 1 + R.lenSize (M.size m) + M.size m
  read bs l := do
    let (b, rest) ← R.chunk bs
    let m ← M.merge R b M.new
    some (l ++ [m], rest)

theorem messages_exact {σ : Type} {M : Message σ} {num : Fin 16} (hR : R.Laws) (hM : M.Exact R) :
    (Kind.messages R M).Exact R num := by
  refine exact_of_repeated rfl (fun _ => rfl) (fun _ => rfl) (fun m h => ?_) fun m l h rest => ?_
  · have htag : (R.tag (tagOf num (messages R M).wire)).length = 1 := hR.tag_one num 2
    rw [htag, List.length_append, hR.length_len _ (by omega), Message.length_write hM (by omega), Nat.add_assoc]
  · have hlen := Message.length_write hM (m := m) (by omega)
    have hread := hR.chunk (M.write R m) (by omega) rest
    rw [hlen, ← List.append_assoc] at hread
    show (R.chunk _).bind _ = _
    rw [hread, Option.bind_some]
    show (M.merge R _ M.new).bind _ = _
    rw [Message.merge_write hR hM (by omega)]
    rfl

end Kind

/-! ### Base 128 -/

/-- Base 128, the low digits first, in up to `k` bytes. -/
def varintIn : ℕ → ℕ → List UInt8
  | 0, _ => []
  | k + 1, n => if n < 128 then [UInt8.ofNat n] else UInt8.ofNat (n % 128 + 128) :: varintIn k (n / 128)

/-- A number of up to 64 bits. -/
def varint (n : ℕ) : List UInt8 := varintIn 10 n

/-- The number of bytes that seven bits each take. -/
def varintSize (n : ℕ) : ℕ := if n = 0 then 1 else (Nat.log2 n + 1 + 6) / 7

theorem log2_div (n : ℕ) (h : 128 ≤ n) : Nat.log2 n = Nat.log2 (n / 128) + 7 := by
  have hpow : (128 : ℕ) = 2 ^ 7 := rfl
  rw [Nat.log2_eq_log_two, Nat.log2_eq_log_two, hpow, Nat.log_div_base_pow]
  have hle : 7 ≤ Nat.log 2 n := Nat.le_log_of_pow_le (by decide) h
  omega

theorem length_varintIn {k n : ℕ} (h : n < 128 ^ k) (hk : 0 < k) : (varintIn k n).length = varintSize n := by
  induction k generalizing n with
  | zero => omega
  | succ k ih =>
    rw [varintIn]
    by_cases hlt : n < 128
    · rw [if_pos hlt, varintSize]
      split
      · rfl
      · next hne =>
        have hlog : Nat.log2 n < 7 := (Nat.log2_lt hne).mpr hlt
        rw [List.length_singleton]
        omega
    · have hrest : n / 128 < 128 ^ k := by
        rw [Nat.div_lt_iff_lt_mul (by decide), ← Nat.pow_succ]
        exact h
      have hpos : 0 < k := by
        rcases Nat.eq_zero_or_pos k with rfl | hpos
        · rw [Nat.pow_zero] at hrest
          omega
        · exact hpos
      have hne : n / 128 ≠ 0 := by omega
      rw [if_neg hlt, List.length_cons, ih hrest hpos, varintSize, varintSize, if_neg hne, if_neg (by omega),
        log2_div n (by omega)]
      omega

theorem length_varint {n : ℕ} (h : n < 2 ^ 64) : (varint n).length = varintSize n :=
  length_varintIn (lt_of_lt_of_le h (by decide)) (by decide)

theorem varint_ne_nil (n : ℕ) : varint n ≠ [] := by
  rw [varint, varintIn]
  split <;> exact List.cons_ne_nil _ _

/-- A 32-bit number with a sign is written as one of 64 bits. -/
def signed (v : Int32) : ℕ := v.toInt64.toUInt64.toNat

/-- A number in base 128, in up to `k` bytes. -/
def readIn : ℕ → List UInt8 → Option (ℕ × List UInt8)
  | 0, _ | _ + 1, [] => none
  | k + 1, b :: bs =>
    if b.toNat < 128 then some (b.toNat, bs)
    else do
      let (n, rest) ← readIn k bs
      some (b.toNat % 128 + 128 * n, rest)

theorem readIn_varintIn {k n : ℕ} (h : n < 128 ^ k) (hk : 0 < k) (rest : List UInt8) :
    readIn k (varintIn k n ++ rest) = some (n, rest) := by
  induction k generalizing n with
  | zero => omega
  | succ k ih =>
    rw [varintIn]
    by_cases hlt : n < 128
    · have hbyte : (UInt8.ofNat n).toNat = n := UInt8.toNat_ofNat_of_lt' (lt_of_lt_of_le hlt (by decide))
      rw [if_pos hlt, List.singleton_append, readIn, hbyte, if_pos hlt]
    · have hrest : n / 128 < 128 ^ k := by
        rw [Nat.div_lt_iff_lt_mul (by decide), ← Nat.pow_succ]
        exact h
      have hpos : 0 < k := by
        rcases Nat.eq_zero_or_pos k with rfl | hpos
        · rw [Nat.pow_zero] at hrest
          omega
        · exact hpos
      have hbyte : (UInt8.ofNat (n % 128 + 128)).toNat = n % 128 + 128 :=
        UInt8.toNat_ofNat_of_lt' (show n % 128 + 128 < 256 by omega)
      rw [if_neg hlt, List.cons_append, readIn, hbyte, if_neg (by omega), ih hrest hpos, Option.bind_eq_bind,
        Option.bind_some]
      dsimp only
      congr 2
      omega

theorem readIn_varint {n : ℕ} (h : n < 2 ^ 64) (rest : List UInt8) : readIn 10 (varint n ++ rest) = some (n, rest) :=
  readIn_varintIn (lt_of_lt_of_le h (by decide)) (Nat.zero_lt_succ 9) rest

/-- Bytes behind their number. -/
def prefixed (bs : List UInt8) : List UInt8 := varint bs.length ++ bs

def readPrefixed (bs : List UInt8) : Option (List UInt8 × List UInt8) := do
  let (len, rest) ← readIn 10 bs
  if rest.length < len then none else some (rest.take len, rest.drop len)

theorem readPrefixed_prefixed {bs : List UInt8} (h : bs.length < 2 ^ 32) (rest : List UInt8) :
    readPrefixed (prefixed bs ++ rest) = some (bs, rest) := by
  have hin : ¬ (bs ++ rest).length < bs.length := by
    rw [List.length_append]
    omega
  rw [prefixed, List.append_assoc, readPrefixed, readIn_varint (by omega), Option.bind_eq_bind, Option.bind_some]
  dsimp only
  rw [if_neg hin, List.take_left, List.drop_left]

theorem length_prefixed {bs : List UInt8} (h : bs.length < 2 ^ 32) :
    (prefixed bs).length = varintSize bs.length + bs.length := by
  rw [prefixed, List.length_append, length_varint (by omega)]

/-- The wire format.  Longer numbers are cut to 32 bits, and unknown items are passed over by their type; groups are
not read. -/
def Runtime.base128 : Runtime where
  tag t := varint t.toNat
  tagSize num := varintSize (num * 8)
  readTag bs := (readIn 10 bs).map fun x => (UInt32.ofNat x.1, x.2)
  string :=
    { write := fun s => prefixed (Utf8.encode s.toList)
      size := fun s => varintSize (Utf8.encode s.toList).length + (Utf8.encode s.toList).length
      read := fun bs => do
        let (b, rest) ← readPrefixed bs
        let cs ← Utf8.strict b
        some (String.ofList cs, rest) }
  bytes := ⟨prefixed, fun b => varintSize b.length + b.length, readPrefixed⟩
  bool := ⟨fun b => [if b then 1 else 0], fun _ => 1, fun bs => (readIn 10 bs).map fun x => (decide (x.1 ≠ 0), x.2)⟩
  uint32 := ⟨fun n => varint n.toNat, fun n => varintSize n.toNat,
    fun bs => (readIn 10 bs).map fun x => (UInt32.ofNat x.1, x.2)⟩
  uint64 := ⟨fun n => varint n.toNat, fun n => varintSize n.toNat,
    fun bs => (readIn 10 bs).map fun x => (UInt64.ofNat x.1, x.2)⟩
  enum := ⟨fun v => varint (signed v), fun v => varintSize (signed v),
    fun bs => (readIn 10 bs).map fun x => ((UInt64.ofNat x.1).toInt64.toInt32, x.2)⟩
  len n := varint n.toNat
  lenSize := varintSize
  chunk := readPrefixed
  skip tag bs :=
    match tag.toNat % 8 with
    | 0 => (readIn 10 bs).map Prod.snd
    | 1 => if bs.length < 8 then none else some (bs.drop 8)
    | 2 => (readPrefixed bs).map Prod.snd
    | 5 => if bs.length < 4 then none else some (bs.drop 4)
    | _ => none

theorem length_tag (num : Fin 16) (wire : Fin 8) : (varint (tagOf num wire).toNat).length = 1 := by
  have hnum := num.isLt
  have hwire := wire.isLt
  have htag : (tagOf num wire).toNat = num * 8 + wire := by
    rw [tagOf, UInt32.toNat_ofNat', Nat.mod_eq_of_lt (by omega)]
  rw [htag, varint, varintIn, if_pos (by omega)]
  rfl

theorem base128_laws : Runtime.base128.Laws where
  readTag t rest := by
    show (readIn 10 (varint t.toNat ++ rest)).map _ = _
    rw [readIn_varint (lt_of_lt_of_le t.toNat_lt (by decide)), Option.map_some, UInt32.ofNat_toNat]
  tag_ne_nil t := varint_ne_nil t.toNat
  tag_one := length_tag
  tagSize_one num := by
    have hnum := num.isLt
    have hlen : (varint (num * 8)).length = varintSize (num * 8) := length_varint (by omega)
    show varintSize (num * 8) = 1
    rw [← hlen, varint, varintIn, if_pos (by omega)]
    rfl
  string :=
    { read_write := fun s h rest => by
        have hlen : (Utf8.encode s.toList).length < 2 ^ 32 := lt_of_le_of_lt (Nat.le_add_left _ _) h
        show (readPrefixed (prefixed _ ++ rest)).bind _ = _
        rw [readPrefixed_prefixed hlen, Option.bind_some]
        show (Utf8.strict _).bind _ = _
        rw [Utf8.strict_encode, Option.bind_some, String.ofList_toList]
      length_write := fun s h => length_prefixed (lt_of_le_of_lt (Nat.le_add_left _ _) h) }
  bytes :=
    { read_write := fun b h rest => readPrefixed_prefixed (lt_of_le_of_lt (Nat.le_add_left _ _) h) rest
      length_write := fun b h => length_prefixed (lt_of_le_of_lt (Nat.le_add_left _ _) h) }
  bool :=
    { read_write := fun b _ rest => by cases b <;> rfl
      length_write := fun _ _ => rfl }
  bool_size _ := rfl
  uint32 :=
    { read_write := fun n _ rest => by
        show (readIn 10 (varint n.toNat ++ rest)).map _ = _
        rw [readIn_varint (lt_of_lt_of_le n.toNat_lt (by decide)), Option.map_some, UInt32.ofNat_toNat]
      length_write := fun n _ => length_varint (lt_of_lt_of_le n.toNat_lt (by decide)) }
  uint64 :=
    { read_write := fun n _ rest => by
        show (readIn 10 (varint n.toNat ++ rest)).map _ = _
        rw [readIn_varint n.toNat_lt, Option.map_some, UInt64.ofNat_toNat]
      length_write := fun n _ => length_varint n.toNat_lt }
  enum :=
    { read_write := fun v _ rest => by
        show (readIn 10 (varint (signed v) ++ rest)).map _ = _
        rw [signed, readIn_varint v.toInt64.toUInt64.toNat_lt, Option.map_some, UInt64.ofNat_toNat,
          Int64.toInt64_toUInt64, Int32.toInt32_toInt64]
      length_write := fun v _ => length_varint v.toInt64.toUInt64.toNat_lt }
  length_len n h := by
    show (varint (UInt32.ofNat n).toNat).length = varintSize n
    rw [UInt32.toNat_ofNat', Nat.mod_eq_of_lt h, length_varint (by omega)]
  chunk bs h rest := by
    show readPrefixed (varint (UInt32.ofNat bs.length).toNat ++ (bs ++ rest)) = _
    rw [UInt32.toNat_ofNat', Nat.mod_eq_of_lt h, ← List.append_assoc]
    exact readPrefixed_prefixed h rest

end Protobuf
