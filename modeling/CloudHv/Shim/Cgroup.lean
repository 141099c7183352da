import Mathlib.Data.List.Basic
import Mathlib.Data.List.Induction
import Mathlib.Data.String.Basic

/-!
# Cgroup — the path of a systemd slice

`build_systemd_cgroup_path` of `crates/shim/src/instance.rs` gives the place of a slice in the cgroup hierarchy: below
the slices of all beginnings of its name (`build_path_segments`).  Different slices have different places, even where a
segment has a slash in it: the path has as many dashes as its number of segments allows (`count_path`), and what is
behind the last of them is the end of the name.
-/

namespace CloudHv.Shim.Cgroup

/-! ### The code -/

/-- `str::strip_suffix`. -/
def stripSuffix (s suffix : String) : Option String :=
  if suffix.toList <:+ s.toList then some (String.ofList (s.toList.take (s.toList.length - suffix.toList.length)))
  else none

/-- `str::split`, at a character. -/
def splitAt (c : Char) (s : String) : List String := (s.toList.splitOn c).map String.ofList

/-- A round of the loop: what the segments so far are, with dashes, and the parts of the path. -/
def addSegment (st : String × List String) (segment : String) : String × List String :=
  let begin := if st.1 = "" then segment else st.1 ++ "-" ++ segment
  (begin, st.2 ++ [begin ++ ".slice"])

def buildSystemdCgroupPath (slice : String) : String :=
  let name := (stripSuffix slice ".slice").getD slice
  "/".intercalate ((splitAt '-' name).foldl addSegment ("", [])).2

/-! ### Slices -/

/-- The segments of a slice. -/
structure IsSlice (segs : List String) : Prop where
  ne_nil : segs ≠ []
  ne_empty : ∀ s ∈ segs, s ≠ ""
  dash_free : ∀ s ∈ segs, '-' ∉ s.toList

/-- The name of a slice with these segments. -/
def sliceName (segs : List String) : String := "-".intercalate segs ++ ".slice"

/-- The names of the slices above a slice, and its own. -/
def components (segs : List String) : List String :=
  (List.range segs.length).map fun i => sliceName (segs.take (i + 1))

section Build

variable {segs : List String} {x : String}

theorem components_concat (segs : List String) (x : String) :
    components (segs ++ [x]) = components segs ++ [sliceName (segs ++ [x])] := by
  have hlen : (segs ++ [x]).length = segs.length + 1 := List.length_append
  rw [components, hlen, List.range_succ, List.map_append, List.map_singleton]
  congr 1
  · refine List.map_congr_left fun i hi => ?_
    rw [List.take_append_of_le_length (List.mem_range.mp hi)]
  · rw [← hlen, List.take_length]

theorem intercalate_concat (sep : String) {segs : List String} (hne : segs ≠ []) (x : String) :
    sep.intercalate (segs ++ [x]) = sep.intercalate segs ++ sep ++ x := by
  rw [String.intercalate_append_of_ne_nil hne (List.cons_ne_nil x []), String.intercalate_singleton]

theorem intercalate_ne_empty (hne : segs ≠ []) (h : ∀ s ∈ segs, s ≠ "") : "-".intercalate segs ≠ "" := by
  obtain ⟨a, rest, rfl⟩ := List.exists_cons_of_ne_nil hne
  have ha : a ≠ "" := h a List.mem_cons_self
  cases rest with
  | nil => rwa [String.intercalate_singleton]
  | cons b rest =>
    rw [String.intercalate_cons_cons]
    intro hc
    have hlist := congrArg String.toList hc
    simp at hlist

/-- The loop over the segments. -/
theorem foldl_addSegment (h : ∀ s ∈ segs, s ≠ "") :
    segs.foldl addSegment ("", []) = ("-".intercalate segs, components segs) := by
  induction segs using List.reverseRecOn with
  | nil => rfl
  | append_singleton segs x ih =>
    have hsegs : ∀ s ∈ segs, s ≠ "" := fun s hs => h s (List.mem_append_left [x] hs)
    rw [List.foldl_append, ih hsegs, List.foldl_cons, List.foldl_nil, addSegment, components_concat, sliceName]
    by_cases hne : segs = []
    · subst hne
      rfl
    · rw [if_neg (intercalate_ne_empty hne hsegs), intercalate_concat "-" hne]

theorem stripSuffix_append (s suffix : String) : stripSuffix (s ++ suffix) suffix = some s := by
  rw [stripSuffix, String.toList_append, if_pos (List.suffix_append _ _), List.length_append, Nat.add_sub_cancel,
    List.take_left, String.ofList_toList]

theorem splitAt_intercalate (h : IsSlice segs) : splitAt '-' ("-".intercalate segs) = segs := by
  have hfree : ∀ l ∈ segs.map String.toList, '-' ∉ l := by
    intro l hl
    obtain ⟨s, hs, rfl⟩ := List.mem_map.mp hl
    exact h.dash_free s hs
  have hne : segs.map String.toList ≠ [] := fun hnil => h.ne_nil (List.map_eq_nil_iff.mp hnil)
  rw [splitAt, String.toList_intercalate]
  show ((['-'].intercalate (segs.map String.toList)).splitOn '-').map String.ofList = segs
  rw [List.splitOn_intercalate '-' hfree hne, List.map_map]
  simp

/-- The path is that of the components. -/
theorem build_eq (h : IsSlice segs) : buildSystemdCgroupPath (sliceName segs) = "/".intercalate (components segs) := by
  rw [buildSystemdCgroupPath, sliceName, stripSuffix_append, Option.getD_some, splitAt_intercalate h,
    foldl_addSegment h.ne_empty]

end Build

/-! ### Different slices -/

/-- The characters behind the first segment of a name. -/
def dashed (segs : List String) : List Char := segs.flatMap fun s => '-' :: s.toList

/-- The characters of the path of a slice. -/
def pathChars (segs : List String) : List Char := ("/".intercalate (components segs)).toList

section Paths

variable {segs segs' rest : List String} {a x : String}

theorem toList_sliceName (a : String) (rest : List String) :
    (sliceName (a :: rest)).toList = a.toList ++ (dashed rest ++ ".slice".toList) := by
  have hjoin : ∀ (a : String) (rest : List String), ("-".intercalate (a :: rest)).toList = a.toList ++ dashed rest := by
    intro a rest
    induction rest generalizing a with
    | nil => simp [dashed]
    | cons b rest ih =>
      rw [String.intercalate_cons_cons, String.toList_append, String.toList_append, ih, dashed, dashed, List.flatMap_cons]
      simp
  rw [sliceName, String.toList_append, hjoin, List.append_assoc]

theorem pathChars_single (a : String) : pathChars [a] = a.toList ++ ".slice".toList := by
  have hone : components [a] = [sliceName [a]] := rfl
  rw [pathChars, hone, String.intercalate_singleton, toList_sliceName]
  rfl

theorem pathChars_concat (hne : segs ≠ []) (x : String) :
    pathChars (segs ++ [x]) = pathChars segs ++ '/' :: (sliceName (segs ++ [x])).toList := by
  have hcomp : components segs ≠ [] := by
    intro hnil
    have hlen := congrArg List.length hnil
    rw [components, List.length_map, List.length_range, List.length_nil] at hlen
    exact hne (List.eq_nil_of_length_eq_zero hlen)
  rw [pathChars, components_concat, intercalate_concat "/" hcomp, String.toList_append, String.toList_append,
    List.append_assoc]
  rfl

/-- The path ends with the name. -/
theorem pathChars_end (hne : segs ≠ []) : ∃ u, pathChars segs = u ++ (sliceName segs).toList := by
  obtain ⟨init, x, rfl⟩ := List.eq_nil_or_concat segs |>.resolve_left hne
  rw [List.concat_eq_append] at *
  by_cases hinit : init = []
  · subst hinit
    exact ⟨[], by rw [List.nil_append, pathChars_single, toList_sliceName]; rfl⟩
  · exact ⟨pathChars init ++ ['/'], by rw [pathChars_concat hinit, List.append_assoc]; rfl⟩

/-- The path of a slice of several segments begins with the first one, twice. -/
theorem pathChars_begin (hne : rest ≠ []) :
    ∃ z, pathChars (a :: rest) = (a.toList ++ ".slice/".toList ++ a.toList) ++ '-' :: z := by
  induction rest using List.reverseRecOn with
  | nil => exact absurd rfl hne
  | append_singleton rest x ih =>
    rw [← List.cons_append, pathChars_concat (List.cons_ne_nil a rest)]
    by_cases hrest : rest = []
    · subst hrest
      refine ⟨x.toList ++ ".slice".toList, ?_⟩
      have hname : (sliceName [a, x]).toList = a.toList ++ '-' :: (x.toList ++ ".slice".toList) := by
        rw [toList_sliceName]
        simp [dashed]
      rw [pathChars_single, List.singleton_append, hname]
      simp
    · obtain ⟨z, hz⟩ := ih hrest
      exact ⟨z ++ '/' :: (sliceName (a :: rest ++ [x])).toList, by rw [hz]; simp⟩

theorem count_dashed (h : ∀ s ∈ rest, '-' ∉ s.toList) : (dashed rest).count '-' = rest.length := by
  induction rest with
  | nil => rfl
  | cons b rest ih =>
    have hb : b.toList.count '-' = 0 := List.count_eq_zero.mpr (h b List.mem_cons_self)
    rw [dashed, List.flatMap_cons, List.cons_append, List.count_cons_self, List.count_append, hb, List.length_cons,
      Nat.zero_add]
    exact congrArg (· + 1) (ih fun s hs => h s (List.mem_cons_of_mem b hs))

/-- A name has a dash less than it has segments. -/
theorem count_sliceName (h : IsSlice (a :: rest)) : (sliceName (a :: rest)).toList.count '-' = rest.length := by
  have ha : a.toList.count '-' = 0 := List.count_eq_zero.mpr (h.dash_free a List.mem_cons_self)
  have hslice : ".slice".toList.count '-' = 0 := by decide
  rw [toList_sliceName, List.count_append, List.count_append, ha, hslice,
    count_dashed fun s hs => h.dash_free s (List.mem_cons_of_mem a hs)]
  omega

theorem IsSlice.init (h : IsSlice (segs ++ [x])) (hne : segs ≠ []) : IsSlice segs where
  ne_nil := hne
  ne_empty s hs := h.ne_empty s (List.mem_append_left [x] hs)
  dash_free s hs := h.dash_free s (List.mem_append_left [x] hs)

/-- The dashes of a path, by its number of segments. -/
def dashes : ℕ → ℕ
  | 0 => 0
  | n + 1 => dashes n + n

theorem count_path (h : IsSlice segs) : (pathChars segs).count '-' = dashes segs.length := by
  induction segs using List.reverseRecOn with
  | nil => exact absurd rfl h.ne_nil
  | append_singleton segs x ih =>
    have hlen : (segs ++ [x]).length = segs.length + 1 := List.length_append
    by_cases hne : segs = []
    · subst hne
      have hx : (sliceName [x]).toList.count '-' = 0 := count_sliceName h
      have hpath : pathChars [x] = (sliceName [x]).toList := by
        rw [pathChars_single, toList_sliceName]
        rfl
      rw [List.nil_append, hpath, hx]
      rfl
    · obtain ⟨a, rest, rfl⟩ := List.exists_cons_of_ne_nil hne
      have hname : (sliceName (a :: rest ++ [x])).toList.count '-' = (a :: rest).length := by
        have hall : IsSlice (a :: (rest ++ [x])) := h
        rw [List.cons_append, count_sliceName hall, List.length_append]
        rfl
      have hslash : '/' ≠ '-' := by decide
      rw [pathChars_concat hne, List.count_append, List.count_cons_of_ne hslash, ih (h.init hne), hname, hlen, dashes]

theorem dashes_lt {m n : ℕ} (hm : 0 < m) (h : m < n) : dashes m < dashes n := by
  induction n with
  | zero => omega
  | succ n ih =>
    rw [dashes]
    rcases Nat.lt_succ_iff_lt_or_eq.mp h with hlt | rfl
    · have := ih hlt
      omega
    · omega

theorem dashes_inj {m n : ℕ} (hm : 0 < m) (hn : 0 < n) (h : dashes m = dashes n) : m = n := by
  rcases Nat.lt_trichotomy m n with hlt | heq | hlt
  · exact absurd h (Nat.ne_of_lt (dashes_lt hm hlt))
  · exact heq
  · exact absurd h (Nat.ne_of_gt (dashes_lt hn hlt))

/-- Two ends of a list that begin with an `x` and have as many of them. -/
theorem end_unique {α : Type} [DecidableEq α] {x : α} {u u' t t' : List α} (h : u ++ x :: t = u' ++ x :: t')
    (hc : (x :: t).count x = (x :: t').count x) : x :: t = x :: t' := by
  have hshort : ∀ {t t' : List α}, x :: t <:+ x :: t' → (x :: t).count x = (x :: t').count x → x :: t = x :: t' := by
    rintro t t' ⟨w, hw⟩ hc
    cases w with
    | nil => exact hw
    | cons y w =>
      obtain ⟨rfl, -⟩ := List.cons.inj hw
      have hcount := congrArg (List.count y) hw
      rw [List.count_append, List.count_cons_self] at hcount
      omega
  have hl : x :: t <:+ u ++ x :: t := List.suffix_append u _
  have hr : x :: t' <:+ u ++ x :: t := h ▸ List.suffix_append u' _
  rcases List.suffix_or_suffix_of_suffix hl hr with hs | hs
  · exact hshort hs hc
  · exact (hshort hs hc.symm).symm

/-- What comes before the first `x` of a list. -/
theorem begin_unique {α : Type} [DecidableEq α] {x : α} {l l' z z' : List α} (h : l ++ x :: z = l' ++ x :: z')
    (hl : x ∉ l) (hl' : x ∉ l') : l = l' := by
  have hfirst : ∀ {l z : List α}, x ∉ l → (l ++ x :: z).takeWhile (· ≠ x) = l := by
    intro l z hl
    have hall : ∀ y ∈ l, decide (y ≠ x) = true := by
      intro y hy
      refine decide_eq_true ?_
      rintro rfl
      exact hl hy
    rw [List.takeWhile_append_of_pos hall, List.takeWhile_cons_of_neg (by simp), List.append_nil]
  rw [← hfirst (z := z) hl, h, hfirst hl']

/-- The first segment is in front of the first dash. -/
theorem first_of_path {a' : String} {rest' : List String} (hne : rest ≠ []) (hne' : rest' ≠ []) (ha : '-' ∉ a.toList)
    (ha' : '-' ∉ a'.toList) (heq : pathChars (a :: rest) = pathChars (a' :: rest')) : a.toList = a'.toList := by
  obtain ⟨z, hz⟩ := pathChars_begin (a := a) hne
  obtain ⟨z', hz'⟩ := pathChars_begin (a := a') hne'
  have hfree : ∀ {c : String}, '-' ∉ c.toList → '-' ∉ c.toList ++ ".slice/".toList ++ c.toList := by
    intro c hc
    simp [hc]
  rw [hz, hz'] at heq
  have htwice := begin_unique heq (hfree ha) (hfree ha')
  have hsize := congrArg List.length htwice
  simp only [List.length_append] at hsize
  rw [List.append_assoc, List.append_assoc] at htwice
  exact (List.append_inj htwice (by omega)).1

/-- The others are behind the dash that their number gives. -/
theorem rest_of_path {a' b b' : String} {rest' : List String} (h : ∀ s ∈ b :: rest, '-' ∉ s.toList)
    (h' : ∀ s ∈ b' :: rest', '-' ∉ s.toList) (hlen : (b :: rest).length = (b' :: rest').length)
    (heq : pathChars (a :: b :: rest) = pathChars (a' :: b' :: rest')) :
    dashed (b :: rest) ++ ".slice".toList = dashed (b' :: rest') ++ ".slice".toList := by
  obtain ⟨u, hu⟩ := pathChars_end (List.cons_ne_nil a (b :: rest))
  obtain ⟨u', hu'⟩ := pathChars_end (List.cons_ne_nil a' (b' :: rest'))
  have hends : (u ++ a.toList) ++ (dashed (b :: rest) ++ ".slice".toList) =
      (u' ++ a'.toList) ++ (dashed (b' :: rest') ++ ".slice".toList) := by
    rw [hu, hu', toList_sliceName, toList_sliceName] at heq
    rw [List.append_assoc, List.append_assoc, heq]
  have hcount : (dashed (b :: rest) ++ ".slice".toList).count '-' =
      (dashed (b' :: rest') ++ ".slice".toList).count '-' := by
    rw [List.count_append, List.count_append, count_dashed h, count_dashed h', hlen]
  exact end_unique hends hcount

/-- The path determines the number of segments. -/
theorem length_of_path (h : IsSlice segs) (h' : IsSlice segs') (heq : pathChars segs = pathChars segs') :
    segs.length = segs'.length := by
  have hcount := congrArg (List.count '-') heq
  rw [count_path h, count_path h'] at hcount
  exact dashes_inj (List.length_pos_of_ne_nil h.ne_nil) (List.length_pos_of_ne_nil h'.ne_nil) hcount

/-- The path determines the name. -/
theorem sliceName_of_path (h : IsSlice segs) (h' : IsSlice segs') (heq : pathChars segs = pathChars segs') :
    sliceName segs = sliceName segs' := by
  have hlen := length_of_path h h' heq
  rw [← String.toList_inj]
  match segs, segs', hlen with
  | [], _, _ => exact absurd rfl h.ne_nil
  | [a], [a'], _ =>
    -- a single segment: the path is the name
    rw [pathChars_single, pathChars_single] at heq
    rw [toList_sliceName, toList_sliceName]
    exact heq
  | a :: b :: rest, a' :: b' :: rest', hlen =>
    have hfirst := first_of_path (List.cons_ne_nil b rest) (List.cons_ne_nil b' rest')
      (h.dash_free a List.mem_cons_self) (h'.dash_free a' List.mem_cons_self) heq
    have hrest := rest_of_path (fun s hs => h.dash_free s (List.mem_cons_of_mem a hs))
      (fun s hs => h'.dash_free s (List.mem_cons_of_mem a' hs)) (Nat.succ.inj hlen) heq
    rw [toList_sliceName, toList_sliceName, hfirst, hrest]

end Paths

/-! ### The hierarchy of a slice -/

theorem getElem?_components {segs : List String} {i : ℕ} (hi : i < segs.length) :
    (components segs)[i]? = some (sliceName (segs.take (i + 1))) := by
  rw [components, List.getElem?_map, List.getElem?_range hi, Option.map_some]

/-- A component is the one above it and a segment more. -/
theorem components_extend {segs : List String} {i : ℕ} {seg : String} (hseg : segs[i + 1]? = some seg) :
    ∃ name, (components segs)[i]? = some (name ++ ".slice") ∧
      (components segs)[i + 1]? = some (name ++ "-" ++ seg ++ ".slice") := by
  obtain ⟨hlt, -⟩ := List.getElem?_eq_some_iff.mp hseg
  have hne : segs.take (i + 1) ≠ [] := by
    have hlen : (segs.take (i + 1)).length = i + 1 := List.length_take_of_le (Nat.le_of_lt hlt)
    intro hnil
    rw [hnil] at hlen
    cases hlen
  refine ⟨"-".intercalate (segs.take (i + 1)), getElem?_components (Nat.lt_of_succ_lt hlt), ?_⟩
  rw [getElem?_components hlt, List.take_add_one, hseg, Option.toList_some, sliceName, intercalate_concat "-" hne]

theorem getLast?_components {segs : List String} (hne : segs ≠ []) :
    (components segs).getLast? = some (sliceName segs) := by
  obtain ⟨init, x, rfl⟩ := List.eq_nil_or_concat segs |>.resolve_left hne
  rw [List.concat_eq_append, components_concat, List.getLast?_append, List.getLast?_singleton]
  rfl

/-- The path of a slice goes through the slices of the beginnings of its name, each a segment longer than the one before,
down to the slice; and no other slice has this path. -/
theorem build_path_segments (segs : List String) (h : IsSlice segs) :
    buildSystemdCgroupPath (sliceName segs) = "/".intercalate (components segs) ∧
      (components segs).length = segs.length ∧ (components segs).getLast? = some (sliceName segs) ∧
      (∀ i seg, segs[i + 1]? = some seg → ∃ name, (components segs)[i]? = some (name ++ ".slice") ∧
        (components segs)[i + 1]? = some (name ++ "-" ++ seg ++ ".slice")) ∧
      ∀ segs', IsSlice segs' → sliceName segs ≠ sliceName segs' →
        buildSystemdCgroupPath (sliceName segs) ≠ buildSystemdCgroupPath (sliceName segs') := by
  refine ⟨build_eq h, by rw [components, List.length_map, List.length_range], getLast?_components h.ne_nil,
    fun i seg hseg => components_extend hseg, fun segs' h' hne heq => hne ?_⟩
  rw [build_eq h, build_eq h'] at heq
  exact sliceName_of_path h h' (congrArg String.toList heq)

theorem build_path_segments_pod :
    buildSystemdCgroupPath "kubepods-burstable-pod1.slice" =
        "kubepods.slice/kubepods-burstable.slice/kubepods-burstable-pod1.slice" ∧
      buildSystemdCgroupPath "kubepods-burstable-pod1.slice" ≠ buildSystemdCgroupPath "kubepods-pod1.slice" := by
  have hthree : IsSlice ["kubepods", "burstable", "pod1"] := ⟨by decide, by decide, by decide⟩
  have htwo : IsSlice ["kubepods", "pod1"] := ⟨by decide, by decide, by decide⟩
  obtain ⟨hpath, -, -, -, hdiffer⟩ := build_path_segments ["kubepods", "burstable", "pod1"] hthree
  exact ⟨hpath, hdiffer ["kubepods", "pod1"] htwo (by decide)⟩

end CloudHv.Shim.Cgroup
