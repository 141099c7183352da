import CloudHv.Lib.Json
import CloudHv.Lib.Text

/-!
# JsonText — JSON values as text

`print` writes a value without any white space, `parse` reads a text as RFC 8259 has it; nested arrays and objects
are read to a depth of 127.  What was printed is read back (`parse_print`), for values whose numbers are numbers and
whose objects have their keys in order (`Plain`).  A printed value has no control character in it, and no white space
at its ends.
-/

namespace Json

/-! ### Printing -/

/-- A character inside a string literal. -/
def escape (c : Char) : List Char :=
  if c = '"' then ['\\', '"']
  else if c = '\\' then ['\\', '\\']
  else if c = '\n' then ['\\', 'n']
  else if c = '\r' then ['\\', 'r']
  else if c = '\t' then ['\\', 't']
  else if c = '\x08' then ['\\', 'b']
  else if c = '\x0c' then ['\\', 'f']
  else if c.toNat < 32 then '\\' :: 'u' :: Text.hexDigits 4 c.toNat
  else [c]

def quote (s : String) : List Char := '"' :: (s.toList.flatMap escape ++ ['"'])

mutual

def print : Json → List Char
  | .null => "null".toList
  | .bool true => "true".toList
  | .bool false => "false".toList
  | .num t => t.toList
  | .str s => quote s
  | .arr [] => ['[', ']']
  | .arr (j :: js) => '[' :: (print j ++ printItems js)
  | .obj [] => ['{', '}']
  | .obj (p :: ps) => '{' :: (printField p ++ printFields ps)

/-- The elements of an array from the second one on. -/
def printItems : List Json → List Char
  | [] => [']']
  | j :: js => ',' :: (print j ++ printItems js)

def printField : String × Json → List Char
  | (k, v) => quote k ++ ':' :: print v

/-- The fields of an object from the second one on. -/
def printFields : List (String × Json) → List Char
  | [] => ['}']
  | p :: ps => ',' :: (printField p ++ printFields ps)

end

/-! ### Numbers -/

/-- Where the scan of a number is. -/
inductive NumState where
  | start | minus | zero | int | point | frac | exp | expSign | expInt
  deriving DecidableEq

namespace NumState

def step : NumState → Char → Option NumState
  | .start, c => if c = '-' then some .minus else if c = '0' then some .zero else if c.isDigit then some .int else none
  | .minus, c => if c = '0' then some .zero else if c.isDigit then some .int else none
  | .zero, c => if c = '.' then some .point else if c = 'e' ∨ c = 'E' then some .exp else none
  | .int, c =>
    if c.isDigit then some .int
    else if c = '.' then some .point else if c = 'e' ∨ c = 'E' then some .exp else none
  | .point, c => if c.isDigit then some .frac else none
  | .frac, c => if c.isDigit then some .frac else if c = 'e' ∨ c = 'E' then some .exp else none
  | .exp, c => if c = '+' ∨ c = '-' then some .expSign else if c.isDigit then some .expInt else none
  | .expSign, c | .expInt, c => if c.isDigit then some .expInt else none

/-- A number can end here. -/
def final : NumState → Bool
  | .zero | .int | .frac | .expInt => true
  | _ => false

end NumState

def readNum : NumState → List Char → Option (List Char × List Char)
  | q, [] => if q.final then some ([], []) else none
  | q, c :: cs =>
    match q.step c with
    | some q' => (readNum q' cs).map fun (t, rest) => (c :: t, rest)
    | none => if q.final then some ([], c :: cs) else none

/-- A text that is a number. -/
def IsNumber (t : String) : Prop := readNum .start t.toList = some (t.toList, [])

instance (t : String) : Decidable (IsNumber t) := inferInstanceAs (Decidable (_ = _))

/-! ### Strings -/

def hexVal (c : Char) : Option ℕ :=
  if c.isDigit then some (c.toNat - 48)
  else if 'a' ≤ c ∧ c ≤ 'f' then some (c.toNat - 87)
  else if 'A' ≤ c ∧ c ≤ 'F' then some (c.toNat - 55)
  else none

def readHex4 : List Char → Option (ℕ × List Char)
  | a :: b :: c :: d :: cs =>
    match hexVal a, hexVal b, hexVal c, hexVal d with
    | some w, some x, some y, some z => some (w * 4096 + x * 256 + y * 16 + z, cs)
    | _, _, _, _ => none
  | _ => none

/-- A UTF-16 unit, and the second one of a pair. -/
def readUnit (cs : List Char) : Option (Char × List Char) :=
  match readHex4 cs with
  | none => none
  | some (n, rest) =>
    if 0xD800 ≤ n ∧ n < 0xDC00 then
      match rest with
      | '\\' :: 'u' :: rest =>
        match readHex4 rest with
        | some (m, rest) =>
          if 0xDC00 ≤ m ∧ m < 0xE000 then some (Char.ofNat (0x10000 + (n - 0xD800) * 0x400 + (m - 0xDC00)), rest)
          else none
        | none => none
      | _ => none
    else if 0xDC00 ≤ n ∧ n < 0xE000 then none
    else some (Char.ofNat n, rest)

/-- What follows a backslash. -/
def unescape : List Char → Option (Char × List Char)
  | [] => none
  | c :: cs =>
    if c = '"' ∨ c = '\\' ∨ c = '/' then some (c, cs)
    else if c = 'n' then some ('\n', cs)
    else if c = 'r' then some ('\r', cs)
    else if c = 't' then some ('\t', cs)
    else if c = 'b' then some ('\x08', cs)
    else if c = 'f' then some ('\x0c', cs)
    else if c = 'u' then readUnit cs
    else none

/-- The rest of a string literal; the first argument is more than the number of its characters. -/
def readStr : ℕ → List Char → Option (List Char × List Char)
  | 0, _ => none
  | _, [] => none
  | k + 1, c :: cs =>
    if c = '"' then some ([], cs)
    else if c = '\\' then
      match unescape cs with
      | some (d, rest) => (readStr k rest).map fun (s, rest) => (d :: s, rest)
      | none => none
    else if c.toNat < 32 then none
    else (readStr k cs).map fun (s, rest) => (c :: s, rest)

/-! ### Values -/

def isSpace (c : Char) : Bool := c = ' ' || c = '\n' || c = '\t' || c = '\r'

def skip (cs : List Char) : List Char := cs.dropWhile isSpace

/-- A literal, a string or a number. -/
def readScalar : List Char → Option (Json × List Char)
  | [] => none
  | c :: cs =>
    if c = '"' then (readStr (cs.length + 1) cs).map fun (s, rest) => (.str (String.ofList s), rest)
    else if c = 'n' then if "ull".toList <+: cs then some (.null, cs.drop 3) else none
    else if c = 't' then if "rue".toList <+: cs then some (.bool true, cs.drop 3) else none
    else if c = 'f' then if "alse".toList <+: cs then some (.bool false, cs.drop 4) else none
    else (readNum .start (c :: cs)).map fun (t, rest) => (.num (String.ofList t), rest)

section Containers

variable (value : List Char → Option (Json × List Char))

def readItems : ℕ → List Char → Option (List Json × List Char)
  | 0, _ => none
  | k + 1, cs =>
    match value cs with
    | none => none
    | some (j, rest) =>
      match skip rest with
      | [] => none
      | c :: rest =>
        if c = ']' then some ([j], rest)
        else if c = ',' then (readItems k rest).map fun (js, rest) => (j :: js, rest)
        else none

/-- A key and its value. -/
def readField (cs : List Char) : Option ((String × Json) × List Char) :=
  match skip cs with
  | [] => none
  | c :: rest =>
    if c = '"' then
      match readStr (rest.length + 1) rest with
      | none => none
      | some (k, rest) =>
        match skip rest with
        | [] => none
        | c :: rest => if c = ':' then (value rest).map fun (v, rest) => ((String.ofList k, v), rest) else none
    else none

def readFields : ℕ → List Char → Option (List (String × Json) × List Char)
  | 0, _ => none
  | k + 1, cs =>
    match readField value cs with
    | none => none
    | some (p, rest) =>
      match skip rest with
      | [] => none
      | c :: rest =>
        if c = '}' then some ([p], rest)
        else if c = ',' then (readFields k rest).map fun (ps, rest) => (p :: ps, rest)
        else none

/-- An array or object, after its opening bracket. -/
def readArray (cs : List Char) : Option (Json × List Char) :=
  match skip cs with
  | ']' :: rest => some (.arr [], rest)
  | _ => (readItems value (cs.length + 1) cs).map fun (js, rest) => (.arr js, rest)

def readObject (cs : List Char) : Option (Json × List Char) :=
  match skip cs with
  | '}' :: rest => some (.obj [], rest)
  | _ => (readFields value (cs.length + 1) cs).map fun (ps, rest) => (object ps, rest)

end Containers

/-- A value with at most `d` arrays and objects inside one another. -/
def readValue : ℕ → List Char → Option (Json × List Char)
  | 0, cs => readScalar (skip cs)
  | d + 1, cs =>
    match skip cs with
    | [] => none
    | c :: rest =>
      if c = '[' then readArray (readValue d) rest
      else if c = '{' then readObject (readValue d) rest
      else readScalar (c :: rest)

/-- The value of a whole text. -/
def parse (cs : List Char) : Option Json :=
  match readValue 127 cs with
  | some (j, rest) => if skip rest = [] then some j else none
  | none => none

/-! ### Strings are read back -/

theorem readHex4_hexDigits {n : ℕ} (h : n < 32) (rest : List Char) :
    readHex4 (Text.hexDigits 4 n ++ rest) = some (n, rest) := by
  have hall : ∀ m < 32, readHex4 (Text.hexDigits 4 m) = some (m, []) := by decide
  have hfour := Text.length_hexDigits 4 n
  have hread := hall n h
  generalize Text.hexDigits 4 n = ds at hfour hread
  match ds, hfour with
  | [a, b, c, d], _ =>
    simp only [readHex4, List.cons_append, List.nil_append] at hread ⊢
    split at hread
    · obtain ⟨hn, -⟩ := Prod.mk.inj (Option.some.inj hread)
      rw [hn]
    · cases hread

theorem unescape_unit {c : Char} (h : c.toNat < 32) (rest : List Char) :
    unescape ('u' :: (Text.hexDigits 4 c.toNat ++ rest)) = some (c, rest) := by
  have hlow : ¬ (0xD800 ≤ c.toNat ∧ c.toNat < 0xDC00) := by omega
  have hhigh : ¬ (0xDC00 ≤ c.toNat ∧ c.toNat < 0xE000) := by omega
  simp only [unescape, readUnit, readHex4_hexDigits h, if_neg hlow, if_neg hhigh, Char.ofNat_toNat]
  rfl

theorem readStr_escape (c : Char) (k : ℕ) (rest : List Char) :
    readStr (k + 1) (escape c ++ rest) = (readStr k rest).map fun (s, rest) => (c :: s, rest) := by
  have hback : ∀ (d : Char) (cs : List Char), unescape cs = some (d, rest) →
      readStr (k + 1) ('\\' :: cs) = (readStr k rest).map fun (s, rest) => (d :: s, rest) := by
    intro d cs h
    rw [readStr, if_neg (by decide), if_pos rfl, h]
  unfold escape
  split_ifs with hquote hslash hn hr ht hb hf hctl
  · exact hback c _ (by rw [hquote]; rfl)
  · exact hback c _ (by rw [hslash]; rfl)
  · exact hback c _ (by rw [hn]; rfl)
  · exact hback c _ (by rw [hr]; rfl)
  · exact hback c _ (by rw [ht]; rfl)
  · exact hback c _ (by rw [hb]; rfl)
  · exact hback c _ (by rw [hf]; rfl)
  · exact hback c _ (unescape_unit hctl rest)
  · show readStr (k + 1) (c :: rest) = _
    rw [readStr, if_neg hquote, if_neg hslash, if_neg hctl]

theorem length_escape (c : Char) : 1 ≤ (escape c).length := by
  unfold escape
  split_ifs
  all_goals exact Nat.succ_le_succ (Nat.zero_le _)

theorem readStr_quoted (s : List Char) (rest : List Char) {k : ℕ} (hk : s.length < k) :
    readStr k (s.flatMap escape ++ '"' :: rest) = some (s, rest) := by
  induction s generalizing k with
  | nil =>
    obtain ⟨k, rfl⟩ : ∃ m, k = m + 1 := ⟨k - 1, by simp at hk; omega⟩
    rw [List.flatMap_nil, List.nil_append, readStr, if_pos rfl]
  | cons c s ih =>
    obtain ⟨k, rfl⟩ : ∃ m, k = m + 1 := ⟨k - 1, by simp at hk; omega⟩
    have hs : s.length < k := by simpa using hk
    rw [List.flatMap_cons, List.append_assoc, readStr_escape, ih hs]
    rfl

theorem length_flatMap_escape (s : List Char) : s.length ≤ (s.flatMap escape).length := by
  induction s with
  | nil => exact Nat.le_refl _
  | cons c s ih =>
    have hc := length_escape c
    rw [List.flatMap_cons, List.length_append, List.length_cons]
    omega

/-- A literal is read back, with what is left of the text as the bound. -/
theorem readStr_quote (s : String) (rest : List Char) {k : ℕ}
    (hk : (s.toList.flatMap escape ++ '"' :: rest).length < k) :
    readStr k (s.toList.flatMap escape ++ '"' :: rest) = some (s.toList, rest) := by
  refine readStr_quoted _ _ ?_
  have hlen := length_flatMap_escape s.toList
  rw [List.length_append] at hk
  omega

/-! ### Numbers are read back -/

/-- What can follow a number. -/
def Ends (rest : List Char) : Prop :=
  ∀ c cs, rest = c :: cs → c.isDigit = false ∧ c ≠ '.' ∧ c ≠ 'e' ∧ c ≠ 'E'

theorem ends_nil : Ends [] := fun c cs h => (by cases h)

theorem ends_cons {c : Char} {cs : List Char} (h : c.isDigit = false ∧ c ≠ '.' ∧ c ≠ 'e' ∧ c ≠ 'E') :
    Ends (c :: cs) := by
  intro d ds he
  rw [← (List.cons.inj he).1]
  exact h

theorem step_final {q : NumState} (hq : q.final = true) {c : Char}
    (h : c.isDigit = false ∧ c ≠ '.' ∧ c ≠ 'e' ∧ c ≠ 'E') : q.step c = none := by
  obtain ⟨hdig, hdot, he, hE⟩ := h
  have hexp : ¬ (c = 'e' ∨ c = 'E') := fun h => h.elim he hE
  cases q <;> simp [NumState.final] at hq <;> simp [NumState.step, hdig, hdot, hexp]

/-- The scan stops where the number ends, whatever follows. -/
theorem readNum_append {q : NumState} {t rest : List Char} (h : readNum q t = some (t, [])) (hrest : Ends rest) :
    readNum q (t ++ rest) = some (t, rest) := by
  induction t generalizing q with
  | nil =>
    simp only [readNum] at h
    split at h
    · next hq =>
      cases rest with
      | nil => rw [List.nil_append, readNum, if_pos hq]
      | cons c cs => rw [List.nil_append, readNum, step_final hq (hrest c cs rfl), if_pos hq]
    · cases h
  | cons c t ih =>
    simp only [readNum] at h
    rw [List.cons_append, readNum]
    cases hs : q.step c with
    | none =>
      rw [hs] at h
      simp only at h
      split at h
      · cases h
      · cases h
    | some q' =>
      rw [hs] at h
      replace h : (readNum q' t).map (fun p => (c :: p.1, p.2)) = some (c :: t, []) := h
      cases hr : readNum q' t with
      | none =>
        rw [hr] at h
        cases h
      | some p =>
        obtain ⟨u, l⟩ := p
        rw [hr] at h
        obtain ⟨hu, rfl⟩ := Prod.mk.inj (Option.some.inj h)
        obtain rfl := (List.cons.inj hu).2
        show Option.map _ (readNum q' (u ++ rest)) = _
        rw [ih hr]
        rfl

/-! ### Values are read back -/

/-- The keys are in order. -/
def Sorted {ν : Type} (l : List (String × ν)) : Prop := l.Pairwise fun p q => p.1 < q.1

/-- A value with at most `d` arrays and objects inside one another, as a parser gives it. -/
inductive Plain : ℕ → Json → Prop
  | null {d : ℕ} : Plain d .null
  | bool {d : ℕ} {b : Bool} : Plain d (.bool b)
  | num {d : ℕ} {t : String} : IsNumber t → Plain d (.num t)
  | str {d : ℕ} {s : String} : Plain d (.str s)
  | arr {d : ℕ} {js : List Json} : (∀ j ∈ js, Plain d j) → Plain (d + 1) (.arr js)
  | obj {d : ℕ} {ps : List (String × Json)} : Sorted ps → (∀ p ∈ ps, Plain d p.2) → Plain (d + 1) (.obj ps)

theorem object_sorted {ps : List (String × Json)} (h : Sorted ps) : object ps = .obj ps := by
  have hfold : ∀ (ps acc : List (String × Json)), Sorted (acc ++ ps) →
      ps.foldl (fun l p => insertKey p.1 p.2 l) acc = acc ++ ps := by
    intro ps
    induction ps with
    | nil => exact fun acc _ => (List.append_nil acc).symm
    | cons p ps ih =>
      intro acc hacc
      have hlast : insertKey p.1 p.2 acc = acc ++ [p] := by
        have hlt : ∀ q ∈ acc, q.1 < p.1 := fun q hq => (List.pairwise_append.mp hacc).2.2 q hq p List.mem_cons_self
        clear hacc ih
        induction acc with
        | nil => rfl
        | cons q acc ih =>
          obtain ⟨k, v⟩ := q
          rw [insertKey_gt (hlt (k, v) List.mem_cons_self), ih fun q hq => hlt q (List.mem_cons_of_mem _ hq),
            List.cons_append]
      rw [List.foldl_cons, hlast, ih, List.append_assoc, List.singleton_append]
      rwa [List.append_assoc, List.singleton_append]
  exact congrArg Json.obj (hfold ps [] h)

theorem number_head {t : String} (h : IsNumber t) :
    ∃ c cs, t.toList = c :: cs ∧ (c = '-' ∨ c.isDigit = true) := by
  unfold IsNumber at h
  cases ht : t.toList with
  | nil =>
    rw [ht] at h
    cases h
  | cons c cs =>
    refine ⟨c, cs, rfl, ?_⟩
    by_contra hno
    rw [not_or] at hno
    have hdig : c.isDigit = false := Bool.eq_false_iff.mpr hno.2
    have hzero : c ≠ '0' := by
      rintro rfl
      cases hdig
    have hstep : NumState.step .start c = none := by simp [NumState.step, hno.1, hzero, hdig]
    rw [ht, readNum, hstep] at h
    cases h

theorem digit_not_white {c : Char} (h : c.isDigit = true) : Text.isWhitespace c = false := by
  rw [Char.isDigit, Bool.and_eq_true, decide_eq_true_eq, decide_eq_true_eq] at h
  have hlow : (48 : UInt32).toNat ≤ c.val.toNat := UInt32.le_iff_toNat_le.mp h.1
  have hhigh : c.val.toNat ≤ (57 : UInt32).toNat := UInt32.le_iff_toNat_le.mp h.2
  have h48 : (48 : UInt32).toNat = 48 := rfl
  have h57 : (57 : UInt32).toNat = 57 := rfl
  have hn : c.toNat = c.val.toNat := rfl
  simp only [Text.isWhitespace, Bool.or_eq_false_iff, Bool.and_eq_false_iff, decide_eq_false_iff_not, beq_eq_false_iff_ne]
  omega

/-- What a printed value begins with. -/
def Head (c : Char) : Prop := isSpace c = false ∧ c ≠ ']' ∧ c ≠ '}'

theorem head_of_number {c : Char} (h : c = '-' ∨ c.isDigit = true) :
    Head c ∧ c ≠ '"' ∧ c ≠ 'n' ∧ c ≠ 't' ∧ c ≠ 'f' ∧ c ≠ '[' ∧ c ≠ '{' := by
  have hne : ∀ d : Char, d ≠ '-' → d.isDigit = false → c ≠ d := by
    rintro d hminus hdig rfl
    rcases h with h | h
    · exact hminus h
    · rw [hdig] at h
      cases h
  refine ⟨⟨?_, hne _ (by decide) rfl, hne _ (by decide) rfl⟩, hne _ (by decide) rfl, hne _ (by decide) rfl,
    hne _ (by decide) rfl, hne _ (by decide) rfl, hne _ (by decide) rfl, hne _ (by decide) rfl⟩
  simp [isSpace, hne ' ' (by decide) rfl, hne '\n' (by decide) rfl, hne '\t' (by decide) rfl, hne '\r' (by decide) rfl]

theorem print_head {d : ℕ} {j : Json} (h : Plain d j) : ∃ c cs, print j = c :: cs ∧ Head c := by
  cases h with
  | null => exact ⟨'n', _, by rw [print]; rfl, by decide, by decide, by decide⟩
  | @bool d b => cases b with
    | true => exact ⟨'t', _, by rw [print]; rfl, by decide, by decide, by decide⟩
    | false => exact ⟨'f', _, by rw [print]; rfl, by decide, by decide, by decide⟩
  | num ht =>
    obtain ⟨c, cs, hcons, hc⟩ := number_head ht
    exact ⟨c, cs, by rw [print, hcons], (head_of_number hc).1⟩
  | str => exact ⟨'"', _, by rw [print, quote], by decide, by decide, by decide⟩
  | @arr d js _ => cases js with
    | nil => exact ⟨'[', _, by rw [print], by decide, by decide, by decide⟩
    | cons j js => exact ⟨'[', _, by rw [print], by decide, by decide, by decide⟩
  | @obj d ps _ _ => cases ps with
    | nil => exact ⟨'{', _, by rw [print], by decide, by decide, by decide⟩
    | cons p ps => exact ⟨'{', _, by rw [print], by decide, by decide, by decide⟩

theorem print_head_white {d : ℕ} {j : Json} (h : Plain d j) :
    ∃ c cs, print j = c :: cs ∧ Text.isWhitespace c = false := by
  cases h with
  | null => exact ⟨'n', _, by rw [print]; rfl, by decide⟩
  | @bool d b => cases b with
    | true => exact ⟨'t', _, by rw [print]; rfl, by decide⟩
    | false => exact ⟨'f', _, by rw [print]; rfl, by decide⟩
  | num ht =>
    obtain ⟨c, cs, hcons, hc⟩ := number_head ht
    refine ⟨c, cs, by rw [print, hcons], ?_⟩
    rcases hc with rfl | hc
    · decide
    · exact digit_not_white hc
  | str => exact ⟨'"', _, by rw [print, quote], by decide⟩
  | @arr d js _ => cases js with
    | nil => exact ⟨'[', _, by rw [print], by decide⟩
    | cons j js => exact ⟨'[', _, by rw [print], by decide⟩
  | @obj d ps _ _ => cases ps with
    | nil => exact ⟨'{', _, by rw [print], by decide⟩
    | cons p ps => exact ⟨'{', _, by rw [print], by decide⟩

theorem skip_head {c : Char} {cs : List Char} (h : isSpace c = false) : skip (c :: cs) = c :: cs := by
  rw [skip, List.dropWhile_cons, h]
  rfl

/-- No white space comes before a printed value. -/
theorem skip_print {d : ℕ} {j : Json} (h : Plain d j) (rest : List Char) :
    skip (print j ++ rest) = print j ++ rest := by
  obtain ⟨c, cs, hp, hc⟩ := print_head h
  rw [hp, List.cons_append, skip_head hc.1]

theorem readScalar_quote (s : String) (rest : List Char) :
    readScalar (quote s ++ rest) = some (.str s, rest) := by
  have hcat : quote s ++ rest = '"' :: (s.toList.flatMap escape ++ '"' :: rest) := by simp [quote]
  rw [hcat, readScalar, if_pos rfl, readStr_quote s rest (Nat.lt_succ_self _)]
  show some (Json.str (String.ofList s.toList), rest) = _
  rw [String.ofList_toList]

theorem readScalar_num {t : String} {rest : List Char} (h : IsNumber t) (hrest : Ends rest) :
    readScalar (t.toList ++ rest) = some (.num t, rest) := by
  obtain ⟨c, cs, hcons, hc⟩ := number_head h
  obtain ⟨-, hq, hn, ht, hf, -, -⟩ := head_of_number hc
  have hread := readNum_append h hrest
  rw [hcons, List.cons_append] at hread ⊢
  rw [readScalar, if_neg hq, if_neg hn, if_neg ht, if_neg hf, hread, ← hcons]
  show some (Json.num (String.ofList t.toList), rest) = _
  rw [String.ofList_toList]

/-- Reading a value that is no array and no object does not depend on the depth. -/
theorem readValue_scalar {d : ℕ} {c : Char} {cs : List Char} (hs : isSpace c = false) (hl : c ≠ '[') (hb : c ≠ '{') :
    readValue d (c :: cs) = readScalar (c :: cs) := by
  cases d with
  | zero => rw [readValue, skip_head hs]
  | succ d =>
    rw [readValue, skip_head hs]
    show (if c = '[' then _ else if c = '{' then _ else readScalar (c :: cs)) = _
    rw [if_neg hl, if_neg hb]

section Containers

variable {value : List Char → Option (Json × List Char)}

theorem ends_printItems (js : List Json) (rest : List Char) : Ends (printItems js ++ rest) := by
  cases js <;> (rw [printItems]; exact ends_cons (by decide))

theorem ends_printFields (ps : List (String × Json)) (rest : List Char) : Ends (printFields ps ++ rest) := by
  cases ps <;> (rw [printFields]; exact ends_cons (by decide))

theorem length_printItems (js : List Json) : js.length + 1 ≤ (printItems js).length := by
  induction js with
  | nil => exact Nat.le_refl 1
  | cons j js ih =>
    rw [printItems, List.length_cons, List.length_cons, List.length_append]
    omega

theorem length_printFields (ps : List (String × Json)) : ps.length + 1 ≤ (printFields ps).length := by
  induction ps with
  | nil => exact Nat.le_refl 1
  | cons p ps ih =>
    rw [printFields, List.length_cons, List.length_cons, List.length_append]
    omega

/-- What is read of a value is what was printed. -/
def Reads (value : List Char → Option (Json × List Char)) (j : Json) : Prop :=
  ∀ rest, Ends rest → value (print j ++ rest) = some (j, rest)

theorem readItems_print {j : Json} {js : List Json} (h : ∀ i ∈ j :: js, Reads value i) {k : ℕ} (hk : js.length < k)
    (rest : List Char) : readItems value k (print j ++ (printItems js ++ rest)) = some (j :: js, rest) := by
  induction js generalizing j k with
  | nil =>
    obtain ⟨k, rfl⟩ : ∃ m, k = m + 1 := ⟨k - 1, by simp at hk; omega⟩
    rw [readItems, h j List.mem_cons_self _ (ends_printItems [] rest), printItems]
    rfl
  | cons i js ih =>
    obtain ⟨k, rfl⟩ : ∃ m, k = m + 1 := ⟨k - 1, by simp at hk; omega⟩
    have hk' : js.length < k := by simpa using hk
    have hrest := ih (fun i hi => h i (List.mem_cons_of_mem _ hi)) hk'
    rw [readItems, h j List.mem_cons_self _ (ends_printItems (i :: js) rest), printItems, List.cons_append,
      List.append_assoc]
    show Option.map _ (readItems value k (print i ++ (printItems js ++ rest))) = _
    rw [hrest]
    rfl

theorem readField_print {p : String × Json} (h : Reads value p.2) {rest : List Char} (hrest : Ends rest) :
    readField value (printField p ++ rest) = some (p, rest) := by
  obtain ⟨k, v⟩ := p
  have hcat : printField (k, v) ++ rest = '"' :: (k.toList.flatMap escape ++ '"' :: (':' :: (print v ++ rest))) := by
    simp [printField, quote]
  rw [hcat, readField, skip_head (by decide)]
  show (match readStr _ (k.toList.flatMap escape ++ '"' :: (':' :: (print v ++ rest))) with
    | none => none
    | some (k, rest) => _) = _
  rw [readStr_quote k _ (Nat.lt_succ_self _)]
  show (match skip (':' :: (print v ++ rest)) with
    | [] => none
    | c :: rest => _) = _
  rw [skip_head (by decide)]
  show Option.map _ (value (print v ++ rest)) = _
  rw [h rest hrest]
  show some ((String.ofList k.toList, v), rest) = _
  rw [String.ofList_toList]

theorem readFields_print {p : String × Json} {ps : List (String × Json)} (h : ∀ q ∈ p :: ps, Reads value q.2) {k : ℕ}
    (hk : ps.length < k) (rest : List Char) :
    readFields value k (printField p ++ (printFields ps ++ rest)) = some (p :: ps, rest) := by
  induction ps generalizing p k with
  | nil =>
    obtain ⟨k, rfl⟩ : ∃ m, k = m + 1 := ⟨k - 1, by simp at hk; omega⟩
    rw [readFields, readField_print (h p List.mem_cons_self) (ends_printFields [] rest), printFields]
    rfl
  | cons q ps ih =>
    obtain ⟨k, rfl⟩ : ∃ m, k = m + 1 := ⟨k - 1, by simp at hk; omega⟩
    have hk' : ps.length < k := by simpa using hk
    have hrest := ih (fun q hq => h q (List.mem_cons_of_mem _ hq)) hk'
    rw [readFields, readField_print (h p List.mem_cons_self) (ends_printFields (q :: ps) rest), printFields,
      List.cons_append, List.append_assoc]
    show Option.map _ (readFields value k (printField q ++ (printFields ps ++ rest))) = _
    rw [hrest]
    rfl

theorem readArray_print {js : List Json} (h : ∀ i ∈ js, Reads value i) (hhead : ∀ i ∈ js, ∃ c cs, print i = c :: cs ∧ Head c)
    (rest : List Char) : ∃ cs, print (.arr js) ++ rest = '[' :: cs ∧ readArray value cs = some (.arr js, rest) := by
  cases js with
  | nil => exact ⟨']' :: rest, by rw [print]; rfl, rfl⟩
  | cons j js =>
    refine ⟨print j ++ (printItems js ++ rest), by rw [print, List.cons_append, List.append_assoc], ?_⟩
    obtain ⟨c, cs, hp, hsp, hne, -⟩ := hhead j List.mem_cons_self
    have hskip : skip (print j ++ (printItems js ++ rest)) = c :: (cs ++ (printItems js ++ rest)) := by
      rw [hp, List.cons_append, skip_head hsp]
    have hlen := length_printItems js
    have hread := readItems_print h (k := (print j ++ (printItems js ++ rest)).length + 1)
      (by rw [List.length_append, List.length_append]; omega) rest
    rw [readArray, hskip, hread]
    split
    · next he => exact absurd (List.cons.inj he).1 hne
    · rfl

theorem readObject_print {ps : List (String × Json)} (hsort : Sorted ps) (h : ∀ q ∈ ps, Reads value q.2) (rest : List Char) :
    ∃ cs, print (.obj ps) ++ rest = '{' :: cs ∧ readObject value cs = some (.obj ps, rest) := by
  cases ps with
  | nil => exact ⟨'}' :: rest, by rw [print]; rfl, rfl⟩
  | cons p ps =>
    refine ⟨printField p ++ (printFields ps ++ rest), by rw [print, List.cons_append, List.append_assoc], ?_⟩
    obtain ⟨cs, hp⟩ : ∃ cs, printField p = '"' :: cs := ⟨_, by rw [printField, quote, List.cons_append]⟩
    have hskip : skip (printField p ++ (printFields ps ++ rest)) = '"' :: (cs ++ (printFields ps ++ rest)) := by
      rw [hp, List.cons_append, skip_head (by decide)]
    have hlen := length_printFields ps
    have hread := readFields_print h (k := (printField p ++ (printFields ps ++ rest)).length + 1)
      (by rw [List.length_append, List.length_append]; omega) rest
    rw [readObject, hskip, hread]
    show some (object (p :: ps), rest) = _
    rw [object_sorted hsort]

end Containers

/-- **A printed value is read back**, whatever follows that cannot belong to a number. -/
theorem readValue_print {d : ℕ} {j : Json} (h : Plain d j) : Reads (readValue d) j := by
  induction d generalizing j with
  | zero =>
    intro rest hrest
    rw [readValue, skip_print h]
    cases h with
    | null => rfl
    | @bool _ b => cases b <;> rfl
    | num ht => exact readScalar_num ht hrest
    | str => exact readScalar_quote _ rest
  | succ d ih =>
    intro rest hrest
    cases h with
    | null => rfl
    | @bool _ b => cases b <;> rfl
    | num ht =>
      obtain ⟨c, cs, hcons, hc⟩ := number_head ht
      obtain ⟨hhead, -, -, -, -, hl, hb⟩ := head_of_number hc
      have hread := readScalar_num ht hrest
      rw [print]
      rw [hcons, List.cons_append] at hread ⊢
      rw [readValue_scalar hhead.1 hl hb, hread]
    | @str _ s =>
      have hread := readScalar_quote s rest
      rw [print]
      rw [quote, List.cons_append] at hread ⊢
      rw [readValue_scalar (by decide) (by decide) (by decide), hread]
    | arr hjs =>
      obtain ⟨cs, hp, hread⟩ := readArray_print (fun i hi => ih (hjs i hi)) (fun i hi => print_head (hjs i hi)) rest
      rw [hp, readValue, skip_head (by decide)]
      exact hread
    | obj hsort hps =>
      obtain ⟨cs, hp, hread⟩ := readObject_print hsort (fun q hq => ih (hps q hq)) rest
      rw [hp, readValue, skip_head (by decide)]
      exact hread

theorem Plain.mono {d e : ℕ} {j : Json} (h : Plain d j) (hde : d ≤ e) : Plain e j := by
  induction d generalizing j e with
  | zero =>
    cases h with
    | null => exact .null
    | bool => exact .bool
    | num ht => exact .num ht
    | str => exact .str
  | succ d ih =>
    obtain ⟨e, rfl⟩ : ∃ m, e = m + 1 := ⟨e - 1, by omega⟩
    have hde' : d ≤ e := Nat.le_of_succ_le_succ hde
    cases h with
    | null => exact .null
    | bool => exact .bool
    | num ht => exact .num ht
    | str => exact .str
    | arr hjs => exact .arr fun j hj => ih (hjs j hj) hde'
    | obj hsort hps => exact .obj hsort fun p hp => ih (hps p hp) hde'

/-- **What was printed is parsed.** -/
theorem parse_print {d : ℕ} {j : Json} (h : Plain d j) (hd : d ≤ 127) : parse (print j) = some j := by
  have hread := readValue_print (h.mono hd) [] ends_nil
  rw [List.append_nil] at hread
  rw [parse, hread]
  rfl

/-! ### Objects and numbers -/

theorem sorted_insertKey {ν : Type} {k : String} {v : ν} {l : List (String × ν)} (h : Sorted l) :
    Sorted (insertKey k v l) := by
  induction l with
  | nil => exact List.pairwise_singleton _ _
  | cons p l ih =>
    obtain ⟨q, u⟩ := p
    obtain ⟨hlt, hl⟩ := List.pairwise_cons.mp h
    rcases lt_trichotomy k q with hk | rfl | hk
    · rw [insertKey_lt hk]
      refine List.pairwise_cons.mpr ⟨fun p hp => ?_, h⟩
      rcases List.mem_cons.mp hp with rfl | hp
      · exact hk
      · exact lt_trans hk (hlt p hp)
    · rw [insertKey_eq]
      exact List.pairwise_cons.mpr ⟨hlt, hl⟩
    · rw [insertKey_gt hk]
      refine List.pairwise_cons.mpr ⟨fun p hp => ?_, ih hl⟩
      rcases mem_insertKey hp with rfl | hp
      · exact hk
      · exact hlt p hp

theorem Plain.object {d : ℕ} {ps : List (String × Json)} (h : ∀ p ∈ ps, Plain d p.2) : Plain (d + 1) (object ps) := by
  have hfold : ∀ (ps acc : List (String × Json)), (∀ p ∈ ps, Plain d p.2) → Sorted acc → (∀ p ∈ acc, Plain d p.2) →
      Plain (d + 1) (.obj (ps.foldl (fun l p => insertKey p.1 p.2 l) acc)) := by
    intro ps
    induction ps with
    | nil => exact fun acc _ hsort hacc => .obj hsort hacc
    | cons p ps ih =>
      intro acc hps hsort hacc
      refine ih _ (fun q hq => hps q (List.mem_cons_of_mem _ hq)) (sorted_insertKey hsort) fun q hq => ?_
      rcases mem_insertKey hq with rfl | hq
      · exact hps _ List.mem_cons_self
      · exact hacc q hq
  exact hfold ps [] h List.Pairwise.nil fun p hp => (by cases hp)

/-- A field of an object that is built once with each key. -/
theorem get_object {ps : List (String × Json)} (h : (ps.map Prod.fst).Nodup) (k : String) :
    (object ps).get k = ps.lookup k := by
  have hfold : ∀ (ps acc : List (String × Json)), (ps.map Prod.fst).Nodup →
      (ps.foldl (fun l p => insertKey p.1 p.2 l) acc).lookup k = (ps.lookup k).or (acc.lookup k) := by
    intro ps
    induction ps with
    | nil => exact fun acc _ => rfl
    | cons p ps ih =>
      intro acc hnd
      obtain ⟨hnew, hnd⟩ := List.nodup_cons.mp hnd
      rw [List.foldl_cons, ih _ hnd, lookup_insertKey, lookup_cons_eq]
      by_cases hk : k = p.1
      · have hnone : ps.lookup k = none := by
          rw [List.lookup_eq_none_iff]
          intro q hq
          refine bne_iff_ne.mpr fun he => hnew ?_
          rw [← hk, he]
          exact List.mem_map_of_mem hq
        rw [if_pos hk, if_pos hk, hnone]
        rfl
      · rw [if_neg hk, if_neg hk]
  rw [object, get, hfold ps [] h]
  cases ps.lookup k <;> rfl

/-- A natural number. -/
def nat (n : ℕ) : Json := .num (toString n)

/-- A number other than zero has no leading zero. -/
theorem toDigits_head {n : ℕ} (hn : 0 < n) :
    ∃ c cs, Nat.toDigits 10 n = c :: cs ∧ c ≠ '0' ∧ c ≠ '-' ∧ ∀ d ∈ c :: cs, d.isDigit = true := by
  have hdig : ∀ c ∈ Nat.toDigits 10 n, c.isDigit = true := fun c hc =>
    Nat.isDigit_of_mem_toDigits (by decide) (by decide) hc
  have hlead : ∃ c cs, Nat.toDigits 10 n = c :: cs ∧ c ≠ '0' := by
    clear hdig
    induction n using Nat.strongRecOn with
    | _ n ih =>
      by_cases hlt : n < 10
      · have hne : ∀ m < 10, 0 < m → Nat.digitChar m ≠ '0' := by decide
        exact ⟨Nat.digitChar n, [], Nat.toDigits_of_lt_base hlt, hne n hlt hn⟩
      · obtain ⟨c, cs, hcons, hc⟩ := ih (n / 10) (by omega) (by omega)
        exact ⟨c, cs ++ [Nat.digitChar (n % 10)],
          by rw [Nat.toDigits_of_base_le (by decide) (Nat.le_of_not_lt hlt), hcons, List.cons_append], hc⟩
  obtain ⟨c, cs, hcons, hc⟩ := hlead
  rw [hcons] at hdig
  refine ⟨c, cs, hcons, hc, ?_, hdig⟩
  rintro rfl
  exact absurd (hdig '-' List.mem_cons_self) (by decide)

theorem isNumber_toString (n : ℕ) : IsNumber (toString n) := by
  have hlist : (toString n).toList = Nat.toDigits 10 n := by simp
  have hint : ∀ ds : List Char, (∀ c ∈ ds, c.isDigit = true) → readNum .int ds = some (ds, []) := by
    intro ds
    induction ds with
    | nil => exact fun _ => rfl
    | cons c ds ih =>
      intro h
      have hc : NumState.step .int c = some .int := by simp [NumState.step, h c List.mem_cons_self]
      rw [readNum, hc]
      show Option.map _ (readNum .int ds) = _
      rw [ih fun c hc => h c (List.mem_cons_of_mem _ hc)]
      rfl
  unfold IsNumber
  rw [hlist]
  by_cases hzero : n = 0
  · subst hzero
    decide
  · obtain ⟨c, ds, hcons, hlead, hminus, hdig⟩ := toDigits_head (Nat.pos_of_ne_zero hzero)
    have hc : NumState.step .start c = some .int := by
      simp [NumState.step, hlead, hminus, hdig c List.mem_cons_self]
    rw [hcons, readNum, hc]
    show Option.map _ (readNum .int ds) = _
    rw [hint ds fun c hc => hdig c (List.mem_cons_of_mem _ hc)]
    rfl

/-- `Value::as_u64`. -/
def asU64 : Json → Option ℕ
  | .num t =>
    if t.toList.all Char.isDigit ∧ Nat.ofDigitChars 10 t.toList 0 < 2 ^ 64 then some (Nat.ofDigitChars 10 t.toList 0)
    else none
  | _ => none

/-- `Value::as_bool`. -/
def asBool : Json → Option Bool
  | .bool b => some b
  | _ => none

theorem asU64_nat (n : ℕ) : (nat n).asU64 = if n < 2 ^ 64 then some n else none := by
  have hlist : (toString n).toList = Nat.toDigits 10 n := by simp
  have hall : (Nat.toDigits 10 n).all Char.isDigit = true := List.all_eq_true.mpr fun c hc =>
    Nat.isDigit_of_mem_toDigits (by decide) (by decide) hc
  rw [nat, asU64, hlist, Nat.ofDigitChars_ten_toDigits, hall]
  simp

/-! ### The characters of a printed value -/

theorem step_printable {q q' : NumState} {c : Char} (h : q.step c = some q') :
    c.isDigit = true ∨ c ∈ ['-', '+', '.', 'e', 'E'] := by
  by_contra hno
  obtain ⟨hdig, hmem⟩ := not_or.mp hno
  simp only [List.mem_cons, List.not_mem_nil, or_false, not_or] at hmem
  obtain ⟨hminus, hplus, hdot, he, hE⟩ := hmem
  have hzero : c ≠ '0' := by
    rintro rfl
    exact hdig rfl
  cases q <;> simp [NumState.step, hdig, hminus, hplus, hdot, he, hE, hzero] at h

theorem readNum_printable {q : NumState} {t : List Char} (h : readNum q t = some (t, [])) :
    ∀ c ∈ t, c.isDigit = true ∨ c ∈ ['-', '+', '.', 'e', 'E'] := by
  induction t generalizing q with
  | nil => exact fun c hc => (by cases hc)
  | cons d t ih =>
    rw [readNum] at h
    cases hs : q.step d with
    | none =>
      rw [hs] at h
      simp only at h
      split at h
      · cases h
      · cases h
    | some q' =>
      rw [hs] at h
      replace h : (readNum q' t).map (fun p => (d :: p.1, p.2)) = some (d :: t, []) := h
      obtain ⟨⟨u, l⟩, hr, hu⟩ := Option.map_eq_some_iff.mp h
      obtain ⟨hut, rfl⟩ := Prod.mk.inj hu
      obtain rfl := (List.cons.inj hut).2
      intro c hc
      rcases List.mem_cons.mp hc with rfl | hc
      · exact step_printable hs
      · exact ih hr c hc

theorem printable_of_all {cs : List Char} (h : cs.all (fun c => 32 ≤ c.toNat) = true) : ∀ c ∈ cs, 32 ≤ c.toNat :=
  fun c hc => of_decide_eq_true (List.all_eq_true.mp h c hc)

theorem digit_printable {c : Char} (h : c.isDigit = true ∨ c ∈ ['-', '+', '.', 'e', 'E']) : 32 ≤ c.toNat := by
  rcases h with h | h
  · rw [Char.isDigit, Bool.and_eq_true, decide_eq_true_eq] at h
    have hle : (48 : UInt32).toNat ≤ c.val.toNat := UInt32.le_iff_toNat_le.mp h.1
    have h48 : (48 : UInt32).toNat = 48 := rfl
    show 32 ≤ c.val.toNat
    omega
  · exact printable_of_all rfl c h

theorem escape_printable {c d : Char} (h : d ∈ escape c) : 32 ≤ d.toNat := by
  have hpair : ∀ e : Char, 32 ≤ e.toNat → d ∈ ['\\', e] → 32 ≤ d.toNat := by
    intro e he hd
    simp only [List.mem_cons, List.not_mem_nil, or_false] at hd
    rcases hd with rfl | rfl
    · decide
    · exact he
  unfold escape at h
  split_ifs at h with hquote hslash hn hr ht hb hf hctl
  · exact hpair _ (by decide) h
  · exact hpair _ (by decide) h
  · exact hpair _ (by decide) h
  · exact hpair _ (by decide) h
  · exact hpair _ (by decide) h
  · exact hpair _ (by decide) h
  · exact hpair _ (by decide) h
  · have hhex : ∀ e ∈ "0123456789abcdef".toList, 32 ≤ e.toNat := printable_of_all (by decide)
    rcases List.mem_cons.mp h with rfl | h
    · decide
    · rcases List.mem_cons.mp h with rfl | h
      · decide
      · exact hhex d (Text.mem_hexDigits h)
  · rw [List.mem_singleton.mp h]
    exact Nat.le_of_not_lt hctl

theorem quote_printable {s : String} {c : Char} (h : c ∈ quote s) : 32 ≤ c.toNat := by
  have hq : 32 ≤ ('"' : Char).toNat := by decide
  unfold quote at h
  rcases List.mem_cons.mp h with rfl | h
  · exact hq
  · rcases List.mem_append.mp h with h | h
    · obtain ⟨d, -, hd⟩ := List.mem_flatMap.mp h
      exact escape_printable hd
    · rw [List.mem_singleton.mp h]
      exact hq

theorem printItems_printable {js : List Json} (h : ∀ j ∈ js, ∀ c ∈ print j, 32 ≤ c.toNat) :
    ∀ c ∈ printItems js, 32 ≤ c.toNat := by
  induction js with
  | nil =>
    intro c hc
    rw [printItems] at hc
    rw [List.mem_singleton.mp hc]
    decide
  | cons j js ih =>
    intro c hc
    rw [printItems] at hc
    rcases List.mem_cons.mp hc with rfl | hc
    · decide
    · rcases List.mem_append.mp hc with hc | hc
      · exact h j List.mem_cons_self c hc
      · exact ih (fun i hi => h i (List.mem_cons_of_mem _ hi)) c hc

theorem printField_printable {p : String × Json} (h : ∀ c ∈ print p.2, 32 ≤ c.toNat) :
    ∀ c ∈ printField p, 32 ≤ c.toNat := by
  intro c hc
  rw [printField] at hc
  rcases List.mem_append.mp hc with hc | hc
  · exact quote_printable hc
  · rcases List.mem_cons.mp hc with rfl | hc
    · decide
    · exact h c hc

theorem printFields_printable {ps : List (String × Json)} (h : ∀ p ∈ ps, ∀ c ∈ print p.2, 32 ≤ c.toNat) :
    ∀ c ∈ printFields ps, 32 ≤ c.toNat := by
  induction ps with
  | nil =>
    intro c hc
    rw [printFields] at hc
    rw [List.mem_singleton.mp hc]
    decide
  | cons p ps ih =>
    intro c hc
    rw [printFields] at hc
    rcases List.mem_cons.mp hc with rfl | hc
    · decide
    · rcases List.mem_append.mp hc with hc | hc
      · exact printField_printable (h p List.mem_cons_self) c hc
      · exact ih (fun q hq => h q (List.mem_cons_of_mem _ hq)) c hc

/-- **There is no control character in a printed value**, so no line break. -/
theorem print_printable {d : ℕ} {j : Json} (h : Plain d j) : ∀ c ∈ print j, 32 ≤ c.toNat := by
  induction d generalizing j with
  | zero =>
    cases h with
    | null => rw [print]; exact printable_of_all rfl
    | @bool _ b => cases b <;> (rw [print]; exact printable_of_all rfl)
    | num ht => rw [print]; exact fun c hc => digit_printable (readNum_printable ht c hc)
    | str => rw [print]; exact fun c hc => quote_printable hc
  | succ d ih =>
    have hopen : ∀ c : Char, c = '[' ∨ c = '{' → 32 ≤ c.toNat := by
      rintro c (rfl | rfl)
      · decide
      · decide
    cases h with
    | null => rw [print]; exact printable_of_all rfl
    | @bool _ b => cases b <;> (rw [print]; exact printable_of_all rfl)
    | num ht => rw [print]; exact fun c hc => digit_printable (readNum_printable ht c hc)
    | str => rw [print]; exact fun c hc => quote_printable hc
    | @arr _ js hjs =>
      cases js with
      | nil => rw [print]; exact printable_of_all rfl
      | cons j js =>
        intro c hc
        rw [print] at hc
        rcases List.mem_cons.mp hc with hc | hc
        · exact hopen c (.inl hc)
        · rcases List.mem_append.mp hc with hc | hc
          · exact ih (hjs j List.mem_cons_self) c hc
          · exact printItems_printable (fun i hi => ih (hjs i (List.mem_cons_of_mem _ hi))) c hc
    | @obj _ ps _ hps =>
      cases ps with
      | nil => rw [print]; exact printable_of_all rfl
      | cons p ps =>
        intro c hc
        rw [print] at hc
        rcases List.mem_cons.mp hc with hc | hc
        · exact hopen c (.inr hc)
        · rcases List.mem_append.mp hc with hc | hc
          · exact printField_printable (ih (hps p List.mem_cons_self)) c hc
          · exact printFields_printable (fun q hq => ih (hps q (List.mem_cons_of_mem _ hq))) c hc

/-! ### The ends of a printed value -/

theorem step_digit {q q' : NumState} {c : Char} (h : q.step c = some q') (hf : q'.final = true) : c.isDigit = true := by
  by_contra hdig
  have hzero : c ≠ '0' := by
    rintro rfl
    exact hdig rfl
  cases q <;> grind [NumState.step, NumState.final]

theorem readNum_last {q : NumState} {c : Char} {t : List Char} (h : readNum q (c :: t) = some (c :: t, [])) :
    ∃ l d, c :: t = l ++ [d] ∧ d.isDigit = true := by
  induction t generalizing q c with
  | nil =>
    rw [readNum] at h
    cases hs : q.step c with
    | none =>
      rw [hs] at h
      simp only at h
      split at h
      · cases h
      · cases h
    | some q' =>
      rw [hs] at h
      refine ⟨[], c, rfl, step_digit hs ?_⟩
      by_contra hf
      simp [readNum, hf] at h
  | cons e t ih =>
    rw [readNum] at h
    cases hs : q.step c with
    | none =>
      rw [hs] at h
      simp only at h
      split at h
      · cases h
      · cases h
    | some q' =>
      rw [hs] at h
      replace h : (readNum q' (e :: t)).map (fun p => (c :: p.1, p.2)) = some (c :: e :: t, []) := h
      obtain ⟨⟨u, l⟩, hr, hu⟩ := Option.map_eq_some_iff.mp h
      obtain ⟨hut, rfl⟩ := Prod.mk.inj hu
      obtain rfl := (List.cons.inj hut).2
      obtain ⟨l, d, hl, hd⟩ := ih hr
      exact ⟨c :: l, d, by rw [hl, List.cons_append], hd⟩

theorem printItems_last (js : List Json) : ∃ l, printItems js = l ++ [']'] := by
  induction js with
  | nil => exact ⟨[], by rw [printItems]; rfl⟩
  | cons j js ih =>
    obtain ⟨l, hl⟩ := ih
    exact ⟨',' :: (print j ++ l), by rw [printItems, hl]; simp⟩

theorem printFields_last (ps : List (String × Json)) : ∃ l, printFields ps = l ++ ['}'] := by
  induction ps with
  | nil => exact ⟨[], by rw [printFields]; rfl⟩
  | cons p ps ih =>
    obtain ⟨l, hl⟩ := ih
    exact ⟨',' :: (printField p ++ l), by rw [printFields, hl]; simp⟩

/-- A printed value ends in a character that is not white space. -/
theorem print_last {d : ℕ} {j : Json} (h : Plain d j) : ∃ l c, print j = l ++ [c] ∧ Text.isWhitespace c = false := by
  cases h with
  | null => exact ⟨"nul".toList, 'l', by rw [print]; rfl, by decide⟩
  | @bool _ b => cases b with
    | true => exact ⟨"tru".toList, 'e', by rw [print]; rfl, by decide⟩
    | false => exact ⟨"fals".toList, 'e', by rw [print]; rfl, by decide⟩
  | @num _ t ht =>
    obtain ⟨c, cs, hcons, -⟩ := number_head ht
    obtain ⟨l, e, hl, he⟩ := readNum_last (hcons ▸ ht : readNum .start (c :: cs) = some (c :: cs, []))
    exact ⟨l, e, by rw [print, hcons, hl], digit_not_white he⟩
  | @str _ s => exact ⟨'"' :: s.toList.flatMap escape, '"', by rw [print, quote]; rfl, by decide⟩
  | @arr _ js _ => cases js with
    | nil => exact ⟨['['], ']', by rw [print]; rfl, by decide⟩
    | cons j js =>
      obtain ⟨l, hl⟩ := printItems_last js
      exact ⟨'[' :: (print j ++ l), ']', by rw [print, hl]; simp, by decide⟩
  | @obj _ ps _ _ => cases ps with
    | nil => exact ⟨['{'], '}', by rw [print]; rfl, by decide⟩
    | cons p ps =>
      obtain ⟨l, hl⟩ := printFields_last ps
      exact ⟨'{' :: (printField p ++ l), '}', by rw [print, hl]; simp, by decide⟩

/-- A printed value and a line break: what is trimmed is the line break. -/
theorem trim_print {d : ℕ} {j : Json} (h : Plain d j) : Text.trim (print j ++ ['\n']) = print j := by
  obtain ⟨c, t, hfirst, hc⟩ := print_head_white h
  obtain ⟨l, e, hlast, he⟩ := print_last h
  exact Text.trim_line hc he ⟨t, hfirst⟩ hlast

/-! ### JSON libraries -/

/-- A library that prints and parses, as far as its callers rely on it. -/
structure Codec where
  print : Json → List Char
  parse : List Char → Except String Json
  parse_print : ∀ j, Plain 127 j → parse (print j) = .ok j
  /-- A compact print has no control character. -/
  printable : ∀ j, Plain 127 j → ∀ c ∈ print j, 32 ≤ c.toNat
  trim_print : ∀ j, Plain 127 j → Text.trim (print j ++ ['\n']) = print j

/-- RFC 8259. -/
def Codec.standard : Codec where
  print := Json.print
  parse cs := match Json.parse cs with
    | some j => .ok j
    | none => .error "invalid JSON"
  parse_print j h := by rw [Json.parse_print h (Nat.le_refl _)]
  printable _ h := print_printable h
  trim_print _ h := Json.trim_print h

end Json
