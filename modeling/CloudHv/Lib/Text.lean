import Mathlib.Data.String.Basic
import Mathlib.Data.List.DropRight

/-!
# Text — words and hexadecimal numbers

`words` are the pieces between white space, as `str::split_whitespace` gives them; `unwords` puts one space between.
A list of words is read back as it was put together (`words_unwords`), and the words of a text are such a list
(`isWord_of_mem`).

`hex` is a number with a fixed number of hexadecimal digits; the digits determine it (`hexDigits_inj`).
-/

namespace Text

/-- The Unicode property White_Space. -/
def isWhitespace (c : Char) : Bool :=
  (0x09 ≤ c.toNat && c.toNat ≤ 0x0D) || c.toNat == 0x20 || c.toNat == 0x85 || c.toNat == 0xA0 || c.toNat == 0x1680 ||
    (0x2000 ≤ c.toNat && c.toNat ≤ 0x200A) || c.toNat == 0x2028 || c.toNat == 0x2029 || c.toNat == 0x202F ||
    c.toNat == 0x205F || c.toNat == 0x3000

def words (s : String) : List String :=
  ((s.toList.splitOnP isWhitespace).filter (· ≠ [])).map String.ofList

def unwords (ws : List String) : String := " ".intercalate ws

def IsWord (w : String) : Prop := w ≠ "" ∧ ∀ c ∈ w.toList, isWhitespace c = false

/-- No piece has a separator in it. -/
theorem not_sep_of_mem {α : Type} {p : α → Bool} {l w : List α} (hw : w ∈ l.splitOnP p) : ∀ c ∈ w, p c = false := by
  induction l generalizing w with
  | nil =>
    rw [List.splitOnP_nil, List.mem_singleton] at hw
    simp [hw]
  | cons x l ih =>
    rw [List.splitOnP_cons_eq_if_modifyHead] at hw
    by_cases hx : p x = true
    · rw [if_pos hx] at hw
      rcases List.mem_cons.mp hw with rfl | hw
      · simp
      · exact ih hw
    · rw [if_neg hx] at hw
      obtain ⟨u, us, hu⟩ := List.exists_cons_of_ne_nil (List.splitOnP_ne_nil p l)
      rw [hu, List.modifyHead_cons] at hw
      rcases List.mem_cons.mp hw with rfl | hw
      · intro c hc
        rcases List.mem_cons.mp hc with rfl | hc
        · simpa using hx
        · exact ih (by rw [hu]; exact List.mem_cons_self) c hc
      · exact ih (by rw [hu]; exact List.mem_cons_of_mem u hw)

theorem isWord_of_mem {s w : String} (hw : w ∈ words s) : IsWord w := by
  obtain ⟨u, hu, rfl⟩ := List.mem_map.mp hw
  obtain ⟨hmem, hne⟩ := List.mem_filter.mp hu
  have hne' : u ≠ [] := by simpa using hne
  constructor
  · intro h
    apply hne'
    have hlist : (String.ofList u).toList = [] := by rw [h]; rfl
    simpa using hlist
  · rw [String.toList_ofList]
    exact not_sep_of_mem hmem

theorem words_empty : words "" = [] := by
  simp [words]

theorem words_single {w : String} (h : IsWord w) : words w = [w] := by
  have hne : w.toList ≠ [] := by
    intro hnil
    exact h.1 (String.toList_inj.mp (by simpa using hnil))
  unfold words
  rw [List.splitOnP_eq_singleton h.2]
  simp [hne]

theorem words_append_space {s t : String} : words (s ++ " " ++ t) = words s ++ words t := by
  have hlist : (s ++ " " ++ t).toList = s.toList ++ ' ' :: t.toList := by simp
  unfold words
  rw [hlist, List.splitOnP_append_cons _ _ (by decide), List.filter_append, List.map_append]

theorem words_unwords {ws : List String} (h : ∀ w ∈ ws, IsWord w) : words (unwords ws) = ws := by
  unfold unwords
  induction ws with
  | nil => rw [String.intercalate_nil, words_empty]
  | cons w ws ih =>
    have hw : words w = [w] := words_single (h w List.mem_cons_self)
    cases ws with
    | nil => rw [String.intercalate_singleton, hw]
    | cons u ws =>
      rw [String.intercalate_cons_cons, words_append_space, hw, ih fun x hx => h x (List.mem_cons_of_mem w hx)]
      rfl

/-! ### White space at the ends -/

/-- `str::trim`. -/
def trim (cs : List Char) : List Char := (cs.dropWhile isWhitespace).rdropWhile isWhitespace

/-- A text that begins and ends with other characters, and a line break. -/
theorem trim_line {cs l : List Char} {c d : Char} (hc : isWhitespace c = false) (hd : isWhitespace d = false)
    (hfirst : ∃ t, cs = c :: t) (hlast : cs = l ++ [d]) : trim (cs ++ ['\n']) = cs := by
  obtain ⟨t, hcons⟩ := hfirst
  have hfront : (cs ++ ['\n']).dropWhile isWhitespace = cs ++ ['\n'] := by
    rw [hcons, List.cons_append, List.dropWhile_cons, hc]
    rfl
  rw [trim, hfront, List.rdropWhile_concat, if_pos (by decide), hlast, List.rdropWhile_concat,
    if_neg (by rw [hd]; decide)]

/-! ### Hexadecimal numbers -/

/-- A number in lower-case digits, filled with zeros from the left to a width. -/
def hex (w n : ℕ) : String :=
  String.ofList (List.replicate (w - (Nat.toDigits 16 n).length) '0' ++ Nat.toDigits 16 n)

/-- The last `w` hexadecimal digits of a number. -/
def hexDigits : (w : ℕ) → (n : ℕ) → List Char
  | 0, _ => []
  | w + 1, n => hexDigits w (n / 16) ++ [Nat.digitChar (n % 16)]

theorem length_hexDigits (w n : ℕ) : (hexDigits w n).length = w := by
  induction w generalizing n with
  | zero => rfl
  | succ w ih => rw [hexDigits, List.length_append, ih, List.length_singleton]

theorem hexDigits_zero (w : ℕ) : hexDigits w 0 = List.replicate w '0' := by
  induction w with
  | zero => rfl
  | succ w ih =>
    rw [hexDigits, Nat.zero_div, ih, List.replicate_succ']
    rfl

/-- A number that fits is written with its digits. -/
theorem toList_hex {w n : ℕ} (hw : 0 < w) (hn : n < 16 ^ w) : (hex w n).toList = hexDigits w n := by
  rw [hex, String.toList_ofList]
  induction w generalizing n with
  | zero => exact absurd hw (Nat.lt_irrefl 0)
  | succ w ih =>
    rw [hexDigits]
    by_cases hlt : n < 16
    · rw [Nat.toDigits_of_lt_base hlt, Nat.div_eq_of_lt hlt, Nat.mod_eq_of_lt hlt, hexDigits_zero, List.length_singleton,
        Nat.add_sub_cancel]
    · have hbase : 16 ≤ n := Nat.le_of_not_lt hlt
      have hdiv : n / 16 < 16 ^ w := by
        rw [Nat.div_lt_iff_lt_mul (by decide), ← pow_succ]
        exact hn
      have hpos : 0 < w := by
        rcases Nat.eq_zero_or_pos w with rfl | h
        · rw [pow_zero] at hdiv
          omega
        · exact h
      rw [Nat.toDigits_of_base_le (by decide) hbase, List.length_append, List.length_singleton, Nat.add_sub_add_right,
        ← List.append_assoc, ih hpos hdiv]

/-- The digits of a number are lower-case. -/
theorem mem_hexDigits {w n : ℕ} {c : Char} (h : c ∈ hexDigits w n) : c ∈ "0123456789abcdef".toList := by
  induction w generalizing n with
  | zero => cases h
  | succ w ih =>
    rw [hexDigits, List.mem_append, List.mem_singleton] at h
    rcases h with h | rfl
    · exact ih h
    · have hdigit : ∀ d < 16, Nat.digitChar d ∈ "0123456789abcdef".toList := by decide
      exact hdigit _ (Nat.mod_lt _ (by decide))

theorem digitChar_inj {m n : ℕ} (hm : m < 16) (hn : n < 16) (h : Nat.digitChar m = Nat.digitChar n) : m = n := by
  have hall : ∀ m < 16, ∀ n < 16, Nat.digitChar m = Nat.digitChar n → m = n := by decide
  exact hall m hm n hn h

theorem hexDigits_inj {w m n : ℕ} (hm : m < 16 ^ w) (hn : n < 16 ^ w) (h : hexDigits w m = hexDigits w n) : m = n := by
  induction w generalizing m n with
  | zero =>
    rw [pow_zero] at hm hn
    omega
  | succ w ih =>
    rw [hexDigits, hexDigits] at h
    obtain ⟨hhigh, hlow⟩ := List.append_inj' h rfl
    have hmod := digitChar_inj (Nat.mod_lt m (by decide)) (Nat.mod_lt n (by decide)) (List.singleton_inj.mp hlow)
    rw [pow_succ] at hm hn
    have hdiv := ih (Nat.div_lt_of_lt_mul (Nat.mul_comm _ 16 ▸ hm)) (Nat.div_lt_of_lt_mul (Nat.mul_comm _ 16 ▸ hn)) hhigh
    omega

end Text
