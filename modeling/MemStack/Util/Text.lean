import MemStack.Util.Lists

/-!
This module contains the parts of the string libraries of Rust and Python that the models use and that
behave differently in Lean, and numbers in decimal with zeros in front, whose order is that of the texts.
-/

namespace Text

-- The characters with the Unicode property `White_Space`.
def isWhitespace (c : Char) : Bool :=
  let n := c.toNat
  (0x9 ≤ n && n ≤ 0xD) || n == 0x20 || n == 0x85 || n == 0xA0 || n == 0x1680 ||
    (0x2000 ≤ n && n ≤ 0x200A) || n == 0x2028 || n == 0x2029 || n == 0x202F || n == 0x205F ||
    n == 0x3000

def trim (s : String) : String :=
  String.ofList ((s.toList.dropWhile isWhitespace).reverse.dropWhile isWhitespace).reverse

-- `str.isspace` of Python.
def isSpace (c : Char) : Bool :=
  isWhitespace c || (0x1C ≤ c.toNat && c.toNat ≤ 0x1F)

def strip (s : String) : String :=
  String.ofList ((s.toList.dropWhile isSpace).reverse.dropWhile isSpace).reverse

theorem strip_eq_self {l : List Char} (h : ∀ c ∈ l, ¬ isSpace c)
    : strip (String.ofList l) = String.ofList l := by
  have hdrop : ∀ l : List Char, (∀ c ∈ l, ¬ isSpace c) → l.dropWhile isSpace = l := by
    intro l hl
    cases l with
    | nil => rfl
    | cons c l => rw [List.dropWhile_cons_of_neg (hl c (by simp))]
  unfold strip
  rw [String.toList_ofList, hdrop l h, hdrop l.reverse (by simpa using h), List.reverse_reverse]

def lowerChar (c : Char) : List Char :=
  if c = 'İ' then ['i', '\u0307'] else if c = '\u212A' then ['k'] else [c.toLower]

-- `str.lower`, for letters of ASCII.
def lower (s : String) : String :=
  String.ofList (s.toList.flatMap lowerChar)

-- `part in s`.
def contains (s part : String) : Bool :=
  s.toList.tails.any part.toList.isPrefixOf

def take (n : Nat) (s : String) : String :=
  String.ofList (s.toList.take n)

theorem takeWhile_toDigits {n : Nat} {c : Char} (hc : c.isDigit = false) (l : List Char)
    : (Nat.toDigits 10 n ++ c :: l).takeWhile Char.isDigit = Nat.toDigits 10 n := by
  rw [List.takeWhile_append_of_pos, List.takeWhile_cons_of_neg, List.append_nil]
  . simp [hc]
  . intro d hd
    apply Nat.isDigit_of_mem_toDigits _ _ hd
    . decide
    . decide

theorem append_cons_inj {a a' b b' : List Char} {c : Char} (hb : c ∉ b) (hb' : c ∉ b')
    (h : a ++ c :: b = a' ++ c :: b')
    : a = a' ∧ b = b' := by
  have hreverse : b.reverse ++ c :: a.reverse = b'.reverse ++ c :: a'.reverse := by
    simpa using congrArg List.reverse h
  obtain ⟨hback, hfront⟩ := Lists.append_cons_inj (by simpa using hb) (by simpa using hb') hreverse
  exact ⟨List.reverse_injective hfront, List.reverse_injective hback⟩

theorem toString_inj_of_append {n m : Nat} {a b b' : String} {c : Char} (hc : c.isDigit = false)
    (h : a ++ toString n ++ String.singleton c ++ b = a ++ toString m ++ String.singleton c ++ b')
    : n = m := by
  have hlist := congrArg String.toList h
  simp only [String.toList_append, Nat.toString_eq_ofList_toDigits, String.toList_ofList, String.toList_singleton,
    List.append_assoc, List.singleton_append, List.append_cancel_left_eq] at hlist
  have hdigits := congrArg (List.takeWhile Char.isDigit) hlist
  rw [takeWhile_toDigits hc, takeWhile_toDigits hc] at hdigits
  have hread := congrArg (Nat.ofDigitChars 10 · 0) hdigits
  simpa only [Nat.ofDigitChars_ten_toDigits] using hread

end Text

namespace Digits

-- `{:0width}`.
def padded (width n : Nat) : String :=
  String.ofList ((Nat.toDigits 10 n).leftpad width '0')

def fixed : Nat → Nat → List Char
  | 0, _ => []
  | width + 1, n => fixed width (n / 10) ++ [Nat.digitChar (n % 10)]

theorem length_fixed (width n : Nat) : (fixed width n).length = width := by
  induction width generalizing n with
  | zero => rfl
  | succ width ih => simp [fixed, ih]

theorem fixed_zero (width : Nat) : fixed width 0 = List.replicate width '0' := by
  induction width with
  | zero => rfl
  | succ width ih =>
    rw [fixed, Nat.zero_div, ih, List.replicate_succ']
    rfl

theorem leftpad_toDigits {width n : Nat} (hwidth : 0 < width) (hn : n < 10 ^ width)
    : (Nat.toDigits 10 n).leftpad width '0' = fixed width n := by
  induction width generalizing n with
  | zero => cases hwidth
  | succ width ih =>
    by_cases hsmall : n < 10
    . rw [Nat.toDigits_of_lt_base hsmall, fixed, Nat.div_eq_of_lt hsmall, fixed_zero, Nat.mod_eq_of_lt hsmall]
      simp [List.leftpad]
    . have hle : 10 ≤ n := by omega
      have hfront : n / 10 < 10 ^ width := by
        rw [pow_succ] at hn
        exact Nat.div_lt_of_lt_mul (by omega)
      have hwidth' : 0 < width := by
        by_contra hzero
        have : width = 0 := by omega
        rw [this] at hfront
        omega
      rw [Nat.toDigits_of_base_le (by decide) hle, fixed, ← ih hwidth' hfront]
      simp only [List.leftpad, List.length_append, List.length_singleton, Nat.add_sub_add_right]
      rw [List.append_assoc]

theorem lt_append_of_lt {l l' : List Char} (hlength : l.length = l'.length) (h : l < l') (r r' : List Char)
    : l ++ r < l' ++ r' := by
  induction l generalizing l' with
  | nil =>
    cases l' with
    | nil => exact absurd h (List.lt_irrefl _)
    | cons => cases hlength
  | cons a l ih =>
    cases l' with
    | nil => cases hlength
    | cons a' l' =>
      rw [List.cons_append, List.cons_append]
      rw [List.cons_lt_cons_iff] at h ⊢
      rcases h with h | ⟨rfl, h⟩
      . exact .inl h
      . exact .inr ⟨rfl, ih (by simpa using hlength) h⟩

theorem digitChar_lt {m n : Nat} (h : m < n) (hn : n < 10) : Nat.digitChar m < Nat.digitChar n := by
  have hall : ∀ n < 10, ∀ m < n, Nat.digitChar m < Nat.digitChar n := by decide
  exact hall n hn m h

theorem fixed_lt {width m n : Nat} (hn : n < 10 ^ width) (h : m < n) : fixed width m < fixed width n := by
  induction width generalizing m n with
  | zero => omega
  | succ width ih =>
    rw [fixed, fixed]
    by_cases hfront : m / 10 < n / 10
    . apply lt_append_of_lt
      . rw [length_fixed, length_fixed]
      . apply ih _ hfront
        rw [pow_succ] at hn
        exact Nat.div_lt_of_lt_mul (by omega)
    . have heq : m / 10 = n / 10 := by omega
      rw [heq]
      apply List.append_left_lt
      rw [List.cons_lt_cons_iff]
      exact .inl (digitChar_lt (by omega) (Nat.mod_lt _ (by decide)))

theorem padded_lt {width m n : Nat} (hn : n < 10 ^ width) (h : m < n) : padded width m < padded width n := by
  have hwidth : 0 < width := by
    by_contra hzero
    have : width = 0 := by omega
    rw [this] at hn
    omega
  unfold padded
  rw [leftpad_toDigits hwidth hn, leftpad_toDigits hwidth (h.trans hn), String.lt_iff_toList_lt]
  rw [String.toList_ofList, String.toList_ofList]
  exact fixed_lt hn h

theorem le_length_padded (width n : Nat) : width ≤ (padded width n).toList.length := by
  simp [padded, List.leftpad]
  omega

end Digits
