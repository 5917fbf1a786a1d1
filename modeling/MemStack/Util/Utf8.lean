import Mathlib

/-!
This module contains the encoding of texts in UTF-8 and its decoding, also of bytes that were cut out of the
encoding of a text. What decodes to nothing is ignored.
-/

namespace Utf8

variable {c : Char} {l rest : List Char} {bytes tail : List UInt8} {n k : Nat}

def encode (l : List Char) : List UInt8 :=
  l.flatMap String.utf8EncodeChar

def size (l : List Char) : Nat :=
  (encode l).length

def decodeChar (bytes : List UInt8) : Option Char :=
  bytes.toByteArray.utf8DecodeChar? 0

-- `bytes.decode("utf-8")`. The number is that of the bytes that belong to the last character.
def decodeFrom : Nat → List UInt8 → Option (List Char)
  | _, [] => some []
  | k + 1, _ :: bytes => decodeFrom k bytes
  | 0, b :: bytes =>
    match decodeChar (b :: bytes) with
    | some c => (decodeFrom (c.utf8Size - 1) bytes).map (c :: ·)
    | none => none

def decode (bytes : List UInt8) : Option (List Char) :=
  decodeFrom 0 bytes

-- `bytes.decode("utf-8", errors="ignore")`. Python skips all bytes of a sequence that is not complete at
-- once. One by one they are skipped as well, since none but the first of them begins a character.
def decodeIgnoreFrom : Nat → List UInt8 → List Char
  | _, [] => []
  | k + 1, _ :: bytes => decodeIgnoreFrom k bytes
  | 0, b :: bytes =>
    match decodeChar (b :: bytes) with
    | some c => c :: decodeIgnoreFrom (c.utf8Size - 1) bytes
    | none => decodeIgnoreFrom 0 bytes

def decodeIgnore (bytes : List UInt8) : List Char :=
  decodeIgnoreFrom 0 bytes

@[simp]
theorem encode_nil : encode [] = [] :=
  rfl

theorem encode_cons : encode (c :: l) = String.utf8EncodeChar c ++ encode l :=
  List.flatMap_cons

theorem encode_append : encode (l ++ rest) = encode l ++ encode rest :=
  List.flatMap_append

@[simp]
theorem size_nil : size [] = 0 :=
  rfl

theorem size_cons : size (c :: l) = c.utf8Size + size l := by
  rw [size, encode_cons, List.length_append, String.length_utf8EncodeChar]
  rfl

variable (c tail) in
theorem decodeChar_encode_append : decodeChar (String.utf8EncodeChar c ++ tail) = some c := by
  unfold decodeChar
  rw [List.toByteArray_append]
  exact ByteArray.utf8DecodeChar?_utf8EncodeChar_append

theorem exists_of_decodeChar (h : decodeChar bytes = some c) : ∃ tail, bytes = String.utf8EncodeChar c ++ tail := by
  obtain ⟨b, hb⟩ := ByteArray.exists_of_utf8DecodeChar?_eq_some h
  have hdata : b.data.toList.toByteArray = b := by
    ext1
    rw [List.data_toByteArray, Array.toArray_toList]
  refine ⟨b.data.toList, ?_⟩
  rw [← List.toByteArray_inj, hb, List.toByteArray_append, hdata]

theorem decodeIgnoreFrom_length_append : decodeIgnoreFrom bytes.length (bytes ++ tail) = decodeIgnoreFrom 0 tail := by
  induction bytes with
  | nil => rfl
  | cons b bytes ih => exact ih

theorem exists_utf8EncodeChar (c : Char) : ∃ b bytes, String.utf8EncodeChar c = b :: bytes ∧
    c.utf8Size - 1 = bytes.length := by
  obtain ⟨b, bytes, hbytes⟩ := List.exists_cons_of_ne_nil (String.utf8EncodeChar_ne_nil (c := c))
  refine ⟨b, bytes, hbytes, ?_⟩
  rw [← String.length_utf8EncodeChar, hbytes]
  rfl

theorem decodeIgnore_char_append
    : decodeIgnore (String.utf8EncodeChar c ++ tail) = c :: decodeIgnore tail := by
  obtain ⟨b, bytes, hbytes, hlength⟩ := exists_utf8EncodeChar c
  have hchar := decodeChar_encode_append c tail
  rw [hbytes, List.cons_append] at hchar ⊢
  rw [decodeIgnore, decodeIgnoreFrom, hchar]
  dsimp only
  rw [hlength, decodeIgnoreFrom_length_append]
  rfl

variable (l tail) in
theorem decodeIgnore_encode_append : decodeIgnore (encode l ++ tail) = l ++ decodeIgnore tail := by
  induction l with
  | nil => rfl
  | cons c l ih =>
    rw [encode_cons, List.append_assoc, decodeIgnore_char_append, ih]
    rfl

theorem decodeIgnore_encode : decodeIgnore (encode l) = l := by
  have h := decodeIgnore_encode_append l []
  rw [List.append_nil] at h
  rw [h]
  exact List.append_nil l

theorem not_isFirst_of_mem_drop (hk : k ≠ 0)
    : ∀ b ∈ (String.utf8EncodeChar c).drop k, ¬b.IsUTF8FirstByte := by
  intro b hb
  obtain ⟨i, hi, rfl⟩ := List.mem_iff_getElem.mp hb
  rw [List.getElem_drop, UInt8.isUTF8FirstByte_getElem_utf8EncodeChar]
  omega

theorem decodeChar_eq_none {b : UInt8} (hb : ¬b.IsUTF8FirstByte) : decodeChar (b :: bytes) = none := by
  cases h : decodeChar (b :: bytes) with
  | none => rfl
  | some c =>
    obtain ⟨tail, htail⟩ := exists_of_decodeChar h
    obtain ⟨first, rest, hchar⟩ := List.exists_cons_of_ne_nil (String.utf8EncodeChar_ne_nil (c := c))
    rw [hchar, List.cons_append, List.cons.injEq] at htail
    have hfirst := UInt8.isUTF8FirstByte_getElem_zero_utf8EncodeChar (c := c)
    simp only [hchar, List.getElem_cons_zero] at hfirst
    rw [htail.1] at hb
    exact absurd hfirst hb

variable (tail) in
theorem decodeIgnore_append_of_not_first (h : ∀ b ∈ bytes, ¬b.IsUTF8FirstByte)
    : decodeIgnore (bytes ++ tail) = decodeIgnore tail := by
  induction bytes with
  | nil => rfl
  | cons b bytes ih =>
    rw [List.forall_mem_cons] at h
    rw [List.cons_append, decodeIgnore, decodeIgnoreFrom, decodeChar_eq_none h.1]
    exact ih h.2

theorem decodeIgnore_take (h : n < c.utf8Size) : decodeIgnore ((String.utf8EncodeChar c).take n) = [] := by
  cases n with
  | zero => rfl
  | succ n =>
    obtain ⟨b, bytes, hchar⟩ := List.exists_cons_of_ne_nil (String.utf8EncodeChar_ne_nil (c := c))
    have hrest : ∀ b' ∈ bytes.take n, ¬b'.IsUTF8FirstByte := by
      intro b' hb'
      apply not_isFirst_of_mem_drop (c := c) (k := 1) (by omega)
      rw [hchar]
      exact List.mem_of_mem_take hb'
    have hnone : decodeChar (b :: bytes.take n) = none := by
      cases h' : decodeChar (b :: bytes.take n) with
      | none => rfl
      | some c' =>
        obtain ⟨tail, htail⟩ := exists_of_decodeChar h'
        -- The whole encoding of another character would begin the encoding of this one.
        have hwhole : String.utf8EncodeChar c = String.utf8EncodeChar c' ++ (tail ++ bytes.drop n) := by
          rw [← List.append_assoc, ← htail, List.cons_append, List.take_append_drop, hchar]
        have hsame : some c = some c' := by
          rw [← decodeChar_encode_append c [], List.append_nil, hwhole]
          exact decodeChar_encode_append c' _
        cases hsame
        have hlength := congrArg List.length htail
        rw [List.length_append, String.length_utf8EncodeChar, List.length_cons, List.length_take] at hlength
        omega
    have hskipped := decodeIgnore_append_of_not_first [] hrest
    rw [hchar, List.take_succ_cons, decodeIgnore, decodeIgnoreFrom, hnone]
    rw [List.append_nil] at hskipped
    exact hskipped

theorem decodeIgnoreFrom_of_decodeFrom (h : decodeFrom k bytes = some l) : decodeIgnoreFrom k bytes = l := by
  induction bytes generalizing k l with
  | nil =>
    cases k <;> exact Option.some.inj h
  | cons b bytes ih =>
    cases k with
    | succ k => exact ih h
    | zero =>
      rw [decodeFrom] at h
      rw [decodeIgnoreFrom]
      split at h
      . next c hchar =>
        obtain ⟨rest, hrest, rfl⟩ := Option.map_eq_some_iff.mp h
        rw [ih hrest]
      . cases h

structure IsLongestPrefix (n : Nat) (l kept : List Char) : Prop where
  isPrefix : kept <+: l
  size_le : size kept ≤ n
  longest : ∀ other, other <+: l → size other ≤ n → other <+: kept

structure IsLongestSuffix (n : Nat) (l kept : List Char) : Prop where
  isSuffix : kept <:+ l
  size_le : size kept ≤ n
  longest : ∀ other, other <:+ l → size other ≤ n → other <:+ kept

theorem isLongestPrefix_take : IsLongestPrefix n l (decodeIgnore ((encode l).take n)) := by
  induction l generalizing n with
  | nil =>
    rw [encode_nil, List.take_nil]
    exact ⟨List.prefix_refl [], Nat.zero_le n, fun other hother _ => hother⟩
  | cons c l ih =>
    rw [encode_cons, List.take_append, String.length_utf8EncodeChar]
    rcases Nat.lt_or_ge n c.utf8Size with hlt | hge
    . rw [Nat.sub_eq_zero_of_le (Nat.le_of_lt hlt), List.take_zero, List.append_nil, decodeIgnore_take hlt]
      refine ⟨List.nil_prefix, Nat.zero_le n, ?_⟩
      intro other hother hsize
      cases other with
      | nil => exact List.prefix_refl []
      | cons c' other =>
        obtain ⟨rfl, -⟩ := List.cons_prefix_cons.mp hother
        rw [size_cons] at hsize
        omega
    . rw [List.take_of_length_le (by rw [String.length_utf8EncodeChar]; exact hge), decodeIgnore_char_append]
      have hrest := ih (n := n - c.utf8Size)
      refine ⟨List.cons_prefix_cons.mpr ⟨rfl, hrest.isPrefix⟩, ?_, ?_⟩
      . rw [size_cons]
        have := hrest.size_le
        omega
      . intro other hother hsize
        cases other with
        | nil => exact List.nil_prefix
        | cons c' other =>
          obtain ⟨rfl, hrest'⟩ := List.cons_prefix_cons.mp hother
          rw [size_cons] at hsize
          exact List.cons_prefix_cons.mpr ⟨rfl, hrest.longest other hrest' (by omega)⟩

theorem isLongestSuffix_drop (h : n + k = size l) : IsLongestSuffix n l (decodeIgnore ((encode l).drop k)) := by
  induction l generalizing k with
  | nil =>
    rw [encode_nil, List.drop_nil]
    exact ⟨List.suffix_refl [], Nat.zero_le n, fun other hother _ => hother⟩
  | cons c l ih =>
    rcases Nat.eq_zero_or_pos k with rfl | hpos
    . rw [List.drop_zero, decodeIgnore_encode]
      exact ⟨List.suffix_refl _, le_of_eq h.symm, fun other hother _ => hother⟩
    . rw [size_cons] at h
      have hrest {kept : List Char} (hkept : IsLongestSuffix n l kept) : IsLongestSuffix n (c :: l) kept := by
        refine ⟨hkept.isSuffix.trans (List.suffix_cons c l), hkept.size_le, ?_⟩
        intro other hother hsize
        rcases List.suffix_cons_iff.mp hother with rfl | hother'
        . rw [size_cons] at hsize
          omega
        . exact hkept.longest other hother' hsize
      rw [encode_cons, List.drop_append, String.length_utf8EncodeChar]
      apply hrest
      rcases Nat.lt_or_ge k c.utf8Size with hlt | hge
      . rw [Nat.sub_eq_zero_of_le (Nat.le_of_lt hlt), List.drop_zero,
          decodeIgnore_append_of_not_first _ (not_isFirst_of_mem_drop (by omega)), decodeIgnore_encode]
        exact ⟨List.suffix_refl l, by omega, fun other hother _ => hother⟩
      . rw [List.drop_of_length_le (by rw [String.length_utf8EncodeChar]; exact hge), List.nil_append]
        exact ih (by omega)

theorem decodeFrom_length_append : decodeFrom bytes.length (bytes ++ tail) = decodeFrom 0 tail := by
  induction bytes with
  | nil => rfl
  | cons b bytes ih => exact ih

theorem decode_char_append : decode (String.utf8EncodeChar c ++ tail) = (decode tail).map (c :: ·) := by
  obtain ⟨b, bytes, hbytes, hlength⟩ := exists_utf8EncodeChar c
  have hchar := decodeChar_encode_append c tail
  rw [hbytes, List.cons_append] at hchar ⊢
  rw [decode, decodeFrom, hchar]
  dsimp only
  rw [hlength, decodeFrom_length_append]
  rfl

theorem decode_encode : decode (encode l) = some l := by
  induction l with
  | nil => rfl
  | cons c l ih =>
    rw [encode_cons, decode_char_append, ih]
    rfl

theorem mem_encode_iff {b : UInt8} (hb : String.utf8EncodeChar c = [b]) : b ∈ encode l ↔ c ∈ l := by
  have hfirst : b.IsUTF8FirstByte := by
    have h := UInt8.isUTF8FirstByte_getElem_zero_utf8EncodeChar (c := c)
    simp only [hb, List.getElem_cons_zero] at h
    exact h
  have hchar : ∀ d, b ∈ String.utf8EncodeChar d → d = c := by
    intro d hd
    obtain ⟨first, bytes, hbytes⟩ := List.exists_cons_of_ne_nil (String.utf8EncodeChar_ne_nil (c := d))
    have hdrop := not_isFirst_of_mem_drop (c := d) Nat.one_ne_zero
    rw [hbytes, List.drop_succ_cons, List.drop_zero] at hdrop
    rw [hbytes, List.mem_cons] at hd
    have heq := hd.resolve_right fun hrest => hdrop b hrest hfirst
    have hd := decodeChar_encode_append d []
    have hc := decodeChar_encode_append c bytes
    rw [hbytes, List.append_nil, ← heq] at hd
    rw [hb, List.singleton_append, hd] at hc
    exact Option.some.inj hc
  unfold encode
  rw [List.mem_flatMap]
  constructor
  . rintro ⟨d, hd, hmem⟩
    rw [← hchar d hmem]
    exact hd
  . intro hmem
    exact ⟨c, hmem, by rw [hb]; exact List.mem_singleton_self b⟩

end Utf8
