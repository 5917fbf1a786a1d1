import MemStack.Util.Json

/-!
This module contains that reading JSON is the inverse of writing it, that a value with sorted dictionaries
stays as it is when it is sorted, and JSON as `json.loads` reads it, with the entries of the dictionaries in the
order of the text.
-/

namespace Json

open JsonText

variable {F : Type}

section Strings

variable {ascii : Bool} {c : Char} {rest : List Char}

theorem hexDigit_hexChar {n : Nat} (h : n < 16) : hexDigit (hexChar n) = some n := by
  interval_cases n <;> decide

theorem readHex_hexText {n : Nat} (h : n < 0x10000)
    : readHex (((hexText n).drop 2) ++ rest) = some (n, rest) := by
  have hdigit : ∀ m, hexDigit (hexChar (m % 16)) = some (m % 16) := by
    intro m
    apply hexDigit_hexChar
    apply Nat.mod_lt _ (by decide)
  unfold hexText
  simp only [List.drop_succ_cons, List.drop_zero, List.cons_append, List.nil_append, readHex, hdigit,
    Option.bind_eq_bind, Option.bind_some, Option.pure_def, Option.some.injEq, Prod.mk.injEq, and_true]
  omega

theorem hexText_eq (n : Nat) : hexText n = '\\' :: 'u' :: (hexText n).drop 2 := by
  rfl

theorem toNat_ne_surrogate (c : Char) : c.toNat < 0xD800 ∨ 0xDFFF < c.toNat ∧ c.toNat < 0x110000 := by
  have hvalid := c.valid
  unfold UInt32.isValidChar Nat.isValidChar at hvalid
  exact hvalid

theorem readChar_hexText (h : c.toNat < 0x10000)
    : readChar (hexText c.toNat ++ rest) = some (c, rest) := by
  have hne := toNat_ne_surrogate c
  rw [hexText_eq, List.cons_append, List.cons_append]
  simp only [readChar, readEscape, if_true, readUnicode, readHex_hexText h, Option.bind_eq_bind,
    Option.bind_some]
  rw [if_neg (by omega), if_neg (by omega), Char.ofNat_toNat]
  rfl

theorem readChar_surrogates {high low : Nat} (hhigh : 0xD800 ≤ high ∧ high ≤ 0xDBFF)
    (hlow : 0xDC00 ≤ low ∧ low ≤ 0xDFFF)
    : readChar (hexText high ++ hexText low ++ rest)
        =
      some (Char.ofNat (0x10000 + (high - 0xD800) * 1024 + (low - 0xDC00)), rest) := by
  have hhigh' : high < 0x10000 := by omega
  have hlow' : low < 0x10000 := by omega
  rw [List.append_assoc, hexText_eq high, hexText_eq low]
  simp only [List.cons_append, readChar, readEscape, if_true, readUnicode, readHex_hexText hhigh',
    Option.bind_eq_bind, Option.bind_some, if_pos hhigh, readLowSurrogate, readHex_hexText hlow',
    if_pos hlow]
  rfl

theorem readChar_pair (h : 0x10000 ≤ c.toNat)
    : readChar (hexText (0xD800 + (c.toNat - 0x10000) / 1024) ++
          hexText (0xDC00 + (c.toNat - 0x10000) % 1024) ++ rest)
        =
      some (c, rest) := by
  have hvalid := toNat_ne_surrogate c
  have hsum : 0x10000 + (0xD800 + (c.toNat - 0x10000) / 1024 - 0xD800) * 1024 +
      (0xDC00 + (c.toNat - 0x10000) % 1024 - 0xDC00) = c.toNat := by
    omega
  rw [readChar_surrogates (by omega) (by omega), hsum, Char.ofNat_toNat]

theorem readChar_escape : readChar (escape ascii c ++ rest) = some (c, rest) := by
  unfold escape
  split
  . next heq =>
    rw [heq]
    rfl
  . split
    . next heq =>
      rw [heq]
      rfl
    . next hbackslash =>
      split
      . next heq =>
        rw [heq]
        rfl
      . split
        . next heq =>
          rw [heq]
          rfl
        . split
          . next heq =>
            rw [heq]
            rfl
          . split
            . next heq =>
              rw [← Char.ofNat_toNat c, heq]
              rfl
            . split
              . next heq =>
                rw [← Char.ofNat_toNat c, heq]
                rfl
              . split
                . apply readChar_hexText
                  omega
                . next hcontrol =>
                  split
                  . dsimp only
                    split
                    . next hsmall => apply readChar_hexText hsmall
                    . next hlarge => apply readChar_pair (by omega)
                  . simp [readChar, hbackslash, hcontrol]

theorem escape_eq_cons : ∃ d ds, escape ascii c = d :: ds ∧ d ≠ '"' := by
  by_cases hquote : c = '"'
  . refine ⟨'\\', ['"'], ?_, by decide⟩
    unfold escape
    rw [if_pos hquote]
  . unfold escape
    rw [if_neg hquote]
    split_ifs
    all_goals first
      | exact ⟨'\\', _, rfl, by decide⟩
      | exact ⟨c, _, rfl, hquote⟩

theorem readChars_flatMap {cs : List Char} {fuel : Nat} (h : cs.length < fuel)
    : readChars fuel (cs.flatMap (escape ascii) ++ '"' :: rest) = some (cs, rest) := by
  induction cs generalizing fuel with
  | nil =>
    rcases Nat.exists_eq_succ_of_ne_zero (Nat.ne_of_gt h) with ⟨fuel, rfl⟩
    rfl
  | cons c cs ih =>
    rw [List.length_cons] at h
    rcases Nat.exists_eq_succ_of_ne_zero (by omega : fuel ≠ 0) with ⟨fuel, rfl⟩
    have hhead : (escape ascii c ++ (cs.flatMap (escape ascii) ++ '"' :: rest)).head? ≠ some '"' := by
      rcases @escape_eq_cons ascii c with ⟨d, ds, heq, hne⟩
      rw [heq]
      simpa using hne
    rw [List.flatMap_cons, List.append_assoc, readChars, if_neg hhead]
    simp only [readChar_escape, Option.bind_eq_bind, Option.bind_some, ih (by omega : cs.length < fuel)]
    rfl

theorem length_le_flatMap (cs : List Char) : cs.length ≤ (cs.flatMap (escape ascii)).length := by
  induction cs with
  | nil => apply Nat.le_refl
  | cons c cs ih =>
    rcases @escape_eq_cons ascii c with ⟨d, ds, heq, _⟩
    rw [List.flatMap_cons, List.length_append, heq, List.length_cons, List.length_cons]
    omega

theorem readString_quote (s : String)
    : readString (s.toList.flatMap (escape ascii) ++ '"' :: rest) = some (s, rest) := by
  unfold readString
  rw [readChars_flatMap, Option.map_some, String.ofList_toList]
  rw [List.length_append, List.length_cons]
  have hle := @length_le_flatMap ascii s.toList
  omega

end Strings

section Induction

inductive IsWord : Json F → Prop where
  | null : IsWord .null
  | bool (b : Bool) : IsWord (.bool b)
  | int (n : Int) : IsWord (.int n)
  | float (x : F) : IsWord (.float x)

theorem isWord_or (j : Json F)
    : IsWord j ∨ (∃ s, j = .str s) ∨ (∃ items, j = .list items) ∨ ∃ entries, j = .dict entries := by
  cases j with
  | null => exact .inl .null
  | bool b => exact .inl (.bool b)
  | int n => exact .inl (.int n)
  | float x => exact .inl (.float x)
  | str s => exact .inr (.inl ⟨s, rfl⟩)
  | list items => exact .inr (.inr (.inl ⟨items, rfl⟩))
  | dict entries => exact .inr (.inr (.inr ⟨entries, rfl⟩))

theorem induct {P : Json F → Prop} (word : ∀ j, IsWord j → P j) (str : ∀ s, P (.str s))
    (list : ∀ items, (∀ j ∈ items, P j) → P (.list items))
    (dict : ∀ entries, (∀ e ∈ entries, P e.2) → P (.dict entries)) (j : Json F)
    : P j := by
  apply @Json.rec F P (fun items => ∀ j ∈ items, P j) (fun entries => ∀ e ∈ entries, P e.2)
    (fun e => P e.2)
  . apply word _ .null
  . intro b
    apply word _ (.bool b)
  . intro n
    apply word _ (.int n)
  . intro x
    apply word _ (.float x)
  . exact str
  . exact list
  . exact dict
  . simp
  . intro j items hj hitems
    rw [List.forall_mem_cons]
    exact ⟨hj, hitems⟩
  . simp
  . intro e entries he hentries
    rw [List.forall_mem_cons]
    exact ⟨he, hentries⟩
  . intro key value hvalue
    exact hvalue

end Induction

section Numbers

variable [PyFloat F] {rest : List Char}

def Delimited (rest : List Char) : Prop :=
  ∀ c ∈ rest.head?, ¬ isNumberChar c

theorem takeWhile_of_delimited {l : List Char} (hl : ∀ c ∈ l, isNumberChar c) (hrest : Delimited rest)
    : (l ++ rest).takeWhile isNumberChar = l ∧ (l ++ rest).dropWhile isNumberChar = rest := by
  rw [List.takeWhile_append_of_pos hl, List.dropWhile_append_of_pos hl]
  cases rest with
  | nil => simp
  | cons c rest =>
    have hc : ¬ isNumberChar c := hrest c rfl
    rw [List.takeWhile_cons_of_neg hc, List.dropWhile_cons_of_neg hc, List.append_nil]
    exact ⟨rfl, rfl⟩

theorem isNumberChar_of_isDigit {c : Char} (h : c.isDigit) : isNumberChar c := by
  simp [isNumberChar, h]

theorem mem_takeWhile_isDigit {l : List Char} {c : Char} (h : c ∈ l.takeWhile Char.isDigit)
    : c.isDigit := by
  apply List.mem_takeWhile_imp h

theorem mem_dropSign {signs l : List Char} {c : Char} (h : c ∈ l)
    : c ∈ signs ∨ c ∈ dropSign signs l := by
  cases l with
  | nil => cases h
  | cons d l =>
    rw [dropSign]
    split
    . next hsign =>
      cases List.mem_cons.mp h with
      | inl heq =>
        rw [heq]
        exact .inl hsign
      | inr hin => exact .inr hin
    . exact .inr h

theorem isNumberChar_of_isExponent {l : List Char} (h : isExponent l) : ∀ c ∈ l, isNumberChar c := by
  cases l with
  | nil => simp
  | cons e l =>
    unfold isExponent at h
    simp only [Bool.and_eq_true, Bool.or_eq_true, decide_eq_true_eq, List.all_eq_true] at h
    intro c hc
    cases List.mem_cons.mp hc with
    | inl heq =>
      rw [heq]
      rcases h.1.1 with he | he <;> simp [isNumberChar, he]
    | inr hin =>
      cases @mem_dropSign ['-', '+'] _ _ hin with
      | inl hsign =>
        simp only [List.mem_cons, List.not_mem_nil, or_false] at hsign
        rcases hsign with heq | heq <;> simp [isNumberChar, heq]
      | inr hdigit => apply isNumberChar_of_isDigit (h.2 c hdigit)

theorem isNumberChar_of_isFloatText {l : List Char} (h : isFloatText l) : ∀ c ∈ l, isNumberChar c := by
  unfold isFloatText at h
  simp only [Bool.and_eq_true] at h
  intro c hc
  cases @mem_dropSign ['-'] _ _ hc with
  | inl hsign =>
    rw [List.mem_singleton.mp hsign]
    decide
  | inr hin =>
    rw [← List.takeWhile_append_dropWhile (p := Char.isDigit) (l := dropSign ['-'] l),
      List.mem_append] at hin
    cases hin with
    | inl hwhole => apply isNumberChar_of_isDigit (mem_takeWhile_isDigit hwhole)
    | inr hrest =>
      have hexponent := h.2
      split at hexponent
      . next cs heq =>
        rw [heq] at hrest
        cases List.mem_cons.mp hrest with
        | inl hdot =>
          rw [hdot]
          decide
        | inr hin =>
          rw [← List.takeWhile_append_dropWhile (p := Char.isDigit) (l := cs), List.mem_append] at hin
          cases hin with
          | inl hfraction => apply isNumberChar_of_isDigit (mem_takeWhile_isDigit hfraction)
          | inr hafter =>
            simp only [Bool.and_eq_true, Bool.or_eq_true, decide_eq_true_eq] at hexponent
            cases hexponent.2 with
            | inl hnil =>
              rw [hnil] at hafter
              cases hafter
            | inr hexp => apply isNumberChar_of_isExponent hexp c hafter
      . apply isNumberChar_of_isExponent hexponent c hrest

theorem head_toDigits {n : Nat} (h : 0 < n) : (Nat.toDigits 10 n).head? ≠ some '0' := by
  induction n using Nat.strong_induction_on with
  | _ n ih =>
    by_cases hsmall : n < 10
    . rw [Nat.toDigits_of_lt_base hsmall]
      simp only [List.head?_cons, ne_eq, Option.some.injEq, Nat.digitChar_eq_zero]
      omega
    . rw [Nat.toDigits_of_base_le (by decide) (by omega), List.head?_append_of_ne_nil _ Nat.toDigits_ne_nil]
      apply ih <;> omega

theorem isDigit_of_mem_toDigits {n : Nat} {c : Char} (h : c ∈ Nat.toDigits 10 n) : c.isDigit := by
  apply Nat.isDigit_of_mem_toDigits (by decide) (by decide) h

theorem isWhole_toDigits (n : Nat) : isWhole (Nat.toDigits 10 n) := by
  unfold isWhole
  simp only [Bool.and_eq_true, Bool.or_eq_true, decide_eq_true_eq, List.all_eq_true]
  refine ⟨⟨Nat.toDigits_ne_nil, fun c hc => isDigit_of_mem_toDigits hc⟩, ?_⟩
  cases Nat.eq_zero_or_pos n with
  | inl hzero =>
    rw [hzero]
    exact .inl (Nat.toDigits_zero 10)
  | inr hpos => exact .inr (head_toDigits hpos)

theorem wholeOf_toDigits (n : Nat) : wholeOf (Nat.toDigits 10 n) = some n := by
  unfold wholeOf
  rw [if_pos (isWhole_toDigits n), Nat.ofDigitChars_ten_toDigits]

theorem not_isFloatText_of_digits {ds : List Char} (h : ∀ c ∈ ds, c.isDigit) {l : List Char}
    (hl : dropSign ['-'] l = ds)
    : ¬ isFloatText l := by
  unfold isFloatText
  rw [hl]
  have hdrop : ds.dropWhile Char.isDigit = [] := List.dropWhile_eq_nil_iff.mpr h
  simp [hdrop, isExponent]

theorem toDigits_eq_cons (n : Nat) : ∃ d ds, Nat.toDigits 10 n = d :: ds ∧ d.isDigit := by
  cases h : Nat.toDigits 10 n with
  | nil => exact absurd h Nat.toDigits_ne_nil
  | cons d ds =>
    refine ⟨d, ds, rfl, ?_⟩
    apply @isDigit_of_mem_toDigits n
    rw [h]
    exact List.mem_cons_self

theorem ne_of_isDigit {c d : Char} (h : c.isDigit) (hd : ¬ d.isDigit) : c ≠ d := by
  rintro rfl
  exact hd h

theorem dropSign_intText (n : Int) : ∃ m, dropSign ['-'] (intText n) = Nat.toDigits 10 m := by
  cases n with
  | ofNat n =>
    rcases toDigits_eq_cons n with ⟨d, ds, heq, hdigit⟩
    refine ⟨n, ?_⟩
    simp [intText, heq, dropSign, ne_of_isDigit hdigit (by decide : ¬ '-'.isDigit)]
  | negSucc n => exact ⟨n + 1, rfl⟩

theorem intOf_intText (n : Int) : intOf (intText n) = some n := by
  cases n with
  | ofNat n =>
    rcases toDigits_eq_cons n with ⟨d, ds, heq, hdigit⟩
    have hwhole := wholeOf_toDigits n
    have htext : intText (.ofNat n) = d :: ds := heq
    rw [heq] at hwhole
    rw [htext, intOf, if_neg (ne_of_isDigit hdigit (by decide)), hwhole]
    rfl
  | negSucc n =>
    have htext : intText (.negSucc n) = '-' :: Nat.toDigits 10 (n + 1) := rfl
    rw [htext, intOf, if_pos rfl, wholeOf_toDigits]
    rfl

theorem isNumberChar_intText (n : Int) : ∀ c ∈ intText n, isNumberChar c := by
  intro c hc
  rcases dropSign_intText n with ⟨m, hm⟩
  cases @mem_dropSign ['-'] _ _ hc with
  | inl hsign =>
    rw [List.mem_singleton.mp hsign]
    decide
  | inr hin =>
    rw [hm] at hin
    apply isNumberChar_of_isDigit (isDigit_of_mem_toDigits hin)

theorem parseNumber_intText (n : Int) (hrest : Delimited rest)
    : parseNumber (F := F) (intText n ++ rest) = some (.int n, rest) := by
  have htoken := takeWhile_of_delimited (isNumberChar_intText n) hrest
  rcases dropSign_intText n with ⟨m, hm⟩
  unfold parseNumber
  dsimp only
  rw [htoken.1, htoken.2, if_neg, intOf_intText]
  . rfl
  . apply not_isFloatText_of_digits _ hm
    intro c hc
    apply isDigit_of_mem_toDigits hc

theorem parseNumber_floatText {x : F} (h : isFloatText (PyFloat.text x)) (hrest : Delimited rest)
    : parseNumber (PyFloat.text x ++ rest) = some (.float x, rest) := by
  have htoken := takeWhile_of_delimited (isNumberChar_of_isFloatText h) hrest
  unfold parseNumber
  dsimp only
  rw [htoken.1, htoken.2, if_pos h, PyFloat.ofText_text]

end Numbers

section Words

variable [PyFloat F] {ascii : Bool} {rest : List Char}

def StartsNumber (l : List Char) : Prop :=
  ∃ d ds, d.isDigit ∧ (l = d :: ds ∨ l = '-' :: d :: ds)

theorem startsNumber_of_dropSign {l ds : List Char} {d : Char} (hd : d.isDigit)
    (h : dropSign ['-'] l = d :: ds)
    : StartsNumber l := by
  cases l with
  | nil => cases h
  | cons c l =>
    rw [dropSign] at h
    split at h
    . next hsign =>
      rw [List.mem_singleton.mp hsign, h]
      exact ⟨d, ds, hd, .inr rfl⟩
    . rw [h]
      exact ⟨d, ds, hd, .inl rfl⟩

theorem startsNumber_intText (n : Int) : StartsNumber (intText n) := by
  rcases dropSign_intText n with ⟨m, hm⟩
  rcases toDigits_eq_cons m with ⟨d, ds, heq, hdigit⟩
  apply startsNumber_of_dropSign hdigit
  rw [hm, heq]

theorem startsNumber_of_isFloatText {l : List Char} (h : isFloatText l) : StartsNumber l := by
  unfold isFloatText isWhole at h
  simp only [Bool.and_eq_true, decide_eq_true_eq] at h
  have hne := h.1.1.1
  cases hl : dropSign ['-'] l with
  | nil =>
    rw [hl] at hne
    exact absurd rfl hne
  | cons d ds =>
    by_cases hd : d.isDigit
    . apply startsNumber_of_dropSign hd hl
    . rw [hl, List.takeWhile_cons_of_neg hd] at hne
      exact absurd rfl hne

theorem find_words_of_startsNumber {l : List Char} (h : StartsNumber l)
    : (words (F := F)).find? (·.1.isPrefixOf (l ++ rest)) = none := by
  rcases h with ⟨d, ds, hd, hl⟩
  have hne : ∀ c, ¬ c.isDigit → c ≠ d := by
    intro c hc
    apply (ne_of_isDigit hd hc).symm
  have hn := hne 'n' (by decide)
  have ht := hne 't' (by decide)
  have hf := hne 'f' (by decide)
  have hN := hne 'N' (by decide)
  have hI := hne 'I' (by decide)
  have hsign := hne '-' (by decide)
  cases hl with
  | inl heq => simp [words, constants, heq, List.isPrefixOf, hn, ht, hf, hN, hI, hsign]
  | inr heq => simp [words, constants, heq, List.isPrefixOf, hI]

theorem parseWord_of_startsNumber {l : List Char} (h : StartsNumber l)
    : parseWord (F := F) (l ++ rest) = parseNumber (l ++ rest) := by
  unfold parseWord
  rw [find_words_of_startsNumber h]

theorem parseWord_constant {s : String} (h : s ∈ constants)
    : parseWord (F := F) (s.toList ++ rest) = some (.float (PyFloat.ofText s.toList), rest) := by
  simp only [constants, List.mem_cons, List.not_mem_nil, or_false] at h
  rcases h with rfl | rfl | rfl <;> rfl

theorem parseWord_print {j : Json F} (hj : IsWord j) (hrest : Delimited rest)
    : parseWord (print ascii j ++ rest) = some (j, rest) := by
  cases hj with
  | null => rfl
  | bool b => cases b <;> rfl
  | int n =>
    rw [print, parseWord_of_startsNumber (startsNumber_intText n), parseNumber_intText n hrest]
  | float x =>
    rw [print]
    cases PyFloat.wellFormed x with
    | inl hconstant =>
      rcases hconstant with ⟨s, hs, htext⟩
      rw [htext, parseWord_constant hs, ← htext, PyFloat.ofText_text]
    | inr hfloat =>
      rw [parseWord_of_startsNumber (startsNumber_of_isFloatText hfloat), parseNumber_floatText hfloat hrest]

theorem print_eq_cons_of_isWord {j : Json F} (hj : IsWord j)
    : ∃ c cs, print ascii j = c :: cs ∧ c ∉ [' ', '\t', '\n', '\r', '"', '[', ']', '\x7b', ','] := by
  have hnumber : ∀ l, StartsNumber l →
      ∃ c cs, l = c :: cs ∧ c ∉ [' ', '\t', '\n', '\r', '"', '[', ']', '\x7b', ','] := by
    intro l hl
    rcases hl with ⟨d, ds, hd, heq | heq⟩
    . refine ⟨d, ds, heq, ?_⟩
      intro hmem
      simp only [List.mem_cons, List.not_mem_nil, or_false] at hmem
      rcases hmem with rfl | rfl | rfl | rfl | rfl | rfl | rfl | rfl | rfl <;> exact absurd hd (by decide)
    . exact ⟨'-', d :: ds, heq, by decide⟩
  cases hj with
  | null => exact ⟨_, _, rfl, by decide⟩
  | bool b => cases b <;> exact ⟨_, _, rfl, by decide⟩
  | int n => apply hnumber _ (startsNumber_intText n)
  | float x =>
    cases PyFloat.wellFormed x with
    | inl hconstant =>
      rcases hconstant with ⟨s, hs, htext⟩
      rw [print, htext]
      simp only [constants, List.mem_cons, List.not_mem_nil, or_false] at hs
      rcases hs with rfl | rfl | rfl <;> exact ⟨_, _, rfl, by decide⟩
    | inr hfloat => apply hnumber _ (startsNumber_of_isFloatText hfloat)

theorem print_eq_cons (j : Json F)
    : ∃ c cs, print ascii j = c :: cs ∧ c ∉ [' ', '\t', '\n', '\r', ']', ','] := by
  rcases isWord_or j with hword | ⟨s, rfl⟩ | ⟨items, rfl⟩ | ⟨entries, rfl⟩
  . rcases @print_eq_cons_of_isWord _ _ ascii _ hword with ⟨c, cs, heq, hmem⟩
    refine ⟨c, cs, heq, ?_⟩
    intro hin
    apply hmem
    simp only [List.mem_cons, List.not_mem_nil, or_false] at hin ⊢
    rcases hin with h | h | h | h | h | h <;> simp [h]
  . exact ⟨'"', _, rfl, by decide⟩
  . exact ⟨'[', _, rfl, by decide⟩
  . exact ⟨'\x7b', _, rfl, by decide⟩

end Words

section Values

variable [PyFloat F] {ascii : Bool} {rest : List Char}

theorem skipSpaces_of_cons {c : Char} {cs : List Char} (h : ¬ isSpace c)
    : skipSpaces (c :: cs) = c :: cs := by
  unfold skipSpaces
  rw [List.dropWhile_cons_of_neg h]

theorem not_isSpace {c : Char} (h : c ∉ [' ', '\t', '\n', '\r', ']', ',']) : ¬ isSpace c := by
  simp only [List.mem_cons, List.not_mem_nil, or_false, not_or] at h
  simp [isSpace, h]

def Reads (ascii : Bool) (j : Json F) : Prop :=
  ∀ fuel rest, (print ascii j).length ≤ fuel → Delimited rest →
    parseValue fuel (print ascii j ++ rest) = some (j, rest)

theorem reads_of_isWord {j : Json F} (hj : IsWord j) : Reads ascii j := by
  intro fuel rest hfuel hrest
  rcases @print_eq_cons_of_isWord _ _ ascii _ hj with ⟨c, cs, heq, hmem⟩
  have hword := @parseWord_print F _ ascii rest j hj hrest
  rw [heq] at hword hfuel ⊢
  rw [List.length_cons] at hfuel
  rcases Nat.exists_eq_succ_of_ne_zero (by omega : fuel ≠ 0) with ⟨fuel, rfl⟩
  simp only [List.mem_cons, List.not_mem_nil, or_false, not_or] at hmem
  rw [List.cons_append] at hword ⊢
  rw [parseValue, if_neg hmem.2.2.2.2.1, if_neg hmem.2.2.2.2.2.1, if_neg hmem.2.2.2.2.2.2.2.1, hword]

theorem reads_str (s : String) : Reads (F := F) ascii (.str s) := by
  intro fuel rest hfuel _
  rw [print, quote, List.length_cons] at hfuel
  rcases Nat.exists_eq_succ_of_ne_zero (by omega : fuel ≠ 0) with ⟨fuel, rfl⟩
  rw [print, quote, List.cons_append, List.append_assoc, List.singleton_append, parseValue, if_pos rfl,
    readString_quote]
  rfl

theorem close_bracket {bracket : Char} (h : ¬ isSpace bracket)
    : close bracket (bracket :: rest) = some (true, rest) := by
  unfold close
  rw [skipSpaces_of_cons h]
  simp

theorem close_comma {bracket c : Char} {cs : List Char} (hbracket : ',' ≠ bracket) (hc : ¬ isSpace c)
    : close bracket (',' :: ' ' :: c :: cs) = some (false, c :: cs) := by
  have hskip : skipSpaces (' ' :: c :: cs) = c :: cs := by
    unfold skipSpaces
    rw [List.dropWhile_cons_of_pos (by decide), List.dropWhile_cons_of_neg hc]
  unfold close
  rw [skipSpaces_of_cons (by decide)]
  simp [hbracket, hskip]

theorem delimited_cons {c : Char} (h : ¬ isNumberChar c) : Delimited (c :: rest) := by
  intro d hd
  cases hd
  exact h

theorem printItems_eq_cons {item : Json F} {items : List (Json F)}
    : ∃ c cs, printItems ascii (item :: items) = c :: cs ∧ c ∉ [' ', '\t', '\n', '\r', ']', ','] := by
  rcases @print_eq_cons F _ ascii item with ⟨c, cs, heq, hmem⟩
  rw [printItems, heq]
  exact ⟨c, _, rfl, hmem⟩

theorem parseItems_printItems {item : Json F} {items : List (Json F)}
    (h : ∀ j ∈ item :: items, Reads ascii j) {fuel : Nat}
    (hfuel : (printItems ascii (item :: items)).length < fuel)
    : parseItems fuel (printItems ascii (item :: items) ++ ']' :: rest) = some (item :: items, rest) := by
  induction items generalizing item fuel with
  | nil =>
    rw [printItems] at hfuel ⊢
    simp only [List.isEmpty_nil, if_true, List.append_nil] at hfuel ⊢
    rcases Nat.exists_eq_succ_of_ne_zero (by omega : fuel ≠ 0) with ⟨fuel, rfl⟩
    have hitem := h item (by simp) fuel (']' :: rest) (by omega) (delimited_cons (by decide))
    rw [parseItems, hitem]
    simp only [Option.bind_eq_bind, Option.bind_some, close_bracket (by decide : ¬ isSpace ']')]
    rfl
  | cons next items ih =>
    rw [printItems] at hfuel ⊢
    simp only [List.isEmpty_cons, Bool.false_eq_true, if_false, List.length_append, List.length_cons]
      at hfuel
    simp only [List.isEmpty_cons, Bool.false_eq_true, if_false, List.append_assoc, List.cons_append]
    rcases Nat.exists_eq_succ_of_ne_zero (by omega : fuel ≠ 0) with ⟨fuel, rfl⟩
    have hitem := h item (by simp) fuel
      (',' :: ' ' :: (printItems ascii (next :: items) ++ ']' :: rest)) (by omega)
      (delimited_cons (by decide))
    have hrest := @ih next (fun j hj => h j (List.mem_cons_of_mem _ hj)) fuel (by omega)
    rcases @printItems_eq_cons F _ ascii next items with ⟨c, cs, heq, hmem⟩
    rw [heq, List.cons_append] at hitem hrest ⊢
    rw [parseItems, hitem]
    simp only [Option.bind_eq_bind, Option.bind_some,
      close_comma (by decide : ',' ≠ ']') (not_isSpace hmem), Bool.false_eq_true, if_false, hrest]
    rfl

theorem reads_list {items : List (Json F)} (h : ∀ j ∈ items, Reads ascii j)
    : Reads ascii (.list items) := by
  intro fuel rest hfuel _
  rw [print] at hfuel ⊢
  rw [List.length_cons, List.length_append, List.length_singleton] at hfuel
  rcases Nat.exists_eq_succ_of_ne_zero (by omega : fuel ≠ 0) with ⟨fuel, rfl⟩
  rw [List.cons_append, List.append_assoc, List.singleton_append, parseValue, if_neg (by decide), if_pos rfl]
  cases items with
  | nil => rfl
  | cons item items =>
    have hitems := @parseItems_printItems F _ ascii rest item items h fuel (by omega)
    rcases @printItems_eq_cons F _ ascii item items with ⟨c, cs, heq, hmem⟩
    rw [heq, List.cons_append] at hitems ⊢
    dsimp only
    rw [skipSpaces_of_cons (not_isSpace hmem), if_neg, hitems]
    . rfl
    . simp only [List.mem_cons, List.not_mem_nil, or_false, not_or] at hmem
      simp [hmem]

theorem readKey_quote {key : String} {c : Char} {cs : List Char} (hc : ¬ isSpace c)
    : readKey (quote ascii key ++ ':' :: ' ' :: c :: cs) = some (key, c :: cs) := by
  have hskip : skipSpaces (' ' :: c :: cs) = c :: cs := by
    unfold skipSpaces
    rw [List.dropWhile_cons_of_pos (by decide), List.dropWhile_cons_of_neg hc]
  rw [quote, List.cons_append, List.append_assoc, List.singleton_append, readKey, if_pos rfl,
    readString_quote]
  simp only [Option.bind_eq_bind, Option.bind_some, skipSpaces_of_cons (by decide : ¬ isSpace ':'), hskip]
  rfl

theorem printEntries_eq_cons {entry : String × Json F} {entries : List (String × Json F)}
    : ∃ cs, printEntries ascii (entry :: entries) = '"' :: cs := by
  rw [printEntries, printEntry, quote]
  exact ⟨_, rfl⟩

theorem parseEntries_printEntries {entry : String × Json F} {entries : List (String × Json F)}
    (h : ∀ e ∈ entry :: entries, Reads ascii e.2) {fuel : Nat}
    (hfuel : (printEntries ascii (entry :: entries)).length < fuel)
    : parseEntries fuel (printEntries ascii (entry :: entries) ++ '\x7d' :: rest)
        =
      some (entry :: entries, rest) := by
  induction entries generalizing entry fuel with
  | nil =>
    rw [printEntries, printEntry] at hfuel ⊢
    simp only [List.isEmpty_nil, if_true, List.append_nil, List.length_append, List.length_cons] at hfuel
    simp only [List.isEmpty_nil, if_true, List.append_nil, List.append_assoc, List.cons_append]
    rcases Nat.exists_eq_succ_of_ne_zero (by omega : fuel ≠ 0) with ⟨fuel, rfl⟩
    have hvalue := h entry (by simp) fuel ('\x7d' :: rest) (by omega) (delimited_cons (by decide))
    rcases @print_eq_cons F _ ascii entry.2 with ⟨c, cs, heq, hmem⟩
    rw [heq, List.cons_append] at hvalue ⊢
    rw [parseEntries, readKey_quote (not_isSpace hmem)]
    simp only [Option.bind_eq_bind, Option.bind_some, hvalue,
      close_bracket (by decide : ¬ isSpace '\x7d')]
    rfl
  | cons next entries ih =>
    rw [printEntries, printEntry] at hfuel ⊢
    simp only [List.isEmpty_cons, Bool.false_eq_true, if_false, List.length_append, List.length_cons]
      at hfuel
    simp only [List.isEmpty_cons, Bool.false_eq_true, if_false, List.append_assoc, List.cons_append]
    rcases Nat.exists_eq_succ_of_ne_zero (by omega : fuel ≠ 0) with ⟨fuel, rfl⟩
    have hvalue := h entry (by simp) fuel
      (',' :: ' ' :: (printEntries ascii (next :: entries) ++ '\x7d' :: rest)) (by omega)
      (delimited_cons (by decide))
    have hrest := @ih next (fun e he => h e (List.mem_cons_of_mem _ he)) fuel (by omega)
    rcases @print_eq_cons F _ ascii entry.2 with ⟨c, cs, heq, hmem⟩
    rcases @printEntries_eq_cons F _ ascii next entries with ⟨ds, hentries⟩
    rw [hentries, List.cons_append] at hvalue hrest ⊢
    rw [heq, List.cons_append] at hvalue ⊢
    rw [parseEntries, readKey_quote (not_isSpace hmem)]
    simp only [Option.bind_eq_bind, Option.bind_some, hvalue,
      close_comma (by decide : ',' ≠ '\x7d') (by decide : ¬ isSpace '"'), Bool.false_eq_true, if_false,
      hrest]
    rfl

theorem reads_dict {entries : List (String × Json F)} (h : ∀ e ∈ entries, Reads ascii e.2)
    : Reads ascii (.dict entries) := by
  intro fuel rest hfuel _
  rw [print] at hfuel ⊢
  rw [List.length_cons, List.length_append, List.length_singleton] at hfuel
  rcases Nat.exists_eq_succ_of_ne_zero (by omega : fuel ≠ 0) with ⟨fuel, rfl⟩
  rw [List.cons_append, List.append_assoc, List.singleton_append, parseValue, if_neg (by decide),
    if_neg (by decide), if_pos rfl]
  cases entries with
  | nil => rfl
  | cons entry entries =>
    have hentries := @parseEntries_printEntries F _ ascii rest entry entries h fuel (by omega)
    rcases @printEntries_eq_cons F _ ascii entry entries with ⟨cs, heq⟩
    rw [heq, List.cons_append] at hentries ⊢
    dsimp only
    rw [skipSpaces_of_cons (by decide), if_neg, hentries]
    . rfl
    . simp

theorem reads (j : Json F) : Reads ascii j := by
  induction j using induct with
  | word j hj => apply reads_of_isWord hj
  | str s => apply reads_str
  | list items ih => apply reads_list ih
  | dict entries ih => apply reads_dict ih

theorem parse_print (j : Json F) : parse (print ascii j) = some j := by
  rcases @print_eq_cons F _ ascii j with ⟨c, cs, heq, hmem⟩
  have hreads := @reads F _ ascii j (print ascii j).length [] (Nat.le_refl _) (by simp [Delimited])
  rw [List.append_nil] at hreads
  unfold parse
  have hskip : skipSpaces (print ascii j) = print ascii j := by
    rw [heq, skipSpaces_of_cons (not_isSpace hmem)]
  rw [hskip, hreads]
  rfl

end Values

section Sorted

variable {key : String} {value : Json F} {entries : List (String × Json F)}

def SortedKeys (entries : List (String × Json F)) : Prop :=
  entries.Pairwise fun a b => a.1 < b.1

theorem mem_setSorted {e : String × Json F} (h : e ∈ setSorted key value entries)
    : e = (key, value) ∨ e ∈ entries := by
  induction entries with
  | nil =>
    rw [setSorted, List.mem_singleton] at h
    exact .inl h
  | cons entry entries ih =>
    rw [setSorted] at h
    split at h
    . rw [List.mem_cons] at h
      exact h
    . split at h
      . cases List.mem_cons.mp h with
        | inl heq => exact .inl heq
        | inr hin => exact .inr (List.mem_cons_of_mem _ hin)
      . cases List.mem_cons.mp h with
        | inl heq =>
          rw [heq]
          exact .inr List.mem_cons_self
        | inr hin => exact (ih hin).imp id (List.mem_cons_of_mem _)

theorem SortedKeys.setSorted (h : SortedKeys entries) : SortedKeys (setSorted key value entries) := by
  unfold SortedKeys at h ⊢
  induction entries with
  | nil => simp [Json.setSorted]
  | cons entry entries ih =>
    rw [List.pairwise_cons] at h
    rw [Json.setSorted]
    split
    . next hlt =>
      rw [List.pairwise_cons, List.pairwise_cons]
      refine ⟨?_, h⟩
      intro e he
      cases List.mem_cons.mp he with
      | inl heq =>
        rw [heq]
        exact hlt
      | inr hin => apply lt_trans hlt (h.1 e hin)
    . next hnot =>
      split
      . next heq =>
        rw [List.pairwise_cons]
        refine ⟨?_, h.2⟩
        intro e he
        dsimp only
        rw [heq]
        apply h.1 e he
      . next hne =>
        rw [List.pairwise_cons]
        refine ⟨?_, ih h.2⟩
        intro e he
        cases mem_setSorted he with
        | inl heq =>
          rw [heq]
          apply lt_of_le_of_ne (le_of_not_gt hnot) (Ne.symm hne)
        | inr hin => apply h.1 e hin

theorem sortEntries_concat (entries : List (String × Json F)) (e : String × Json F)
    : sortEntries (entries ++ [e]) = setSorted e.1 e.2 (sortEntries entries) := by
  simp [sortEntries]

theorem sortedKeys_sortEntries (entries : List (String × Json F)) : SortedKeys (sortEntries entries) := by
  induction entries using List.reverseRecOn with
  | nil => apply List.Pairwise.nil
  | append_singleton entries e ih =>
    rw [sortEntries_concat]
    apply ih.setSorted

theorem mem_sortEntries {e : String × Json F} (h : e ∈ sortEntries entries) : e ∈ entries := by
  induction entries using List.reverseRecOn with
  | nil => cases h
  | append_singleton entries e' ih =>
    rw [sortEntries_concat] at h
    rw [List.mem_append, List.mem_singleton]
    cases mem_setSorted h with
    | inl heq => exact .inr heq
    | inr hin => exact .inl (ih hin)

theorem setSorted_of_forall_lt (h : ∀ e ∈ entries, e.1 < key)
    : setSorted key value entries = entries ++ [(key, value)] := by
  induction entries with
  | nil => rfl
  | cons entry entries ih =>
    rw [List.forall_mem_cons] at h
    rw [setSorted, if_neg (lt_asymm h.1), if_neg (ne_of_gt h.1), ih h.2, List.cons_append]

theorem SortedKeys.sortEntries_eq (h : SortedKeys entries) : sortEntries entries = entries := by
  induction entries using List.reverseRecOn with
  | nil => rfl
  | append_singleton entries e ih =>
    unfold SortedKeys at h ih
    rw [List.pairwise_append] at h
    rw [sortEntries_concat, ih h.1, setSorted_of_forall_lt]
    intro e' he'
    apply h.2.2 e' he' e (by simp)

theorem sortedItems_eq (items : List (Json F)) : sortedItems items = items.map sorted := by
  induction items with
  | nil => rfl
  | cons item items ih => rw [sortedItems, ih, List.map_cons]

theorem sortedEntries_eq (entries : List (String × Json F))
    : sortedEntries entries = entries.map fun e => (e.1, e.2.sorted) := by
  induction entries with
  | nil => rfl
  | cons entry entries ih => rw [sortedEntries, ih, List.map_cons, sortedEntry]

theorem sorted_dict (entries : List (String × Json F))
    : (dict entries).sorted = .dict (sortEntries (entries.map fun e => (e.1, e.2.sorted))) := by
  rw [sorted, sortedEntries_eq]

theorem sorted_sorted (j : Json F) : j.sorted.sorted = j.sorted := by
  induction j using induct with
  | word j hj => cases hj <;> rfl
  | str s => rfl
  | list items ih =>
    simp only [sorted, sortedItems_eq, List.map_map, list.injEq]
    apply List.map_congr_left
    intro item hitem
    apply ih item hitem
  | dict entries ih =>
    have hfixed : (sortEntries (entries.map fun e => (e.1, e.2.sorted))).map
        (fun e => (e.1, e.2.sorted)) = sortEntries (entries.map fun e => (e.1, e.2.sorted)) := by
      nth_rewrite 2 [← List.map_id (sortEntries (entries.map fun e => (e.1, e.2.sorted)))]
      apply List.map_congr_left
      intro e he
      have hin := mem_sortEntries he
      rw [List.mem_map] at hin
      rcases hin with ⟨entry, hentry, rfl⟩
      rw [ih entry hentry]
      rfl
    rw [sorted_dict, sorted_dict, hfixed, (sortedKeys_sortEntries _).sortEntries_eq]

variable [PyFloat F]

theorem loads_dumps (ascii sortKeys : Bool) (j : Json F)
    : loads (dumps ascii sortKeys j) = some j.sorted := by
  unfold loads dumps
  rw [String.toList_ofList, parse_print, Option.map_some]
  cases sortKeys with
  | false => rfl
  | true => rw [if_pos rfl, sorted_sorted]

end Sorted

end Json

instance : PyFloat Nat where
  text n := Nat.toDigits 10 n ++ ['.', '0']
  ofText cs := Nat.ofDigitChars 10 (cs.takeWhile Char.isDigit) 0
  isZero n := n = 0
  ofText_text n := by
    have htake : (Nat.toDigits 10 n ++ ['.', '0']).takeWhile Char.isDigit = Nat.toDigits 10 n := by
      rw [List.takeWhile_append_of_pos fun c hc => Json.isDigit_of_mem_toDigits hc]
      simp
    rw [htake, Nat.ofDigitChars_ten_toDigits]
  wellFormed n := by
    right
    have hsign : JsonText.dropSign ['-'] (Nat.toDigits 10 n ++ ['.', '0']) = Nat.toDigits 10 n ++ ['.', '0'] := by
      rcases Json.toDigits_eq_cons n with ⟨d, ds, heq, hdigit⟩
      rw [heq, List.cons_append, JsonText.dropSign, if_neg]
      rw [List.mem_singleton]
      apply Json.ne_of_isDigit hdigit (by decide)
    have hdigits : ∀ c ∈ Nat.toDigits 10 n, Char.isDigit c = true := by
      intro c hc
      apply Json.isDigit_of_mem_toDigits hc
    unfold JsonText.isFloatText
    rw [hsign]
    dsimp only
    rw [List.takeWhile_append_of_pos hdigits, List.dropWhile_append_of_pos hdigits]
    simpa using Json.isWhole_toDigits n

namespace Json

variable {F : Type}

mutual

def distinct : Json F → Json F
  | .list items => .list (distinctItems items)
  | .dict entries => .dict (Dict.empty.setAll (distinctEntries entries)).entries
  | .null => .null
  | .bool b => .bool b
  | .int n => .int n
  | .float x => .float x
  | .str s => .str s

def distinctItems : List (Json F) → List (Json F)
  | [] => []
  | item :: items => distinct item :: distinctItems items

def distinctEntries : List (String × Json F) → List (String × Json F)
  | [] => []
  | entry :: entries => distinctEntry entry :: distinctEntries entries

def distinctEntry : String × Json F → String × Json F
  | (key, value) => (key, distinct value)

end

inductive Proper : Json F → Prop where
  | null : Proper .null
  | bool (b : Bool) : Proper (.bool b)
  | int (n : Int) : Proper (.int n)
  | float (x : F) : Proper (.float x)
  | str (s : String) : Proper (.str s)
  | list {items : List (Json F)} (h : ∀ j ∈ items, Proper j) : Proper (.list items)
  | dict {entries : List (String × Json F)} (nodup : (entries.map Prod.fst).Nodup) (h : ∀ e ∈ entries, Proper e.2)
    : Proper (.dict entries)

theorem distinctItems_eq (items : List (Json F)) : distinctItems items = items.map distinct := by
  induction items with
  | nil => rfl
  | cons item items ih => rw [distinctItems, ih, List.map_cons]

theorem distinctEntries_eq (entries : List (String × Json F))
    : distinctEntries entries = entries.map fun e => (e.1, e.2.distinct) := by
  induction entries with
  | nil => rfl
  | cons entry entries ih => rw [distinctEntries, ih, List.map_cons, distinctEntry]

theorem Proper.distinct_eq {j : Json F} (h : Proper j) : j.distinct = j := by
  induction h with
  | null => rfl
  | bool b => rfl
  | int n => rfl
  | float x => rfl
  | str s => rfl
  | list h ih =>
    rw [distinct, distinctItems_eq, List.map_congr_left ih, List.map_id']
  | @dict entries nodup h ih =>
    have hsame : entries.map (fun e => (e.1, e.2.distinct)) = entries := by
      nth_rewrite 2 [← List.map_id' entries]
      apply List.map_congr_left
      intro e he
      rw [ih e he]
    rw [distinct, distinctEntries_eq, hsame, Dict.entries_setAll _ nodup]
    . rfl
    . intro e _
      simp [Dict.empty, Dict.keys]

theorem proper_dict (d : Dict String (Json F)) (h : ∀ key value, d.get key = some value → Proper value)
    : Proper (.dict d.entries) := by
  apply Proper.dict d.nodup
  intro e he
  exact h e.1 e.2 (Dict.get_eq_some.mpr he)

variable [PyFloat F]

def loadsInOrder (text : String) : Option (Json F) :=
  (parse text.toList).map distinct

theorem loadsInOrder_dumps (ascii : Bool) {j : Json F} (h : Proper j)
    : loadsInOrder (dumps ascii false j) = some j := by
  unfold loadsInOrder dumps
  rw [String.toList_ofList, parse_print, Option.map_some]
  show some j.distinct = some j
  rw [h.distinct_eq]

end Json
