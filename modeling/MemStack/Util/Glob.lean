import Mathlib

/-!
This module contains the glob patterns of shells, with `*`, `?` and character sets, and their
matching against whole strings. The parts of a pattern for paths are matched with the names of a path one by one,
and a pattern that is matched against the whole text of a path does the same where the path has as many names as
the pattern parts.
-/

namespace Glob

/--
One member of a character set: a character or a range of characters.
-/
inductive Item where
  | one (c : Char)
  | range (lo hi : Char)
  deriving DecidableEq, Repr

inductive Token where
  | star
  | any
  | set (negated : Bool) (items : List Item)
  | lit (c : Char)
  deriving DecidableEq, Repr

def Item.contains : Item → Char → Bool
  | .one d, c => c == d
  | .range lo hi, c => decide (lo ≤ c) && decide (c ≤ hi)

def Token.accepts : Token → Char → Bool
  | .star, _ => true
  | .any, _ => true
  | .set negated items, c => negated != items.any (·.contains c)
  | .lit d, c => c == d

def readItems : List Char → List Item
  | lo :: '-' :: hi :: cs => .range lo hi :: readItems cs
  | c :: cs => .one c :: readItems cs
  | [] => []

def readSet : List Char → Token
  | '!' :: cs => .set true (readItems cs)
  | cs => .set false (readItems cs)

/--
The text of a set and what follows it. A bracket that closes the set at its very start is part of
the set.
-/
def splitSet (cs : List Char) : Option (List Char × List Char) :=
  let (negation, cs) := if cs.head? = some '!' then (['!'], cs.tail) else ([], cs)
  let (bracket, cs) := if cs.head? = some ']' then ([']'], cs.tail) else ([], cs)
  match cs.span (· ≠ ']') with
  | (_, []) => none
  | (body, _ :: rest) => some (negation ++ bracket ++ body, rest)

def translate : Nat → List Char → List Token
  | 0, _ => []
  | _, [] => []
  | fuel + 1, '*' :: cs => .star :: translate fuel cs
  | fuel + 1, '?' :: cs => .any :: translate fuel cs
  | fuel + 1, '[' :: cs =>
    match splitSet cs with
    | none => .lit '[' :: translate fuel cs
    | some (body, rest) => readSet body :: translate fuel rest
  | fuel + 1, c :: cs => .lit c :: translate fuel cs

def matchTokens : List Token → List Char → Bool
  | [], cs => cs.isEmpty
  | .star :: ts, cs => cs.tails.any (matchTokens ts)
  | _ :: _, [] => false
  | t :: ts, c :: cs => t.accepts c && matchTokens ts cs

def fnmatch (name pat : String) : Bool :=
  matchTokens (translate pat.toList.length pat.toList) name.toList

theorem fnmatch_star (name : String) : fnmatch name "*" = true := by
  have htokens : translate "*".toList.length "*".toList = [.star] := by
    rfl
  unfold fnmatch
  rw [htokens]
  unfold matchTokens
  rw [List.any_eq_true]
  exact ⟨[], by simp, rfl⟩

example : fnmatch "src/.env" "*.e?v" && fnmatch "a-1" "[!x-z][-+][0-9]" && !fnmatch "b" "[b-a]" := by
  decide

section Tokens

variable {t : Token} {ts rest : List Token} {cs : List Char}

theorem matchTokens_star
    : matchTokens (.star :: ts) cs = true ↔ ∃ u v, cs = u ++ v ∧ matchTokens ts v = true := by
  rw [matchTokens, List.any_eq_true]
  constructor
  . rintro ⟨v, hv, hmatch⟩
    obtain ⟨u, rfl⟩ := (List.mem_tails _ _).mp hv
    exact ⟨u, v, rfl, hmatch⟩
  . rintro ⟨u, v, rfl, hmatch⟩
    exact ⟨v, (List.mem_tails _ _).mpr (List.suffix_append u v), hmatch⟩

theorem matchTokens_cons (ht : t ≠ .star)
    : matchTokens (t :: ts) cs = true ↔ ∃ c v, cs = c :: v ∧ t.accepts c = true ∧ matchTokens ts v = true := by
  cases cs with
  | nil => cases t <;> simp_all [matchTokens]
  | cons c v => cases t <;> simp_all [matchTokens]

theorem matchTokens_slash
    : matchTokens (.lit '/' :: ts) cs = true ↔ ∃ w, cs = '/' :: w ∧ matchTokens ts w = true := by
  rw [matchTokens_cons (by simp)]
  constructor
  . rintro ⟨c, w, rfl, hc, hmatch⟩
    have hslash : c = '/' := by simpa [Token.accepts] using hc
    exact ⟨w, by rw [hslash], hmatch⟩
  . rintro ⟨w, rfl, hmatch⟩
    exact ⟨'/', w, rfl, by decide, hmatch⟩

theorem matchTokens_append
    : matchTokens (ts ++ rest) cs = true ↔
      ∃ u v, cs = u ++ v ∧ matchTokens ts u = true ∧ matchTokens rest v = true := by
  induction ts generalizing cs with
  | nil => simp [matchTokens]
  | cons t ts ih =>
    rw [List.cons_append]
    by_cases ht : t = .star
    . subst ht
      rw [matchTokens_star]
      simp only [ih, matchTokens_star]
      constructor
      . rintro ⟨a, _, rfl, u, v, rfl, hmatch⟩
        exact ⟨a ++ u, v, by rw [List.append_assoc], ⟨a, u, rfl, hmatch.1⟩, hmatch.2⟩
      . rintro ⟨_, v, rfl, ⟨a, u, rfl, hmatch⟩, hrest⟩
        exact ⟨a, u ++ v, by rw [List.append_assoc], u, v, rfl, hmatch, hrest⟩
    . rw [matchTokens_cons ht]
      simp only [ih, matchTokens_cons ht]
      constructor
      . rintro ⟨c, _, rfl, hc, u, v, rfl, hmatch⟩
        exact ⟨c :: u, v, rfl, ⟨c, u, rfl, hc, hmatch.1⟩, hmatch.2⟩
      . rintro ⟨_, v, rfl, ⟨c, u, rfl, hc, hmatch⟩, hrest⟩
        exact ⟨c, u ++ v, rfl, hc, u, v, rfl, hmatch, hrest⟩

end Tokens

section Paths

variable {segments : List (List Token)} {cs : List Char} {words names : List (List Char)}

def pathText (names : List (List Char)) : List Char :=
  ['/'].intercalate names

def pathTokens (segments : List (List Token)) : List Token :=
  [.lit '/'].intercalate segments

def TakesNames (segments : List (List Token)) (names : List (List Char)) : Prop :=
  List.Forall₂ (fun ts n => matchTokens ts n = true) segments names

theorem pathText_cons (n : List Char) (h : names ≠ []) : pathText (n :: names) = n ++ '/' :: pathText names := by
  obtain ⟨m, names, rfl⟩ := List.exists_cons_of_ne_nil h
  unfold pathText
  rw [List.intercalate_cons_cons, List.append_assoc]
  rfl

theorem pathTokens_cons (ts : List Token) (h : segments ≠ [])
    : pathTokens (ts :: segments) = ts ++ .lit '/' :: pathTokens segments := by
  obtain ⟨ts', segments, rfl⟩ := List.exists_cons_of_ne_nil h
  unfold pathTokens
  rw [List.intercalate_cons_cons, List.append_assoc]
  rfl

theorem pathText_append (hnames : names ≠ []) (hwords : words ≠ [])
    : pathText (names ++ words) = pathText names ++ '/' :: pathText words := by
  induction names with
  | nil => exact absurd rfl hnames
  | cons n names ih =>
    rw [List.cons_append, pathText_cons n (by simp [hwords])]
    cases names with
    | nil => rw [List.nil_append, pathText, pathText, List.intercalate_singleton]
    | cons m names => rw [ih (by simp), pathText_cons n (by simp), List.append_assoc, List.cons_append]

theorem splitOn_pathText (hne : words ≠ [])
    : (pathText words).splitOn '/' = words.flatMap (fun w => w.splitOn '/') := by
  induction words with
  | nil => exact absurd rfl hne
  | cons w words ih =>
    rw [List.flatMap_cons]
    cases words with
    | nil => rw [pathText, List.intercalate_singleton, List.flatMap_nil, List.append_nil]
    | cons w' words => rw [pathText_cons w (by simp), List.splitOn_append_cons_self, ih (by simp)]

theorem splitOn_pathText_names (hnames : ∀ n ∈ names, '/' ∉ n) (hne : names ≠ [])
    : (pathText names).splitOn '/' = names := by
  unfold pathText
  exact List.splitOn_intercalate '/' hnames hne

theorem length_le_splitOn (words : List (List Char))
    : words.length ≤ (words.flatMap (fun w => w.splitOn '/')).length := by
  induction words with
  | nil => exact Nat.zero_le _
  | cons w words ih =>
    have hpos : 0 < (w.splitOn '/').length := List.length_pos_iff.mpr (List.splitOn_ne_nil '/' w)
    rw [List.flatMap_cons, List.length_append, List.length_cons]
    omega

theorem eq_of_splitOn (h : (words.flatMap (fun w => w.splitOn '/')).length = words.length)
    : words.flatMap (fun w => w.splitOn '/') = words := by
  induction words with
  | nil => rfl
  | cons w words ih =>
    have hpos : 0 < (w.splitOn '/').length := List.length_pos_iff.mpr (List.splitOn_ne_nil '/' w)
    have hle := length_le_splitOn words
    rw [List.flatMap_cons, List.length_append, List.length_cons] at h
    obtain ⟨v, hv⟩ := List.length_eq_one_iff.mp (show (w.splitOn '/').length = 1 by omega)
    have hw : w = v := by
      have hsplit : ['/'].intercalate (w.splitOn '/') = w := List.intercalate_splitOn '/'
      rw [hv, List.intercalate_singleton] at hsplit
      exact hsplit.symm
    rw [List.flatMap_cons, hv, ih (by omega), hw]
    rfl

theorem matchTokens_pathTokens
    : matchTokens (pathTokens segments) cs = true ↔ ∃ words, cs = pathText words ∧ TakesNames segments words := by
  unfold TakesNames
  induction segments generalizing cs with
  | nil =>
    simp only [List.forall₂_nil_left_iff, exists_eq_right]
    exact List.isEmpty_iff
  | cons ts segments ih =>
    simp only [List.forall₂_cons_left_iff]
    cases segments with
    | nil =>
      have htokens : pathTokens [ts] = ts := List.intercalate_singleton
      rw [htokens]
      constructor
      . intro hmatch
        exact ⟨[cs], List.intercalate_singleton.symm, cs, [], hmatch, .nil, rfl⟩
      . rintro ⟨_, rfl, n, _, hmatch, hrest, rfl⟩
        cases hrest
        rwa [pathText, List.intercalate_singleton]
    | cons ts' segments =>
      rw [pathTokens_cons ts (by simp), matchTokens_append]
      simp only [matchTokens_slash, ih]
      constructor
      . rintro ⟨u, _, rfl, hmatch, _, rfl, words, rfl, hrest⟩
        have hne : words ≠ [] := by
          rintro rfl
          cases hrest
        exact ⟨u :: words, (pathText_cons u hne).symm, u, words, hmatch, hrest, rfl⟩
      . rintro ⟨_, rfl, u, words, hmatch, hrest, rfl⟩
        have hne : words ≠ [] := by
          rintro rfl
          cases hrest
        exact ⟨u, _, pathText_cons u hne, hmatch, _, rfl, words, rfl, hrest⟩

theorem matchTokens_pathText (hnames : ∀ n ∈ names, '/' ∉ n) (hne : names ≠ [])
    (hlength : names.length = segments.length)
    : matchTokens (pathTokens segments) (pathText names) = true ↔ TakesNames segments names := by
  rw [matchTokens_pathTokens]
  constructor
  . rintro ⟨words, htext, htakes⟩
    have hwords : words ≠ [] := by
      rintro rfl
      cases htakes
      exact hne (List.length_eq_zero_iff.mp hlength)
    have hsplit : words.flatMap (fun w => w.splitOn '/') = names := by
      rw [← splitOn_pathText hwords, ← htext, splitOn_pathText_names hnames hne]
    have heq := eq_of_splitOn (by rw [hsplit, hlength]; exact List.Forall₂.length_eq htakes)
    rw [← hsplit, heq]
    exact htakes
  . intro htakes
    exact ⟨names, rfl, htakes⟩

theorem matchTokens_below {rest : List Token} (hnames : ∀ n ∈ names, '/' ∉ n) (hne : names ≠ [])
    : matchTokens (.star :: .star :: .lit '/' :: rest) (pathText names) = true ↔
      ∃ above below, names = above ++ below ∧ above ≠ [] ∧ below ≠ [] ∧
        matchTokens rest (pathText below) = true := by
  rw [matchTokens_star]
  simp only [matchTokens_star, matchTokens_slash]
  constructor
  . rintro ⟨u, _, htext, v, _, rfl, w, rfl, hmatch⟩
    rw [← List.append_assoc] at htext
    have hsplit : names = (u ++ v).splitOn '/' ++ w.splitOn '/' := by
      rw [← List.splitOn_append_cons_self, ← htext, splitOn_pathText_names hnames hne]
    have hbelow : pathText (w.splitOn '/') = w := List.intercalate_splitOn '/'
    exact ⟨_, _, hsplit, List.splitOn_ne_nil _ _, List.splitOn_ne_nil _ _, by rwa [hbelow]⟩
  . rintro ⟨above, below, rfl, habove, hbelow, hmatch⟩
    exact ⟨pathText above, _, pathText_append habove hbelow, [], _, rfl, _, rfl, hmatch⟩

end Paths

section Parts

variable {pattern part below : List Char} {parts names : List (List Char)}

def tokensOf (part : List Char) : List Token :=
  translate part.length part

def matchText (text pattern : List Char) : Bool :=
  matchTokens (tokensOf pattern) text

def partsOf (pattern : List Char) : List (List Char) :=
  (pattern.splitOn '/').filter (fun part => part ≠ [] && part ≠ ['.'])

def matchParts : List (List Char) → List (List Char) → Bool
  | [], names => names.isEmpty
  | part :: parts, names =>
    if part = ['*', '*'] then names.tails.any (fun rest => !rest.isEmpty && matchParts parts rest)
    else
      match names with
      | [] => false
      | name :: names => matchText name part && matchParts parts names

def matchPath (pattern : List Char) (names : List (List Char)) : Bool :=
  !(['/'].isSuffixOf pattern) && matchParts (partsOf pattern) names

structure Plain (pattern : List Char) : Prop where
  joined : tokensOf pattern = pathTokens ((pattern.splitOn '/').map tokensOf)
  parts : ∀ part ∈ pattern.splitOn '/', part ≠ [] ∧ part ≠ ['.'] ∧ part ≠ ['*', '*']

theorem matchParts_stars (parts names : List (List Char))
    : matchParts (['*', '*'] :: parts) names = names.tails.any (fun rest => !rest.isEmpty && matchParts parts rest) :=
  rfl

theorem matchParts_cons (h : part ≠ ['*', '*']) (name : List Char) (names : List (List Char))
    : matchParts (part :: parts) (name :: names) = (matchText name part && matchParts parts names) := by
  simp [matchParts, h]

theorem matchParts_iff (h : ∀ part ∈ parts, part ≠ ['*', '*'])
    : matchParts parts names = true ↔ TakesNames (parts.map tokensOf) names := by
  unfold TakesNames
  induction parts generalizing names with
  | nil => cases names <;> simp [matchParts]
  | cons part parts ih =>
    have hpart := h part List.mem_cons_self
    cases names with
    | nil => simp [matchParts, hpart]
    | cons name names =>
      rw [matchParts_cons hpart, List.map_cons, List.forall₂_cons, Bool.and_eq_true,
        ih (fun p hp => h p (List.mem_cons_of_mem _ hp))]
      rfl

theorem nil_mem_splitOn (h : ['/'] <:+ pattern) : [] ∈ pattern.splitOn '/' := by
  obtain ⟨u, rfl⟩ := h
  rw [List.splitOn_append_cons_self]
  exact List.mem_append_right _ List.mem_cons_self

theorem matchPath_of_not_suffix (h : ¬['/'] <:+ pattern)
    : matchPath pattern names = matchParts (partsOf pattern) names := by
  unfold matchPath
  rw [← List.isSuffixOf_iff_suffix, Bool.not_eq_true] at h
  rw [h]
  rfl

theorem partsOf_eq (h : ∀ part ∈ pattern.splitOn '/', part ≠ [] ∧ part ≠ ['.'])
    : partsOf pattern = pattern.splitOn '/' := by
  unfold partsOf
  rw [List.filter_eq_self]
  intro part hpart
  simpa using h part hpart

theorem Plain.not_suffix (h : Plain pattern) : ¬['/'] <:+ pattern := by
  intro hsuffix
  exact (h.parts [] (nil_mem_splitOn hsuffix)).1 rfl

theorem splitOn_below (below : List Char)
    : (['*', '*', '/'] ++ below).splitOn '/' = ['*', '*'] :: below.splitOn '/' := by
  have hnot : '/' ∉ ['*', '*'] := by decide
  exact List.splitOn_append_cons_self_of_not_mem hnot below

theorem Plain.ne_below (h : Plain pattern) (below : List Char) : pattern ≠ ['*', '*', '/'] ++ below := by
  rintro rfl
  have hmem : ['*', '*'] ∈ (['*', '*', '/'] ++ below).splitOn '/' := by
    rw [splitOn_below]
    exact List.mem_cons_self
  exact (h.parts _ hmem).2.2 rfl

theorem Plain.matchParts_iff (h : Plain pattern) (hnames : ∀ n ∈ names, '/' ∉ n) (hne : names ≠ [])
    : matchParts (pattern.splitOn '/') names = true ↔
      names.length = (pattern.splitOn '/').length ∧ matchText (pathText names) pattern = true := by
  rw [Glob.matchParts_iff (fun part hpart => (h.parts part hpart).2.2)]
  unfold matchText
  rw [h.joined]
  constructor
  . intro htakes
    have hlength := (List.Forall₂.length_eq htakes).symm
    refine ⟨by rw [hlength, List.length_map], ?_⟩
    exact (matchTokens_pathText hnames hne hlength).mpr htakes
  . rintro ⟨hlength, hmatch⟩
    exact (matchTokens_pathText hnames hne (by rw [hlength, List.length_map])).mp hmatch

theorem Plain.matchPath_iff (h : Plain pattern) (hnames : ∀ n ∈ names, '/' ∉ n) (hne : names ≠ [])
    : matchPath pattern names = true ↔
      names.length = (pattern.splitOn '/').length ∧ matchText (pathText names) pattern = true := by
  rw [matchPath_of_not_suffix h.not_suffix,
    partsOf_eq (fun part hpart => ⟨(h.parts part hpart).1, (h.parts part hpart).2.1⟩), h.matchParts_iff hnames hne]

theorem matchText_anywhere (below : List Char) (hnames : ∀ n ∈ names, '/' ∉ n) (hne : names ≠ [])
    : (matchText (pathText names) (['*', '*', '/'] ++ below) || matchText (pathText names) below) = true ↔
      ∃ rest, rest <:+ names ∧ rest ≠ [] ∧ matchText (pathText rest) below = true := by
  have htokens : matchText (pathText names) (['*', '*', '/'] ++ below) =
      matchTokens (.star :: .star :: .lit '/' :: tokensOf below) (pathText names) := rfl
  rw [Bool.or_eq_true, htokens, matchTokens_below hnames hne]
  constructor
  . rintro (⟨above, rest, rfl, -, hrest, hmatch⟩ | hmatch)
    . exact ⟨rest, List.suffix_append above rest, hrest, hmatch⟩
    . exact ⟨names, List.suffix_rfl, hne, hmatch⟩
  . rintro ⟨rest, ⟨above, rfl⟩, hrest, hmatch⟩
    by_cases habove : above = []
    . subst habove
      exact .inr hmatch
    . exact .inl ⟨above, rest, rfl, habove, hrest, hmatch⟩

theorem Plain.matchPath_anywhere_iff (h : Plain below) (hnames : ∀ n ∈ names, '/' ∉ n)
    : matchPath (['*', '*', '/'] ++ below) names = true ↔
      ∃ rest, rest <:+ names ∧ rest.length = (below.splitOn '/').length ∧
        matchText (pathText rest) below = true := by
  have hkept : ∀ part ∈ (['*', '*', '/'] ++ below).splitOn '/', part ≠ [] ∧ part ≠ ['.'] := by
    intro part hpart
    rw [splitOn_below] at hpart
    rcases List.mem_cons.mp hpart with rfl | hmem
    . decide
    . exact ⟨(h.parts part hmem).1, (h.parts part hmem).2.1⟩
  have hnot : ¬['/'] <:+ ['*', '*', '/'] ++ below := by
    intro hsuffix
    exact (hkept [] (nil_mem_splitOn hsuffix)).1 rfl
  rw [matchPath_of_not_suffix hnot, partsOf_eq hkept, splitOn_below, matchParts_stars, List.any_eq_true]
  simp only [Bool.and_eq_true, Bool.not_eq_true', List.isEmpty_eq_false_iff, List.mem_tails]
  constructor
  . rintro ⟨rest, hrest, hne, hmatch⟩
    exact ⟨rest, hrest, (h.matchParts_iff (fun n hn => hnames n (hrest.subset hn)) hne).mp hmatch⟩
  . rintro ⟨rest, hrest, hmatch⟩
    have hne : rest ≠ [] := by
      rw [← List.length_pos_iff, hmatch.1, List.length_pos_iff]
      exact List.splitOn_ne_nil '/' below
    exact ⟨rest, hrest, hne, (h.matchParts_iff (fun n hn => hnames n (hrest.subset hn)) hne).mpr hmatch⟩

end Parts

end Glob
