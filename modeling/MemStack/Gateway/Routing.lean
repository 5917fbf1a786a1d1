import MemStack.Util.Lines

/-!
This module contains the rules by which the gateway tells the requests that Rust serves from those that stay
with Python (`apps/gateway/src/routing.rs`). Prefix rules and preview hosts are left out.
-/

namespace MemStack
namespace Gateway

inductive MethodMatchKind where
  | exact
  | singleChild
  | singleChildExcept (excluded : List String)
  | singleChildWithSuffixExcept (suffix : String) (excluded : List String)
  | singleChildWithSuffixAndGrandchildExcept (suffix : String) (excluded : List String)
  | singleChildWithTailExcept (tail : List String) (excluded : List String)
  | singleChildWithTailPrefixExcept (tailPrefix : List String) (excluded : List String)
  | fixedChildWithGrandchild (child : String)

structure MethodRule where
  method : String
  path : String
  matchKind : MethodMatchKind

-- `rest.split('/')`.
def split (rest : String) : List String :=
  (rest.toList.splitOn '/').map String.ofList

def stripBaseSegment (base path : String) : Option String :=
  (Pieces.after '/' base.toList path.toList).map String.ofList

def singleChildSegment (base path : String) : Option String := do
  let rest ← stripBaseSegment base path
  if rest ≠ "" ∧ '/' ∉ rest.toList then some rest else none

def singleChildPath (base path : String) : Bool :=
  (singleChildSegment base path).isSome

def singleChildWithSuffix (base path suffix : String) : Option String := do
  let rest ← stripBaseSegment base path
  match split rest with
  | child :: actualSuffix :: parts =>
    if child = "" ∨ actualSuffix ≠ suffix ∨ parts ≠ [] then none else some child
  | _ => none

def singleChildWithSuffixAndGrandchild (base path suffix : String) : Option String := do
  let rest ← stripBaseSegment base path
  match split rest with
  | child :: actualSuffix :: grandchild :: parts =>
    if child = "" ∨ actualSuffix ≠ suffix ∨ grandchild = "" ∨ parts ≠ [] then none else some child
  | _ => none

def skipTail : List String → List String → Option (List String)
  | [], parts => some parts
  | _ :: _, [] => none
  | expected :: tail, actual :: parts =>
    if actual = "" ∨ expected ≠ "*" ∧ actual ≠ expected then none else skipTail tail parts

def singleChildWithTail (base path : String) (tail : List String) : Option String := do
  let rest ← stripBaseSegment base path
  match split rest with
  | [] => none
  | child :: parts =>
    if child = "" then
      none
    else
      let parts ← skipTail tail parts
      if parts ≠ [] then none else some child

def singleChildWithTailPrefix (base path : String) (tailPrefix : List String) : Option String := do
  let rest ← stripBaseSegment base path
  match split rest with
  | [] => none
  | child :: parts =>
    if child = "" then
      none
    else
      let parts ← skipTail tailPrefix parts
      if "" ∈ parts then none else some child

def fixedChildWithGrandchild (base path child : String) : Bool :=
  match stripBaseSegment base path with
  | none => false
  | some rest =>
    match split rest with
    | [actualChild, grandchild] => actualChild = child ∧ grandchild ≠ ""
    | _ => false

def notExcluded (excluded : List String) (segment : Option String) : Bool :=
  (segment.map fun child => decide (child ∉ excluded)).getD false

def matchesPath (kind : MethodMatchKind) (base path : String) : Bool :=
  match kind with
  | .exact => path = base ∨ path = base ++ "/"
  | .singleChild => singleChildPath base path
  | .singleChildExcept excluded => notExcluded excluded (singleChildSegment base path)
  | .singleChildWithSuffixExcept suffix excluded => notExcluded excluded (singleChildWithSuffix base path suffix)
  | .singleChildWithSuffixAndGrandchildExcept suffix excluded =>
    notExcluded excluded (singleChildWithSuffixAndGrandchild base path suffix)
  | .singleChildWithTailExcept tail excluded => notExcluded excluded (singleChildWithTail base path tail)
  | .singleChildWithTailPrefixExcept tailPrefix excluded =>
    notExcluded excluded (singleChildWithTailPrefix base path tailPrefix)
  | .fixedChildWithGrandchild child => fixedChildWithGrandchild base path child

def methodMatches (rule : MethodRule) (method path : String) : Bool :=
  (rule.method = "*" ∨ method = rule.method) ∧ matchesPath rule.matchKind rule.path path

def render (base : String) (parts : List String) : String :=
  base ++ String.ofList (Pieces.joined '/' (parts.map String.toList))

def Plain (part : String) : Prop :=
  '/' ∉ part.toList

def IsSegment (part : String) : Prop :=
  part ≠ "" ∧ Plain part

def Fits (expected actual : String) : Prop :=
  IsSegment actual ∧ (expected = "*" ∨ actual = expected)

/--
The segments that follow the base, for each kind of rule. What may remain after the prefix of a tail, and
which texts of a rule may be a segment, are parameters.
-/
inductive Reads (Remainder : List String → Prop) (Fixed : String → Prop)
    : MethodMatchKind → List String → Prop where
  | exact : Reads Remainder Fixed .exact []
  | exactSlash : Reads Remainder Fixed .exact [""]
  | singleChild {child : String} (h : IsSegment child) : Reads Remainder Fixed .singleChild [child]
  | singleChildExcept {child : String} {excluded : List String} (h : IsSegment child) (hnot : child ∉ excluded)
    : Reads Remainder Fixed (.singleChildExcept excluded) [child]
  | suffix {child suffix : String} {excluded : List String} (h : IsSegment child) (hsuffix : Fixed suffix)
    (hnot : child ∉ excluded)
    : Reads Remainder Fixed (.singleChildWithSuffixExcept suffix excluded) [child, suffix]
  | grandchild {child suffix grandchild : String} {excluded : List String} (h : IsSegment child)
    (hsuffix : Fixed suffix) (hgrandchild : IsSegment grandchild) (hnot : child ∉ excluded)
    : Reads Remainder Fixed (.singleChildWithSuffixAndGrandchildExcept suffix excluded)
        [child, suffix, grandchild]
  | tail {child : String} {tail parts excluded : List String} (h : IsSegment child)
    (hfits : List.Forall₂ Fits tail parts) (hnot : child ∉ excluded)
    : Reads Remainder Fixed (.singleChildWithTailExcept tail excluded) (child :: parts)
  | tailPrefix {child : String} {tailPrefix parts remainder excluded : List String} (h : IsSegment child)
    (hfits : List.Forall₂ Fits tailPrefix parts) (hsegments : ∀ part ∈ remainder, IsSegment part)
    (hremainder : Remainder remainder) (hnot : child ∉ excluded)
    : Reads Remainder Fixed (.singleChildWithTailPrefixExcept tailPrefix excluded) (child :: (parts ++ remainder))
  | fixedChild {child grandchild : String} (hchild : Fixed child) (h : IsSegment grandchild)
    : Reads Remainder Fixed (.fixedChildWithGrandchild child) [child, grandchild]

def Accepts (Remainder : List String → Prop) (Fixed : String → Prop) (rule : MethodRule) (method path : String)
    : Prop :=
  (rule.method = "*" ∨ method = rule.method) ∧
    ∃ parts, Reads Remainder Fixed rule.matchKind parts ∧ path = render rule.path parts

def AcceptsDocumented : MethodRule → String → String → Prop :=
  Accepts (· ≠ []) IsSegment

def AcceptsAmended : MethodRule → String → String → Prop :=
  Accepts (fun _ => True) Plain

section Parts

variable {base path : String} {parts : List String} {child suffix : String} {excluded tail : List String}

def InPath (base path : String) (parts : List String) : Prop :=
  (∀ part ∈ parts, Plain part) ∧ path = render base parts

theorem stripBaseSegment_eq_some {rest : String}
    : stripBaseSegment base path = some rest ↔ path.toList = base.toList ++ '/' :: rest.toList := by
  unfold stripBaseSegment
  rw [Option.map_eq_some_iff]
  constructor
  . rintro ⟨tail, htail, rfl⟩
    rw [Pieces.after_eq_some] at htail
    rw [htail, String.toList_ofList]
  . intro h
    exact ⟨rest.toList, Pieces.after_eq_some.mpr h, String.ofList_toList⟩

theorem split_eq_iff {rest : String} : split rest = parts ↔ rest.toList.splitOn '/' = parts.map String.toList := by
  unfold split
  constructor
  . rintro rfl
    rw [List.map_map]
    simp [Function.comp_def]
  . intro h
    rw [h, List.map_map]
    simp [Function.comp_def]

theorem split_ne_nil (rest : String) : split rest ≠ [] := by
  unfold split
  simp

theorem toList_render : (render base parts).toList = base.toList ++ Pieces.joined '/' (parts.map String.toList) := by
  unfold render
  rw [String.toList_append, String.toList_ofList]

theorem inPath_iff (hne : parts ≠ [])
    : InPath base path parts ↔ ∃ rest, stripBaseSegment base path = some rest ∧ split rest = parts := by
  unfold InPath Plain
  simp only [stripBaseSegment_eq_some, split_eq_iff, Pieces.splitOn_eq_iff]
  rw [← String.toList_inj, toList_render]
  have hne' : parts.map String.toList ≠ [] := by simpa using hne
  constructor
  . rintro ⟨hplain, hpath⟩
    obtain ⟨rest, hrest⟩ : ∃ rest, '/' :: rest = Pieces.joined '/' (parts.map String.toList) :=
      ⟨_, Pieces.cons_intercalate hne'⟩
    refine ⟨String.ofList rest, ?_, hne', ?_, ?_⟩
    . rw [hpath, ← hrest, String.toList_ofList]
    . simpa using hplain
    . rw [String.toList_ofList, hrest]
  . rintro ⟨rest, hpath, -, hplain, hrest⟩
    rw [hrest] at hpath
    exact ⟨by simpa using hplain, hpath⟩

theorem inPath_split {rest : String} (h : stripBaseSegment base path = some rest) : InPath base path (split rest) :=
  (inPath_iff (split_ne_nil rest)).mpr ⟨rest, h, rfl⟩

theorem singleChildSegment_eq_some
    : singleChildSegment base path = some child ↔ InPath base path [child] ∧ child ≠ "" := by
  rw [inPath_iff (by simp)]
  unfold singleChildSegment
  simp only [Option.bind_eq_bind, Option.bind_eq_some_iff]
  constructor
  . rintro ⟨rest, hrest, hif⟩
    split at hif
    . next h =>
      cases hif
      refine ⟨⟨_, hrest, ?_⟩, h.1⟩
      rw [split_eq_iff, List.splitOn_eq_singleton h.2]
      rfl
    . cases hif
  . rintro ⟨⟨rest, hrest, hsplit⟩, hne⟩
    rw [split_eq_iff, Pieces.splitOn_eq_iff] at hsplit
    obtain ⟨-, hplain, heq⟩ := hsplit
    have hchild : rest = child := by
      simpa [Pieces.joined, String.toList_inj] using heq
    subst hchild
    refine ⟨rest, hrest, if_pos ⟨hne, ?_⟩⟩
    simpa using hplain

theorem singleChildWithSuffix_eq_some
    : singleChildWithSuffix base path suffix = some child ↔ InPath base path [child, suffix] ∧ child ≠ "" := by
  unfold singleChildWithSuffix
  rw [Option.bind_eq_bind, Option.bind_eq_some_iff]
  constructor
  . rintro ⟨rest, hrest, hmatch⟩
    have hpath := inPath_split hrest
    split at hmatch
    . next child' actual parts hsplit =>
      rw [hsplit] at hpath
      simp at hmatch
      obtain ⟨⟨hne, rfl, rfl⟩, rfl⟩ := hmatch
      exact ⟨hpath, hne⟩
    . cases hmatch
  . rintro ⟨hpath, hne⟩
    obtain ⟨rest, hrest, hsplit⟩ := (inPath_iff (by simp)).mp hpath
    refine ⟨rest, hrest, ?_⟩
    rw [hsplit]
    simp [hne]

theorem singleChildWithSuffixAndGrandchild_eq_some
    : singleChildWithSuffixAndGrandchild base path suffix = some child
        ↔
      ∃ grandchild, InPath base path [child, suffix, grandchild] ∧ child ≠ "" ∧ grandchild ≠ "" := by
  unfold singleChildWithSuffixAndGrandchild
  rw [Option.bind_eq_bind, Option.bind_eq_some_iff]
  constructor
  . rintro ⟨rest, hrest, hmatch⟩
    have hpath := inPath_split hrest
    split at hmatch
    . next child' actual grandchild parts hsplit =>
      rw [hsplit] at hpath
      simp at hmatch
      obtain ⟨⟨hne, rfl, hne', rfl⟩, rfl⟩ := hmatch
      exact ⟨grandchild, hpath, hne, hne'⟩
    . cases hmatch
  . rintro ⟨grandchild, hpath, hne, hne'⟩
    obtain ⟨rest, hrest, hsplit⟩ := (inPath_iff (by simp)).mp hpath
    refine ⟨rest, hrest, ?_⟩
    rw [hsplit]
    simp [hne, hne']

theorem fixedChildWithGrandchild_iff
    : fixedChildWithGrandchild base path child = true
        ↔
      ∃ grandchild, InPath base path [child, grandchild] ∧ grandchild ≠ "" := by
  unfold fixedChildWithGrandchild
  constructor
  . intro hmatch
    split at hmatch
    . cases hmatch
    . next rest hrest =>
      have hpath := inPath_split hrest
      split at hmatch
      . next actual grandchild hsplit =>
        rw [hsplit] at hpath
        simp at hmatch
        obtain ⟨rfl, hne⟩ := hmatch
        exact ⟨grandchild, hpath, hne⟩
      . cases hmatch
  . rintro ⟨grandchild, hpath, hne⟩
    obtain ⟨rest, hrest, hsplit⟩ := (inPath_iff (by simp)).mp hpath
    rw [hrest]
    dsimp only
    rw [hsplit]
    simp [hne]

theorem skipTail_eq_some {remainder : List String} (hplain : ∀ part ∈ parts, Plain part)
    : skipTail tail parts = some remainder
        ↔
      ∃ taken, parts = taken ++ remainder ∧ List.Forall₂ Fits tail taken := by
  induction tail generalizing parts with
  | nil => simp [skipTail, eq_comm]
  | cons expected tail ih =>
    cases parts with
    | nil =>
      rw [skipTail]
      constructor
      . intro h
        cases h
      . rintro ⟨taken, hparts, hfits⟩
        cases hfits
        cases hparts
    | cons actual parts =>
      rw [List.forall_mem_cons] at hplain
      rw [skipTail]
      constructor
      . intro h
        split at h
        . cases h
        . next hfits =>
          rw [not_or, not_and_or, not_not, not_not] at hfits
          obtain ⟨taken, rfl, hrest⟩ := (ih hplain.2).mp h
          exact ⟨actual :: taken, rfl, .cons ⟨⟨hfits.1, hplain.1⟩, hfits.2⟩ hrest⟩
      . rintro ⟨taken, hparts, hfits⟩
        cases hfits with
        | @cons _ actual' _ taken hfirst hrest =>
          rw [List.cons_append, List.cons.injEq] at hparts
          obtain ⟨rfl, rfl⟩ := hparts
          rw [if_neg]
          . exact (ih hplain.2).mpr ⟨taken, rfl, hrest⟩
          . rw [not_or, not_and_or, not_not, not_not]
            exact ⟨hfirst.1.1, hfirst.2⟩

theorem singleChildWithTail_eq_some
    : singleChildWithTail base path tail = some child
        ↔
      ∃ parts, InPath base path (child :: parts) ∧ child ≠ "" ∧ List.Forall₂ Fits tail parts := by
  unfold singleChildWithTail
  rw [Option.bind_eq_bind, Option.bind_eq_some_iff]
  constructor
  . rintro ⟨rest, hrest, hmatch⟩
    have hpath := inPath_split hrest
    split at hmatch
    . cases hmatch
    . next child' parts hsplit =>
      rw [hsplit] at hpath
      split at hmatch
      . cases hmatch
      . next hne =>
        rw [Option.bind_eq_bind, Option.bind_eq_some_iff] at hmatch
        obtain ⟨remainder, hskip, hend⟩ := hmatch
        rw [skipTail_eq_some fun part hpart => hpath.1 part (by simp [hpart])] at hskip
        obtain ⟨taken, rfl, hfits⟩ := hskip
        simp at hend
        obtain ⟨rfl, rfl⟩ := hend
        rw [List.append_nil] at hpath
        exact ⟨taken, hpath, hne, hfits⟩
  . rintro ⟨parts, hpath, hne, hfits⟩
    obtain ⟨rest, hrest, hsplit⟩ := (inPath_iff (by simp)).mp hpath
    have hskip : skipTail tail parts = some [] := by
      rw [skipTail_eq_some fun part hpart => hpath.1 part (by simp [hpart])]
      exact ⟨parts, by simp, hfits⟩
    refine ⟨rest, hrest, ?_⟩
    rw [hsplit]
    simp [hne, hskip]

theorem singleChildWithTailPrefix_eq_some
    : singleChildWithTailPrefix base path tail = some child
        ↔
      ∃ parts remainder, InPath base path (child :: (parts ++ remainder)) ∧ child ≠ "" ∧
        List.Forall₂ Fits tail parts ∧ "" ∉ remainder := by
  unfold singleChildWithTailPrefix
  rw [Option.bind_eq_bind, Option.bind_eq_some_iff]
  constructor
  . rintro ⟨rest, hrest, hmatch⟩
    have hpath := inPath_split hrest
    split at hmatch
    . cases hmatch
    . next child' parts hsplit =>
      rw [hsplit] at hpath
      split at hmatch
      . cases hmatch
      . next hne =>
        rw [Option.bind_eq_bind, Option.bind_eq_some_iff] at hmatch
        obtain ⟨remainder, hskip, hend⟩ := hmatch
        rw [skipTail_eq_some fun part hpart => hpath.1 part (by simp [hpart])] at hskip
        obtain ⟨taken, rfl, hfits⟩ := hskip
        simp at hend
        obtain ⟨hsegments, rfl⟩ := hend
        exact ⟨taken, remainder, hpath, hne, hfits, hsegments⟩
  . rintro ⟨parts, remainder, hpath, hne, hfits, hsegments⟩
    obtain ⟨rest, hrest, hsplit⟩ := (inPath_iff (by simp)).mp hpath
    have hskip : skipTail tail (parts ++ remainder) = some remainder := by
      rw [skipTail_eq_some fun part hpart => hpath.1 part (by simp only [List.mem_cons, hpart, or_true])]
      exact ⟨parts, rfl, hfits⟩
    refine ⟨rest, hrest, ?_⟩
    rw [hsplit]
    simp [hne, hskip, hsegments]

theorem notExcluded_iff {segment : Option String}
    : notExcluded excluded segment = true ↔ ∃ child, segment = some child ∧ child ∉ excluded := by
  unfold notExcluded
  cases segment <;> simp

theorem Reads.mono {Remainder Remainder' : List String → Prop} {Fixed Fixed' : String → Prop}
    {kind : MethodMatchKind} (h : Reads Remainder Fixed kind parts)
    (hremainder : ∀ remainder, Remainder remainder → Remainder' remainder)
    (hfixed : ∀ part, Fixed part → Fixed' part)
    : Reads Remainder' Fixed' kind parts := by
  cases h with
  | exact => exact .exact
  | exactSlash => exact .exactSlash
  | singleChild h => exact .singleChild h
  | singleChildExcept h hnot => exact .singleChildExcept h hnot
  | suffix h hsuffix hnot => exact .suffix h (hfixed _ hsuffix) hnot
  | grandchild h hsuffix hgrandchild hnot => exact .grandchild h (hfixed _ hsuffix) hgrandchild hnot
  | tail h hfits hnot => exact .tail h hfits hnot
  | tailPrefix h hfits hsegments hrest hnot => exact .tailPrefix h hfits hsegments (hremainder _ hrest) hnot
  | fixedChild hchild h => exact .fixedChild (hfixed _ hchild) h

theorem Reads.plain {Remainder : List String → Prop} {kind : MethodMatchKind}
    (h : Reads Remainder Plain kind parts)
    : ∀ part ∈ parts, Plain part := by
  have hfits {tail taken : List String} (hfits : List.Forall₂ Fits tail taken) : ∀ part ∈ taken, Plain part := by
    induction hfits with
    | nil => simp
    | cons hfirst _ ih => simpa using ⟨hfirst.1.2, ih⟩
  have hempty : Plain "" := by simp [Plain]
  cases h with
  | exact => simp
  | exactSlash => simpa using hempty
  | singleChild h => simpa using h.2
  | singleChildExcept h => simpa using h.2
  | suffix h hsuffix => simpa using ⟨h.2, hsuffix⟩
  | grandchild h hsuffix hgrandchild => simpa using ⟨h.2, hsuffix, hgrandchild.2⟩
  | tail h htail => simpa using ⟨h.2, hfits htail⟩
  | tailPrefix h htail hsegments =>
    intro part hpart
    rw [List.mem_cons, List.mem_append] at hpart
    rcases hpart with rfl | hpart | hpart
    . exact h.2
    . exact hfits htail part hpart
    . exact (hsegments part hpart).2
  | fixedChild hchild h => simpa using ⟨hchild, h.2⟩

theorem Reads.inPath {Remainder : List String → Prop} {kind : MethodMatchKind}
    (h : Reads Remainder Plain kind parts) (hpath : path = render base parts)
    : InPath base path parts :=
  ⟨h.plain, hpath⟩

theorem isSegment_of_inPath (h : InPath base path parts) {part : String} (hmem : part ∈ parts) (hne : part ≠ "")
    : IsSegment part :=
  ⟨hne, h.1 part hmem⟩

theorem matchesPath_iff (kind : MethodMatchKind)
    : matchesPath kind base path = true ↔
        ∃ parts, Reads (fun _ => True) Plain kind parts ∧ path = render base parts := by
  constructor
  . intro h
    cases kind with
    | exact =>
      rcases of_decide_eq_true h with rfl | rfl
      . exact ⟨[], .exact, by simp [render, Pieces.joined]⟩
      . exact ⟨[""], .exactSlash, by simp [render, Pieces.joined]⟩
    | singleChild =>
      obtain ⟨child, hchild⟩ := Option.isSome_iff_exists.mp h
      obtain ⟨hpath, hne⟩ := singleChildSegment_eq_some.mp hchild
      exact ⟨_, .singleChild (isSegment_of_inPath hpath (by simp) hne), hpath.2⟩
    | singleChildExcept excluded =>
      obtain ⟨child, hchild, hnot⟩ := notExcluded_iff.mp h
      obtain ⟨hpath, hne⟩ := singleChildSegment_eq_some.mp hchild
      exact ⟨_, .singleChildExcept (isSegment_of_inPath hpath (by simp) hne) hnot, hpath.2⟩
    | singleChildWithSuffixExcept suffix excluded =>
      obtain ⟨child, hchild, hnot⟩ := notExcluded_iff.mp h
      obtain ⟨hpath, hne⟩ := singleChildWithSuffix_eq_some.mp hchild
      exact ⟨_, .suffix (isSegment_of_inPath hpath (by simp) hne) (hpath.1 suffix (by simp)) hnot, hpath.2⟩
    | singleChildWithSuffixAndGrandchildExcept suffix excluded =>
      obtain ⟨child, hchild, hnot⟩ := notExcluded_iff.mp h
      obtain ⟨grandchild, hpath, hne, hne'⟩ := singleChildWithSuffixAndGrandchild_eq_some.mp hchild
      exact ⟨_, .grandchild (isSegment_of_inPath hpath (by simp) hne) (hpath.1 suffix (by simp))
        (isSegment_of_inPath hpath (by simp) hne') hnot, hpath.2⟩
    | singleChildWithTailExcept tail excluded =>
      obtain ⟨child, hchild, hnot⟩ := notExcluded_iff.mp h
      obtain ⟨parts, hpath, hne, hfits⟩ := singleChildWithTail_eq_some.mp hchild
      exact ⟨_, .tail (isSegment_of_inPath hpath (by simp) hne) hfits hnot, hpath.2⟩
    | singleChildWithTailPrefixExcept tailPrefix excluded =>
      obtain ⟨child, hchild, hnot⟩ := notExcluded_iff.mp h
      obtain ⟨parts, remainder, hpath, hne, hfits, hsegments⟩ := singleChildWithTailPrefix_eq_some.mp hchild
      refine ⟨_, .tailPrefix (isSegment_of_inPath hpath (by simp) hne) hfits ?_ trivial hnot, hpath.2⟩
      intro part hpart
      apply isSegment_of_inPath hpath (by simp [hpart])
      rintro rfl
      exact hsegments hpart
    | fixedChildWithGrandchild child =>
      obtain ⟨grandchild, hpath, hne⟩ := fixedChildWithGrandchild_iff.mp h
      exact ⟨_, .fixedChild (hpath.1 child (by simp)) (isSegment_of_inPath hpath (by simp) hne), hpath.2⟩
  . rintro ⟨parts, hreads, hpath⟩
    have hin := hreads.inPath hpath
    cases hreads with
    | exact =>
      rw [hpath]
      simp [matchesPath, render, Pieces.joined]
    | exactSlash =>
      rw [hpath]
      simp [matchesPath, render, Pieces.joined]
    | singleChild h => exact Option.isSome_iff_exists.mpr ⟨_, singleChildSegment_eq_some.mpr ⟨hin, h.1⟩⟩
    | singleChildExcept h hnot =>
      exact notExcluded_iff.mpr ⟨_, singleChildSegment_eq_some.mpr ⟨hin, h.1⟩, hnot⟩
    | suffix h hsuffix hnot =>
      exact notExcluded_iff.mpr ⟨_, singleChildWithSuffix_eq_some.mpr ⟨hin, h.1⟩, hnot⟩
    | grandchild h hsuffix hgrandchild hnot =>
      exact notExcluded_iff.mpr
        ⟨_, singleChildWithSuffixAndGrandchild_eq_some.mpr ⟨_, hin, h.1, hgrandchild.1⟩, hnot⟩
    | tail h hfits hnot =>
      exact notExcluded_iff.mpr ⟨_, singleChildWithTail_eq_some.mpr ⟨_, hin, h.1, hfits⟩, hnot⟩
    | tailPrefix h hfits hsegments _ hnot =>
      refine notExcluded_iff.mpr
        ⟨_, singleChildWithTailPrefix_eq_some.mpr ⟨_, _, hin, h.1, hfits, ?_⟩, hnot⟩
      intro hempty
      exact (hsegments "" hempty).1 rfl
    | fixedChild hchild h => exact fixedChildWithGrandchild_iff.mpr ⟨_, hin, h.1⟩

end Parts

/--
Nothing but the language of the rule is taken from Python.
-/
theorem methodMatches_iff (rule : MethodRule) (method path : String)
    : methodMatches rule method path = true ↔ AcceptsAmended rule method path := by
  unfold methodMatches AcceptsAmended Accepts
  rw [decide_eq_true_iff, matchesPath_iff]

def desktopProxyRule : MethodRule where
  method := "GET"
  path := "/api/v1/projects"
  matchKind := .singleChildWithTailPrefixExcept ["sandbox", "desktop", "proxy"] ["sandboxes"]

def emptySuffixRule : MethodRule where
  method := "GET"
  path := "/api/v1/projects"
  matchKind := .singleChildWithSuffixExcept "" []

/--
Rust serves the root of the desktop proxy, after which nothing remains. An empty suffix is a trailing slash.
-/
theorem methodMatches_without_remainder
    : (methodMatches desktopProxyRule "GET" "/api/v1/projects/p1/sandbox/desktop/proxy" = true ∧
        ¬AcceptsDocumented desktopProxyRule "GET" "/api/v1/projects/p1/sandbox/desktop/proxy") ∧
      methodMatches emptySuffixRule "GET" "/api/v1/projects/p1/" = true ∧
        ¬AcceptsDocumented emptySuffixRule "GET" "/api/v1/projects/p1/" := by
  refine ⟨⟨by decide +kernel, ?_⟩, by decide +kernel, ?_⟩
  . rintro ⟨-, parts, hreads, hpath⟩
    have hin := (hreads.mono (fun _ _ => trivial) (fun _ hpart => hpart.2)).inPath hpath
    have hrest : stripBaseSegment "/api/v1/projects" "/api/v1/projects/p1/sandbox/desktop/proxy" =
        some "p1/sandbox/desktop/proxy" := by
      decide +kernel
    have hlength : (split "p1/sandbox/desktop/proxy").length = 4 := by decide +kernel
    cases hreads with
    | tailPrefix hchild hfits hsegments hremainder hnot =>
      obtain ⟨rest, hrest', hsplit⟩ := (inPath_iff (by simp)).mp hin
      cases hrest.symm.trans hrest'
      rw [hsplit, List.length_cons, List.length_append, ← hfits.length_eq] at hlength
      apply hremainder
      apply List.length_eq_zero_iff.mp
      simpa using hlength
  . rintro ⟨-, parts, hreads, hpath⟩
    cases hreads with
    | suffix hchild hsuffix hnot => exact hsuffix.1 rfl

end Gateway
end MemStack
