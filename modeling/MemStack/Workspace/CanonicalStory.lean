import MemStack.Util.Text

/-!
This module contains the canonical story of a card (`domain/model/canonical_story.py`): the block of YAML in
the body of the card, the story read from it, and when every body gives a result. What `str`, `int` and
`bool` of Python do with a scalar that is not a string is a parameter, and so is the loader of YAML.
-/

namespace MemStack
namespace Workspace
namespace CanonicalStory

-- What `yaml.safe_load` returns. The floats, bytes and dates are the type `σ`.
inductive Yaml (σ : Type) where
  | null
  | bool (b : Bool)
  | int (n : Int)
  | str (s : String)
  | scalar (x : σ)
  | list (items : List (Yaml σ))
  | mapping (entries : List (Yaml σ × Yaml σ))

-- The builtins of Python on the values of a document.
class Builtins (σ : Type) where
  truthy : σ → Bool
  str : σ → String
  -- The texts of a list and of a mapping.
  repr : Yaml σ → String
  -- `int(x)`, which raises for infinities, dates and texts that are no numbers.
  int : σ → Option Int
  intOfText : String → Option Int
  lower : String → String
  lower_empty : lower "" = ""

inductive Raised where
  | attributeError
  | conversion
  deriving DecidableEq, Repr

inductive InvestStatus where
  | pass
  | fail
  | warning
  deriving DecidableEq, Repr

namespace InvestStatus

def ofValue : String → Option InvestStatus
  | "pass" => some .pass
  | "fail" => some .fail
  | "warning" => some .warning
  | _ => none

end InvestStatus

def investKeys : List String :=
  ["independent", "negotiable", "valuable", "estimable", "small", "testable"]

structure AcceptanceCriterion where
  id : String
  text : String
  testable : Bool
  deriving DecidableEq, Repr

structure InvestCheck where
  key : String
  status : InvestStatus
  reason : String := ""
  deriving DecidableEq, Repr

structure Story where
  version : Int
  language : String
  title : String
  problemStatement : String
  userValue : String
  acceptanceCriteria : List AcceptanceCriterion
  constraintsAndAffectedAreas : List String := []
  outOfScope : List String := []
  invest : List InvestCheck := []
  dependsOn : List String := []
  independentStoryCheck : String := "pass"
  unblockCondition : String := ""
  deriving DecidableEq, Repr

structure Issue where
  path : String
  message : String
  deriving DecidableEq, Repr

structure ParseResult where
  hasYamlBlock : Bool
  story : Option Story
  issues : List Issue := []
  rawYaml : Option String := none
  deriving DecidableEq, Repr

namespace ParseResult

def isValid (result : ParseResult) : Bool :=
  result.story.isSome && result.issues.isEmpty

end ParseResult

section Block

-- `"\n```"`, the end of a block.
def closing : List Char :=
  "\n```".toList

def untilClosing : List Char → Option (List Char)
  | [] => none
  | c :: cs => if closing.isPrefixOf (c :: cs) then some [] else (untilClosing cs).map (c :: ·)

-- `\s*\n([\s\S]*?)\n` and three backticks: the whitespace gives back as little as it can.
def afterFence : List Char → Option (List Char)
  | [] => none
  | c :: cs =>
    if Text.isSpace c then
      match afterFence cs with
      | some raw => some raw
      | none => if c = '\n' then untilClosing cs else none
    else none

def opening : List Char :=
  "```yaml".toList

def blockAt (cs : List Char) : Option (List Char) :=
  if (cs.take opening.length).map Char.toLower = opening then afterFence (cs.drop opening.length) else none

-- `_YAML_BLOCK_RE.search(card_body)` and its group.
def yamlBlock (cardBody : String) : Option String :=
  (cardBody.toList.tails.findSome? blockAt).map String.ofList

example : yamlBlock "x ```YAML \n\n a: 1\n``` y\n```" = some " a: 1" := by decide +kernel

end Block

section Values

variable {σ : Type}

def lookup (entries : List (Yaml σ × Yaml σ)) (key : String) : Option (Yaml σ) :=
  (entries.find? (fun e => match e.1 with
    | .str s => s = key
    | _ => false)).map Prod.snd

-- `entries.get(key)`.
def get (entries : List (Yaml σ × Yaml σ)) (key : String) : Yaml σ :=
  (lookup entries key).getD .null

variable [Builtins σ]

def truthy : Yaml σ → Bool
  | .null => false
  | .bool b => b
  | .int n => n ≠ 0
  | .str s => s ≠ ""
  | .scalar x => Builtins.truthy x
  | .list items => !items.isEmpty
  | .mapping entries => !entries.isEmpty

def str : Yaml σ → String
  | .null => "None"
  | .bool true => "True"
  | .bool false => "False"
  | .int n => toString n
  | .str s => s
  | .scalar x => Builtins.str x
  | value => Builtins.repr value

def int : Yaml σ → Except Raised Int
  | .bool b => .ok (if b then 1 else 0)
  | .int n => .ok n
  | .str s => (Builtins.intOfText σ s).elim (.error .conversion) .ok
  | .scalar x => (Builtins.int x).elim (.error .conversion) .ok
  | _ => .error .conversion

-- `value or default`.
def orElse (value default : Yaml σ) : Yaml σ :=
  if truthy value then value else default

-- `value.get(key)`, which only a mapping has.
def getAttr (value : Yaml σ) (key : String) : Except Raised (Yaml σ) :=
  match value with
  | .mapping entries => .ok (get entries key)
  | _ => .error .attributeError

end Values

section Reading

variable {σ : Type} [Builtins σ]

def readStr (node : List (Yaml σ × Yaml σ)) (key : String) (issues : List Issue) : String × List Issue :=
  let issue : Issue := ⟨"story." ++ key, "`" ++ key ++ "` must be a non-empty string."⟩
  match get node key with
  | .str s => if Text.strip s = "" then ("", issues ++ [issue]) else (Text.strip s, issues)
  | _ => ("", issues ++ [issue])

def readStrTuple : Yaml σ → List String
  | .list items => (items.map (fun item => Text.strip (str item))).filter (· ≠ "")
  | _ => []

def collectStep {α β : Type} (read : α → Except Issue β) (s : List β × List Issue) (item : α)
    : List β × List Issue :=
  match read item with
  | .ok value => (s.1 ++ [value], s.2)
  | .error issue => (s.1, s.2 ++ [issue])

def collect {α β : Type} (read : α → Except Issue β) (items : List α) (issues : List Issue)
    : List β × List Issue :=
  items.foldl (collectStep read) ([], issues)

def readCriterion (idx : Nat) (raw : Yaml σ) : Except Issue AcceptanceCriterion :=
  match raw with
  | .mapping entries =>
    let acId := Text.strip (str (orElse (get entries "id") (.str ("AC" ++ toString (idx + 1)))))
    let text := Text.strip (str (orElse (get entries "text") (.str "")))
    if text = "" then
      .error ⟨"story.acceptance_criteria[" ++ toString idx ++ "].text", "AC text is required."⟩
    else
      .ok ⟨acId, text, truthy ((lookup entries "testable").getD (.bool false))⟩
  | _ =>
    .error ⟨"story.acceptance_criteria[" ++ toString idx ++ "]",
      "Each AC must be a mapping with id/text/testable."⟩

def readAcceptanceCriteria (value : Yaml σ) (issues : List Issue) : List AcceptanceCriterion × List Issue :=
  let missing := ([], issues ++ [⟨"story.acceptance_criteria", "acceptance_criteria must be a non-empty list."⟩])
  match value with
  | .list items => if items = [] then missing else collect (fun e => readCriterion e.2 e.1) items.zipIdx issues
  | _ => missing

def readInvestCheck (value : List (Yaml σ × Yaml σ)) (key : String) : Except Issue InvestCheck :=
  match get value key with
  | .mapping sub =>
    let statusRaw := Builtins.lower σ (str ((lookup sub "status").getD (.str "")))
    match InvestStatus.ofValue statusRaw with
    | some status => .ok ⟨key, status, Text.strip (str (orElse (get sub "reason") (.str "")))⟩
    | none =>
      .error ⟨"story.invest." ++ key ++ ".status", "invest." ++ key ++ ".status must be pass/fail/warning."⟩
  | _ => .error ⟨"story.invest." ++ key, "invest." ++ key ++ " must be a mapping with status + reason."⟩

def readInvest (value : Yaml σ) (issues : List Issue) : List InvestCheck × List Issue :=
  match value with
  | .mapping entries => collect (readInvestCheck entries) investKeys issues
  | _ => ([], issues ++ [⟨"story.invest", "invest must be a mapping with the six INVEST keys."⟩])

def buildStory (node : List (Yaml σ × Yaml σ)) (issues : List Issue)
    : Except Raised (Option Story × List Issue) := do
  let (title, issues) := readStr node "title" issues
  let (problem, issues) := readStr node "problem_statement" issues
  if title = "" ∨ problem = "" then
    return (none, issues)
  let (acs, issues) := readAcceptanceCriteria (get node "acceptance_criteria") issues
  let (invest, issues) := readInvest (get node "invest") issues
  let depsNode := orElse (get node "dependencies_and_sequencing") (.mapping [])
  let dependsOn := readStrTuple (← getAttr depsNode "depends_on")
  let independentCheck :=
    match depsNode with
    | .mapping deps => Builtins.lower σ (str ((lookup deps "independent_story_check").getD (.str "pass")))
    | _ => "pass"
  let version ← int (orElse (get node "version") (.int 1))
  let unblockCondition :=
    match depsNode with
    | .mapping deps => str ((lookup deps "unblock_condition").getD (.str ""))
    | _ => ""
  let story : Story := {
    version := version
    language := str (orElse (get node "language") (.str "en"))
    title := title
    problemStatement := problem
    userValue := str (orElse (get node "user_value") (.str ""))
    acceptanceCriteria := acs
    constraintsAndAffectedAreas := readStrTuple (get node "constraints_and_affected_areas")
    outOfScope := readStrTuple (get node "out_of_scope")
    invest := invest
    dependsOn := dependsOn
    independentStoryCheck := independentCheck
    unblockCondition := unblockCondition }
  return (some story, issues)

-- `safeLoad` gives the document or the text of a `YAMLError`.
def parse (safeLoad : String → Except String (Yaml σ)) (cardBody : String) : Except Raised ParseResult :=
  match yamlBlock cardBody with
  | none => .ok ⟨false, none, [⟨"card_body", "No fenced ```yaml block found."⟩], none⟩
  | some raw =>
    match safeLoad raw with
    | .error exc => .ok ⟨true, none, [⟨"yaml", "YAML parse error: " ++ exc⟩], some raw⟩
    | .ok (.mapping loaded) =>
      match lookup loaded "story" with
      | none => .ok ⟨true, none, [⟨"yaml.story", "Top-level `story` key missing."⟩], some raw⟩
      | some (.mapping node) => do
        let (story, issues) ← buildStory node []
        return ⟨true, story, issues, some raw⟩
      | some _ => .ok ⟨true, none, [⟨"yaml.story", "`story` must be a mapping."⟩], some raw⟩
    | .ok _ => .ok ⟨true, none, [⟨"yaml.story", "Top-level `story` key missing."⟩], some raw⟩

end Reading

section Documents

variable {σ : Type}

def IsStory (safeLoad : String → Except String (Yaml σ)) (cardBody : String) (node : List (Yaml σ × Yaml σ))
    : Prop :=
  ∃ raw loaded, yamlBlock cardBody = some raw ∧ safeLoad raw = .ok (.mapping loaded) ∧
    lookup loaded "story" = some (.mapping node)

def NonBlank (value : Yaml σ) : Prop :=
  ∃ s, value = .str s ∧ Text.strip s ≠ ""

def HasTexts (node : List (Yaml σ × Yaml σ)) : Prop :=
  NonBlank (get node "title") ∧ NonBlank (get node "problem_statement")

variable [Builtins σ]

def HasText (raw : Yaml σ) : Prop :=
  ∃ entries, raw = .mapping entries ∧ truthy (get entries "text") ∧ Text.strip (str (get entries "text")) ≠ ""

def HasCriteria (node : List (Yaml σ × Yaml σ)) : Prop :=
  ∃ items, get node "acceptance_criteria" = .list items ∧ items ≠ [] ∧ ∀ raw ∈ items, HasText raw

def HasStatus (sub : List (Yaml σ × Yaml σ)) : Prop :=
  ∃ status, lookup sub "status" = some status ∧
    Builtins.lower σ (str status) ∈ ["pass", "fail", "warning"]

def HasInvest (node : List (Yaml σ × Yaml σ)) : Prop :=
  ∃ entries, get node "invest" = .mapping entries ∧
    ∀ key ∈ investKeys, ∃ sub, get entries key = .mapping sub ∧ HasStatus sub

def Unreadable (node : List (Yaml σ × Yaml σ)) : Prop :=
  (truthy (get node "dependencies_and_sequencing") ∧
    ∀ deps, get node "dependencies_and_sequencing" ≠ .mapping deps) ∨
  (truthy (get node "version") ∧ ∀ n, int (get node "version") ≠ .ok n)

end Documents

variable {σ : Type}

theorem foldl_collectStep_issues {α β : Type} (read : α → Except Issue β) (items : List α)
    (s : List β × List Issue)
    : (items.foldl (collectStep read) s).2 = [] ↔ s.2 = [] ∧ ∀ item ∈ items, ∃ value, read item = .ok value := by
  induction items generalizing s with
  | nil => simp
  | cons item items ih =>
    rw [List.foldl_cons, ih, List.forall_mem_cons, ← and_assoc]
    apply and_congr_left'
    unfold collectStep
    cases read item with
    | ok value => simp
    | error issue => simp

theorem collect_issues {α β : Type} (read : α → Except Issue β) (items : List α) (issues : List Issue)
    : (collect read items issues).2 = [] ↔ issues = [] ∧ ∀ item ∈ items, ∃ value, read item = .ok value := by
  apply foldl_collectStep_issues

theorem readStr_of_nonBlank {node : List (Yaml σ × Yaml σ)} {key : String} (h : NonBlank (get node key))
    (issues : List Issue)
    : ∃ s, s ≠ "" ∧ readStr node key issues = (s, issues) := by
  obtain ⟨s, hget, hs⟩ := h
  refine ⟨Text.strip s, hs, ?_⟩
  unfold readStr
  rw [hget]
  exact if_neg hs

theorem readStr_of_not_nonBlank {node : List (Yaml σ × Yaml σ)} {key : String}
    (h : ¬ NonBlank (get node key)) (issues : List Issue)
    : ∃ issues', readStr node key issues = ("", issues') := by
  unfold readStr
  split
  . next s hget =>
    have hs : Text.strip s = "" := by
      by_contra hs
      exact h ⟨s, hget, hs⟩
    exact ⟨_, if_pos hs⟩
  . exact ⟨_, rfl⟩

variable [Builtins σ]

theorem strip_orElse_empty (value : Yaml σ)
    : Text.strip (str (orElse value (.str ""))) = "" ↔ ¬ (truthy value ∧ Text.strip (str value) ≠ "") := by
  unfold orElse
  cases htruthy : truthy value with
  | true => simp
  | false =>
    simp only [Bool.false_eq_true, if_false, false_and, not_false_eq_true, iff_true, str]
    decide +kernel

theorem readCriterion_eq_ok (idx : Nat) (raw : Yaml σ)
    : (∃ criterion, readCriterion idx raw = .ok criterion) ↔ HasText raw := by
  unfold readCriterion HasText
  cases raw with
  | mapping entries =>
    dsimp only
    split
    . next hblank =>
      rw [strip_orElse_empty] at hblank
      simpa using hblank
    . next hblank =>
      rw [strip_orElse_empty, not_not] at hblank
      simpa using hblank
  | _ => simp

theorem readAcceptanceCriteria_issues (node : List (Yaml σ × Yaml σ)) (issues : List Issue)
    : (readAcceptanceCriteria (get node "acceptance_criteria") issues).2 = [] ↔
      issues = [] ∧ HasCriteria node := by
  unfold readAcceptanceCriteria HasCriteria
  cases get node "acceptance_criteria" with
  | list items =>
    dsimp only
    split
    . next hnil => simp [hnil]
    . next hne =>
      rw [collect_issues]
      simp only [readCriterion_eq_ok, Yaml.list.injEq, exists_eq_left', ne_eq, hne, not_false_eq_true, true_and,
        and_congr_right_iff]
      intro _
      constructor
      . intro h raw hraw
        obtain ⟨idx, hidx, heq⟩ := List.mem_iff_getElem.mp hraw
        exact h (raw, idx) (List.mk_mem_zipIdx_iff_getElem?.mpr (by rw [List.getElem?_eq_getElem hidx, heq]))
      . intro h e he
        exact h e.1 (List.fst_mem_of_mem_zipIdx he)
  | _ => simp

theorem ofValue_eq_some (s : String)
    : (∃ status, InvestStatus.ofValue s = some status) ↔ s ∈ ["pass", "fail", "warning"] := by
  unfold InvestStatus.ofValue
  split <;> simp_all

theorem readInvestCheck_eq_ok (value : List (Yaml σ × Yaml σ)) (key : String)
    : (∃ check, readInvestCheck value key = .ok check) ↔ ∃ sub, get value key = .mapping sub ∧ HasStatus sub := by
  unfold readInvestCheck HasStatus
  cases get value key with
  | mapping sub =>
    simp only [Yaml.mapping.injEq, exists_eq_left']
    cases lookup sub "status" with
    | none =>
      simp only [Option.getD_none, str, Builtins.lower_empty]
      simp [InvestStatus.ofValue]
    | some status =>
      simp only [Option.getD_some, Option.some.injEq, exists_eq_left']
      rw [← ofValue_eq_some]
      split
      . next hstatus => simp [hstatus]
      . next hstatus => simp [hstatus]
  | _ => simp

theorem readInvest_issues (node : List (Yaml σ × Yaml σ)) (issues : List Issue)
    : (readInvest (get node "invest") issues).2 = [] ↔ issues = [] ∧ HasInvest node := by
  unfold readInvest HasInvest
  cases get node "invest" with
  | mapping entries =>
    dsimp only
    rw [collect_issues]
    simp only [readInvestCheck_eq_ok, Yaml.mapping.injEq, exists_eq_left']
  | _ => simp

theorem buildStory_of_not_hasTexts {node : List (Yaml σ × Yaml σ)} (h : ¬ HasTexts node) (issues : List Issue)
    : ∃ issues', buildStory node issues = .ok (none, issues') := by
  unfold buildStory
  by_cases htitle : NonBlank (get node "title")
  . obtain ⟨title, -, heq⟩ := readStr_of_nonBlank htitle issues
    have hproblem : ¬ NonBlank (get node "problem_statement") := fun hproblem => h ⟨htitle, hproblem⟩
    obtain ⟨issues', heq'⟩ := readStr_of_not_nonBlank hproblem issues
    simp only [heq, heq', or_true, if_true]
    exact ⟨_, rfl⟩
  . obtain ⟨issues', heq⟩ := readStr_of_not_nonBlank htitle issues
    simp only [heq, true_or, if_true]
    exact ⟨_, rfl⟩

theorem getAttr_orElse (node : List (Yaml σ × Yaml σ)) (key : String)
    : (∃ value, getAttr (orElse (get node "dependencies_and_sequencing") (.mapping [])) key = .ok value) ↔
      ¬ (truthy (get node "dependencies_and_sequencing") ∧
        ∀ deps, get node "dependencies_and_sequencing" ≠ .mapping deps) := by
  unfold orElse getAttr
  cases htruthy : truthy (get node "dependencies_and_sequencing") with
  | false => simp
  | true =>
    cases get node "dependencies_and_sequencing" with
    | mapping deps => simp
    | _ => simp

theorem int_orElse (node : List (Yaml σ × Yaml σ))
    : (∃ n, int (orElse (get node "version") (.int 1)) = .ok n) ↔
      ¬ (truthy (get node "version") ∧ ∀ n, int (get node "version") ≠ .ok n) := by
  unfold orElse
  cases truthy (get node "version") with
  | false => simp [int]
  | true => simp

theorem buildStory_of_unreadable {node : List (Yaml σ × Yaml σ)} (htexts : HasTexts node)
    (h : Unreadable node) (issues : List Issue)
    : ∃ e, buildStory node issues = .error e := by
  obtain ⟨title, htitle, heq⟩ := readStr_of_nonBlank htexts.1 issues
  obtain ⟨problem, hproblem, heq'⟩ := readStr_of_nonBlank htexts.2 issues
  unfold buildStory
  simp only [heq, heq', htitle, hproblem, or_self, if_false]
  cases hdeps : getAttr (orElse (get node "dependencies_and_sequencing") (.mapping [])) "depends_on" with
  | error e => exact ⟨e, rfl⟩
  | ok value =>
    cases hversion : int (orElse (get node "version") (.int 1)) with
    | error e => exact ⟨e, rfl⟩
    | ok n =>
      exfalso
      rcases h with h | h
      . exact (getAttr_orElse node "depends_on").mp ⟨value, hdeps⟩ h
      . exact (int_orElse node).mp ⟨n, hversion⟩ h

theorem buildStory_of_readable {node : List (Yaml σ × Yaml σ)} (htexts : HasTexts node)
    (h : ¬ Unreadable node) (issues : List Issue)
    : ∃ story issues', buildStory node issues = .ok (some story, issues') ∧
      (issues' = [] ↔ issues = [] ∧ HasCriteria node ∧ HasInvest node) := by
  obtain ⟨title, htitle, heq⟩ := readStr_of_nonBlank htexts.1 issues
  obtain ⟨problem, hproblem, heq'⟩ := readStr_of_nonBlank htexts.2 issues
  rw [Unreadable, not_or] at h
  obtain ⟨value, hdeps⟩ := (getAttr_orElse node "depends_on").mpr h.1
  obtain ⟨n, hversion⟩ := (int_orElse node).mpr h.2
  unfold buildStory
  simp only [heq, heq', htitle, hproblem, or_self, if_false, hdeps, hversion]
  refine ⟨_, _, rfl, ?_⟩
  rw [readInvest_issues, readAcceptanceCriteria_issues, and_assoc]

variable (safeLoad : String → Except String (Yaml σ))

theorem parse_of_not_isStory {cardBody : String} (h : ∀ node, ¬ IsStory safeLoad cardBody node)
    : ∃ result, parse safeLoad cardBody = .ok result ∧ result.story = none := by
  unfold parse
  cases hblock : yamlBlock cardBody with
  | none => exact ⟨_, rfl, rfl⟩
  | some raw =>
    dsimp only
    cases hload : safeLoad raw with
    | error exc => exact ⟨_, rfl, rfl⟩
    | ok loaded =>
      cases loaded with
      | mapping loaded =>
        dsimp only
        cases hstory : lookup loaded "story" with
        | none => exact ⟨_, rfl, rfl⟩
        | some value =>
          cases value with
          | mapping node => exact absurd ⟨raw, loaded, hblock, hload, hstory⟩ (h node)
          | _ => exact ⟨_, rfl, rfl⟩
      | _ => exact ⟨_, rfl, rfl⟩

theorem parse_of_isStory {cardBody : String} {node : List (Yaml σ × Yaml σ)}
    (h : IsStory safeLoad cardBody node)
    : ∃ raw, parse safeLoad cardBody =
      (buildStory node []).map (fun built => ⟨true, built.1, built.2, some raw⟩) := by
  obtain ⟨raw, loaded, hblock, hload, hstory⟩ := h
  refine ⟨raw, ?_⟩
  unfold parse
  rw [hblock]
  dsimp only
  rw [hload]
  dsimp only
  rw [hstory]
  dsimp only
  cases buildStory node [] with
  | error e => rfl
  | ok built => rfl

omit [Builtins σ] in
theorem IsStory.unique {cardBody : String} {node node' : List (Yaml σ × Yaml σ)}
    (h : IsStory safeLoad cardBody node) (h' : IsStory safeLoad cardBody node')
    : node = node' := by
  obtain ⟨raw, loaded, hblock, hload, hstory⟩ := h
  obtain ⟨raw', loaded', hblock', hload', hstory'⟩ := h'
  rw [hblock, Option.some.injEq] at hblock'
  rw [← hblock', hload, Except.ok.injEq, Yaml.mapping.injEq] at hload'
  rw [← hload', hstory, Option.some.injEq, Yaml.mapping.injEq] at hstory'
  exact hstory'

def ParsesExactly (cardBody : String) : Prop :=
  ∃ result, parse safeLoad cardBody = .ok result ∧
    (result.story.isSome ↔ ∃ node, IsStory safeLoad cardBody node ∧ HasTexts node) ∧
    (result.isValid ↔ ∃ node, IsStory safeLoad cardBody node ∧ HasTexts node ∧ HasCriteria node ∧
      HasInvest node)

theorem parse_parsesExactly_iff (cardBody : String)
    : ParsesExactly safeLoad cardBody ↔
      ¬ ∃ node, IsStory safeLoad cardBody node ∧ HasTexts node ∧ Unreadable node := by
  unfold ParsesExactly ParseResult.isValid
  by_cases hstory : ∃ node, IsStory safeLoad cardBody node
  . obtain ⟨node, hnode⟩ := hstory
    have hunique (P : List (Yaml σ × Yaml σ) → Prop)
        : (∃ node, IsStory safeLoad cardBody node ∧ P node) ↔ P node := by
      constructor
      . rintro ⟨node', hnode', h⟩
        rwa [hnode.unique safeLoad hnode']
      . exact fun h => ⟨node, hnode, h⟩
    simp only [hunique]
    obtain ⟨raw, hparse⟩ := parse_of_isStory safeLoad hnode
    rw [hparse]
    by_cases htexts : HasTexts node
    . by_cases hunreadable : Unreadable node
      . obtain ⟨e, hbuild⟩ := buildStory_of_unreadable htexts hunreadable []
        simp [hbuild, Except.map, htexts, hunreadable]
      . obtain ⟨story, issues, hbuild, hissues⟩ := buildStory_of_readable htexts hunreadable []
        simp [hbuild, Except.map, htexts, hunreadable, hissues]
    . obtain ⟨issues, hbuild⟩ := buildStory_of_not_hasTexts htexts []
      simp [hbuild, Except.map, htexts]
  . rw [not_exists] at hstory
    obtain ⟨result, hparse, hnone⟩ := parse_of_not_isStory safeLoad hstory
    simp [hparse, hstory, hnone]

instance : Builtins Empty where
  truthy := Empty.elim
  str := Empty.elim
  repr := fun _ => ""
  int := Empty.elim
  intOfText := String.toInt?
  lower := Text.lower
  lower_empty := by decide +kernel

def sequenceDocument : Yaml Empty :=
  .mapping [(.str "story", .mapping [(.str "title", .str "Log in"),
    (.str "problem_statement", .str "Nobody can log in."),
    (.str "dependencies_and_sequencing", .str "after the sign-up story")])]

def sequenceYaml : String :=
  "story:\n  title: Log in\n  problem_statement: Nobody can log in.\n" ++
    "  dependencies_and_sequencing: after the sign-up story"

theorem parse_sequenceText_raises
    : ¬ ParsesExactly (fun raw => if raw = sequenceYaml then .ok sequenceDocument else .error "")
      ("```yaml\n" ++ sequenceYaml ++ "\n```") := by
  rintro ⟨result, hparse, -⟩
  have hraises : parse (fun raw => if raw = sequenceYaml then .ok sequenceDocument else .error "")
      ("```yaml\n" ++ sequenceYaml ++ "\n```") = .error .attributeError := by
    decide +kernel
  rw [hraises] at hparse
  cases hparse

end CanonicalStory
end Workspace
end MemStack
