import MemStack.Util.Dict
import MemStack.Util.Glob
import MemStack.Util.Incumbent
import MemStack.Util.Text

/-!
This module contains the permission rules of an agent, the evaluation of a tool call against them and
the scan that takes fully denied tools away from the agent.
-/

namespace MemStack.Agent.Permission

open LastMatch
open Glob (fnmatch)

inductive RuleScope where
  | agent
  | user
  | session
  deriving DecidableEq, Repr

inductive PermissionAction where
  | allow
  | deny
  | ask
  deriving DecidableEq, Repr

structure PermissionRule where
  permission : String
  pattern : String
  action : PermissionAction
  scope : RuleScope := .agent
  argPattern : Option String := none
  deriving DecidableEq, Repr

-- The arguments of a tool call, where `none` is a key that holds `None`.
abbrev Args (Value : Type) :=
  Dict String (Option Value)

section Rules

variable {Value : Type} (str : Value → String)

-- The key and the glob for the value of an `arg_pattern`, `none` where the pattern is malformed.
def splitArgPattern (text : String) : Option (String × String) :=
  match text.toList.span (· ≠ ':') with
  | (_, []) => none
  | (key, _ :: glob) => some (Text.strip (String.ofList key), Text.strip (String.ofList glob))

def PermissionRule.matchArgPattern (rule : PermissionRule) (args : Args Value) : Bool :=
  match rule.argPattern with
  | none => true
  | some text =>
    if text = "" then
      true
    else
      match splitArgPattern text with
      | none => true
      | some (key, valuePattern) =>
        match args.get key with
        | some (some value) => fnmatch (str value) valuePattern
        | _ => false

def PermissionRule.matches (rule : PermissionRule) (permission target : String)
    (args : Option (Args Value)) : Bool :=
  if !(fnmatch permission rule.permission && fnmatch target rule.pattern) then
    false
  else
    match rule.argPattern, args with
    | none, _ => true
    | some _, none => true
    | some _, some args => rule.matchArgPattern str args

-- The last rule that matches decides, a call that no rule matches has to be asked for.
def evaluateRules (permission pattern : String) (rulesets : List (List PermissionRule))
    (args : Option (Args Value)) : PermissionRule :=
  let merged := rulesets.flatten
  match merged.reverse.find? (·.matches str permission pattern args) with
  | some rule => rule
  | none => { permission := permission, pattern := "*", action := .ask }

def editTools : List String :=
  ["edit", "write", "patch", "multiedit"]

def permissionOf (tool : String) : String :=
  if tool ∈ editTools then "edit" else tool

-- The rule at which the scan of `get_disabled_tools` stops.
def ruleFor (permission : String) (ruleset : List PermissionRule) : Option PermissionRule :=
  ruleset.reverse.find? (fnmatch permission ·.permission)

def PermissionRule.deniesAll (rule : PermissionRule) : Bool :=
  rule.pattern = "*" && rule.action = .deny

def getDisabledTools (tools : List String) (ruleset : List PermissionRule) : Finset String :=
  tools.foldl
    (fun result tool =>
      match ruleFor (permissionOf tool) ruleset with
      | some rule => if rule.deniesAll then insert tool result else result
      | none => result)
    ∅

-- The call is described by its target and its arguments.
abbrev Call (Value : Type) :=
  String × Args Value

def PermissionRule.hits (permission : String) (rule : PermissionRule) (call : Call Value) : Bool :=
  rule.matches str permission call.1 (some call.2)

-- The scan and the evaluation agree on a tool: one that is reported is denied on every call, and one that
-- rules for all targets deny on every call is reported.
def Agrees (ruleset : List PermissionRule) (tool : String) : Prop :=
  (∀ tools, tool ∈ getDisabledTools tools ruleset
      → ∀ target args,
        (evaluateRules str (permissionOf tool) target [ruleset] (some args)).action = .deny)
    ∧ ((∀ target args,
          (evaluateRules str (permissionOf tool) target [ruleset] (some args)).action = .deny
            ∧ (evaluateRules str (permissionOf tool) target [ruleset] (some args)).pattern = "*")
        → ∀ tools, tool ∈ tools → tool ∈ getDisabledTools tools ruleset)

def PermissionRule.ignoresArgs (rule : PermissionRule) : Bool :=
  match rule.argPattern with
  | none => true
  | some text => ':' ∉ text.toList

-- Rules of `p` have the last word on every call for the permission: a rule that ignores the arguments is
-- there for every target, and where a rule outside of `p` matches, a later one of `p` matches too.
def Governed (permission : String) (p : PermissionRule → Prop) (ruleset : List PermissionRule) : Prop :=
  (∀ target, ∃ rule ∈ ruleset,
      fnmatch permission rule.permission ∧ fnmatch target rule.pattern ∧ rule.ignoresArgs)
    ∧ Overridden (PermissionRule.hits str permission) p ruleset

-- What the scan sees is what the evaluation does: a rule that denies all targets takes no notice of the
-- arguments or has only denials behind it, and any other rule matches some call or hides no such denial.
def SeesThrough (permission : String) (ruleset : List PermissionRule) : Prop :=
  match ruleFor permission ruleset with
  | none => True
  | some rule =>
    if rule.deniesAll then
      rule.ignoresArgs ∨ Governed str permission (·.action = .deny) ruleset
    else
      (∃ call, rule.hits str permission call) ∨ ¬ Governed str permission (·.deniesAll) ruleset

section Lemmas

variable {str}
variable {permission : String} {rule : PermissionRule} {ruleset : List PermissionRule}

theorem matchArgPattern_of_ignoresArgs (h : rule.ignoresArgs) (args : Args Value)
    : rule.matchArgPattern str args = true := by
  unfold PermissionRule.ignoresArgs at h
  unfold PermissionRule.matchArgPattern
  cases htext : rule.argPattern with
  | none => rfl
  | some text =>
    rw [htext] at h
    have hspan : text.toList.span (· ≠ ':') = (text.toList, []) := by
      rw [List.span_eq_takeWhile_dropWhile, List.takeWhile_eq_self_iff.mpr, List.dropWhile_eq_nil_iff.mpr]
      . intro c hc
        have hne : c ≠ ':' := by
          rintro rfl
          simp [hc] at h
        simpa using hne
      . intro c hc
        have hne : c ≠ ':' := by
          rintro rfl
          simp [hc] at h
        simpa using hne
    simp only [splitArgPattern, hspan, ite_self]

theorem matchArgPattern_empty : rule.matchArgPattern str Dict.empty = rule.ignoresArgs := by
  cases hignores : rule.ignoresArgs with
  | true => exact matchArgPattern_of_ignoresArgs hignores _
  | false =>
    unfold PermissionRule.ignoresArgs at hignores
    unfold PermissionRule.matchArgPattern
    cases htext : rule.argPattern with
    | none => simp [htext] at hignores
    | some text =>
      rw [htext] at hignores
      have hmem : ':' ∈ text.toList := by simpa using hignores
      have hne : text ≠ "" := by
        rintro rfl
        simp at hmem
      have hsome : ∃ key glob, splitArgPattern text = some (key, glob) := by
        unfold splitArgPattern
        rw [List.span_eq_takeWhile_dropWhile]
        cases hdrop : text.toList.dropWhile (· ≠ ':') with
        | nil =>
          rw [List.dropWhile_eq_nil_iff] at hdrop
          simpa using hdrop ':' hmem
        | cons c glob => exact ⟨_, _, rfl⟩
      obtain ⟨key, glob, hsplit⟩ := hsome
      simp only [if_neg hne, hsplit, Dict.get_empty]

theorem hits_iff {call : Call Value}
    : rule.hits str permission call
      ↔ fnmatch permission rule.permission ∧ fnmatch call.1 rule.pattern
        ∧ rule.matchArgPattern str call.2 := by
  unfold PermissionRule.hits PermissionRule.matches
  rw [← and_assoc]
  cases hglobs : fnmatch permission rule.permission && fnmatch call.1 rule.pattern with
  | false =>
    rw [← Bool.and_eq_true, hglobs]
    simp
  | true =>
    rw [← Bool.and_eq_true, hglobs]
    simp only [Bool.not_true, Bool.false_eq_true, if_false, true_and]
    cases htext : rule.argPattern with
    | none => simp [PermissionRule.matchArgPattern, htext]
    | some text => rfl

variable (str) in
theorem covered_iff
    : Covered (PermissionRule.hits str permission) ruleset
      ↔ ∀ target, ∃ rule ∈ ruleset,
          fnmatch permission rule.permission ∧ fnmatch target rule.pattern ∧ rule.ignoresArgs := by
  constructor
  . intro h target
    obtain ⟨rule, hmem, hhit⟩ := h (target, Dict.empty)
    rw [hits_iff, matchArgPattern_empty] at hhit
    exact ⟨rule, hmem, hhit⟩
  . intro h call
    obtain ⟨rule, hmem, hpermission, htarget, hignores⟩ := h call.1
    refine ⟨rule, hmem, ?_⟩
    rw [hits_iff]
    exact ⟨hpermission, htarget, matchArgPattern_of_ignoresArgs hignores _⟩

theorem governed_iff {p : PermissionRule → Prop}
    : Governed str permission p ruleset
      ↔ ∀ call, ∃ rule, lastMatch (PermissionRule.hits str permission) call ruleset = some rule ∧ p rule := by
  unfold Governed
  rw [← covered_iff str]
  exact forall_lastMatch_iff.symm

/--
What holds of the rule that decides every call, and not of the request to ask, is up to the rules.
-/
theorem forall_evaluateRules_iff {p : PermissionRule → Prop}
    (hask : ¬ p { permission := permission, pattern := "*", action := .ask })
    : (∀ target args, p (evaluateRules str permission target [ruleset] (some args)))
      ↔ Governed str permission p ruleset := by
  have heval (target : String) (args : Args Value)
      : evaluateRules str permission target [ruleset] (some args)
        = (lastMatch (PermissionRule.hits str permission) (target, args) ruleset).getD
            { permission := permission, pattern := "*", action := .ask } := by
    unfold evaluateRules lastMatch PermissionRule.hits
    dsimp only
    rw [List.flatten_singleton]
    cases ruleset.reverse.find? (·.matches str permission target (some args)) with
    | none => rfl
    | some rule => rfl
  rw [governed_iff]
  constructor
  . intro h call
    have hp := h call.1 call.2
    rw [heval] at hp
    cases hlast : lastMatch (PermissionRule.hits str permission) call ruleset with
    | none =>
      rw [hlast] at hp
      contradiction
    | some rule =>
      rw [hlast] at hp
      exact ⟨rule, rfl, hp⟩
  . intro h target args
    obtain ⟨rule, hlast, hp⟩ := h (target, args)
    rw [heval, hlast]
    exact hp

theorem mem_getDisabledTools {tools : List String} {tool : String}
    : tool ∈ getDisabledTools tools ruleset
      ↔ tool ∈ tools ∧ ∃ rule, ruleFor (permissionOf tool) ruleset = some rule ∧ rule.deniesAll := by
  have hfold (result : Finset String)
      : tool ∈ tools.foldl
          (fun result tool =>
            match ruleFor (permissionOf tool) ruleset with
            | some rule => if rule.deniesAll then insert tool result else result
            | none => result) result
        ↔ tool ∈ result
          ∨ tool ∈ tools ∧ ∃ rule, ruleFor (permissionOf tool) ruleset = some rule ∧ rule.deniesAll := by
    induction tools generalizing result with
    | nil => simp
    | cons t tools ih =>
      rw [List.foldl_cons, ih]
      by_cases heq : tool = t
      . rw [← heq]
        cases hfor : ruleFor (permissionOf tool) ruleset with
        | none => simp
        | some rule => by_cases hdenies : rule.deniesAll <;> simp [hdenies]
      . cases hfor : ruleFor (permissionOf t) ruleset with
        | none => simp [heq]
        | some rule => by_cases hdenies : rule.deniesAll <;> simp [hdenies, heq]
  unfold getDisabledTools
  rw [hfold]
  simp

variable (str) in
theorem split_of_ruleFor (h : ruleFor permission ruleset = some rule)
    : fnmatch permission rule.permission
      ∧ ∃ pre post, ruleset = pre ++ rule :: post
        ∧ ∀ r ∈ post, ∀ call, r.hits str permission call = false := by
  have hlast : lastMatch (fun rule permission => fnmatch permission rule.permission) permission ruleset
      = some rule := h
  obtain ⟨hpermission, pre, post, heq, hno⟩ := lastMatch_eq_some.mp hlast
  refine ⟨hpermission, pre, post, heq, ?_⟩
  intro r hr call
  rw [Bool.eq_false_iff]
  intro hhit
  rw [hits_iff, hno r hr] at hhit
  simpa using hhit.1

theorem governed_of_ignoresArgs (h : ruleFor permission ruleset = some rule) (hdenies : rule.deniesAll)
    (hignores : rule.ignoresArgs)
    : Governed str permission (·.action = .deny) ruleset := by
  obtain ⟨hpermission, pre, post, rfl, hno⟩ := split_of_ruleFor str h
  simp only [PermissionRule.deniesAll, Bool.and_eq_true, decide_eq_true_eq] at hdenies
  have hhit (call : Call Value) : rule.hits str permission call := by
    rw [hits_iff, hdenies.1]
    exact ⟨hpermission, Glob.fnmatch_star _, matchArgPattern_of_ignoresArgs hignores _⟩
  unfold Governed
  rw [← covered_iff str]
  exact covered_overridden_of_forall hdenies.2 hhit hno

theorem not_governed_of_hits (h : ruleFor permission ruleset = some rule) (hdenies : ¬ rule.deniesAll)
    {call : Call Value} (hhit : rule.hits str permission call)
    : ¬ Governed str permission (·.deniesAll) ruleset := by
  rintro ⟨_, hover⟩
  obtain ⟨_, pre, post, heq, hno⟩ := split_of_ruleFor str h
  obtain ⟨r, hr, _, hhit'⟩ := hover pre rule post heq hdenies call hhit
  rw [hno r hr] at hhit'
  contradiction

theorem exists_ruleFor_of_governed {p : PermissionRule → Prop} (h : Governed str permission p ruleset)
    : ∃ rule, ruleFor permission ruleset = some rule := by
  obtain ⟨rule, hmem, hpermission, _⟩ := h.1 ""
  rw [← Option.isSome_iff_exists]
  unfold ruleFor
  rw [List.find?_isSome]
  exact ⟨rule, List.mem_reverse.mpr hmem, hpermission⟩

end Lemmas

/--
The scan for fully denied tools agrees with the evaluation of the rules exactly where its last rule takes
no notice of the arguments, or is backed by the rules before it.
-/
theorem disabled_tools_iff (ruleset : List PermissionRule) (tool : String)
    : Agrees str ruleset tool ↔ SeesThrough str (permissionOf tool) ruleset := by
  have hdeny
      : (∀ target args,
          (evaluateRules str (permissionOf tool) target [ruleset] (some args)).action = .deny)
        ↔ Governed str (permissionOf tool) (·.action = .deny) ruleset := by
    exact forall_evaluateRules_iff (p := fun rule => rule.action = .deny) (by simp)
  have hall
      : (∀ target args,
          (evaluateRules str (permissionOf tool) target [ruleset] (some args)).action = .deny
            ∧ (evaluateRules str (permissionOf tool) target [ruleset] (some args)).pattern = "*")
        ↔ Governed str (permissionOf tool) (·.deniesAll) ruleset := by
    rw [← forall_evaluateRules_iff (by simp [PermissionRule.deniesAll])]
    simp only [PermissionRule.deniesAll, Bool.and_eq_true, decide_eq_true_eq, and_comm]
  unfold Agrees SeesThrough
  rw [hdeny, hall]
  simp only [mem_getDisabledTools]
  cases hfor : ruleFor (permissionOf tool) ruleset with
  | none =>
    simp only [reduceCtorEq, false_and, exists_false, and_false, false_imp_iff, implies_true, true_and,
      iff_true]
    intro hgoverned
    obtain ⟨rule, hsome⟩ := exists_ruleFor_of_governed hgoverned
    rw [hfor] at hsome
    contradiction
  | some rule =>
    by_cases hdenies : rule.deniesAll
    . simp only [Option.some.injEq, exists_eq_left', hdenies, and_true, if_true, imp_self, implies_true]
      constructor
      . intro h
        exact Or.inr (h [tool] (by simp))
      . rintro (hignores | hgoverned) tools _
        . exact governed_of_ignoresArgs hfor hdenies hignores
        . exact hgoverned
    . simp only [Option.some.injEq, exists_eq_left', hdenies, and_false, false_imp_iff, implies_true,
        true_and, Bool.false_eq_true, if_false]
      constructor
      . intro h
        exact Or.inr fun hgoverned => h hgoverned [tool] (by simp)
      . rintro (⟨call, hhit⟩ | hnot) hgoverned tools _
        . exact absurd hgoverned (not_governed_of_hits hfor hdenies hhit)
        . exact absurd hgoverned hnot

/--
A denial of some commands only takes the whole tool away, while the evaluation allows all the others.
-/
theorem disabled_tool_allowed
    : ¬ Agrees (id : String → String)
        [{ permission := "bash", pattern := "*", action := .allow },
          { permission := "bash", pattern := "*", action := .deny, argPattern := some "cmd:rm*" }]
        "bash" := by
  rintro ⟨hreported, _⟩
  have hdeny := hreported ["bash"] (by decide) "terminal" (Dict.empty.set "cmd" (some "ls"))
  revert hdeny
  decide

end Rules

end MemStack.Agent.Permission
