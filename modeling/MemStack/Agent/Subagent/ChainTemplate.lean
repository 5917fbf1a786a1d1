import MemStack.Util.Dict
import MemStack.Util.Substitution
import MemStack.Util.Text

/-!
This module contains the template of a step of a chain of subagents
(`infrastructure/agent/subagent/chain.py`), and when its placeholders are replaced as if all at once.
-/

namespace MemStack
namespace Agent
namespace Subagent
namespace Chain

open Substitution
open History

structure SubAgentResult where
  summary : String
  finalContent : String := ""
  deriving DecidableEq, Repr

-- `rendered.replace(placeholder, value)`.
def replaceAll (placeholder value rendered : String) : String :=
  String.ofList (replace placeholder.toList value.toList rendered.toList)

-- `f"{{step_{idx}}}"`.
def stepPlaceholder (idx : Nat) : String :=
  "\x7bstep_" ++ toString idx ++ "\x7d"

def renderTemplate (template userMessage : String) (prevResult : Option SubAgentResult)
    (stepResults : Dict Nat SubAgentResult) : String :=
  let rendered := replaceAll "\x7binput\x7d" userMessage template
  let rendered :=
    match prevResult with
    | some prevResult =>
      let rendered := replaceAll "\x7bprev\x7d" prevResult.summary rendered
      replaceAll "\x7bprev_full\x7d" prevResult.finalContent rendered
    | none =>
      let rendered := replaceAll "\x7bprev\x7d" "" rendered
      replaceAll "\x7bprev_full\x7d" "" rendered
  stepResults.entries.foldl (fun rendered e => replaceAll (stepPlaceholder e.1) e.2.summary rendered) rendered

section Vars

variable (userMessage : String) (prevResult : Option SubAgentResult) (stepResults : Dict Nat SubAgentResult)

def stepVar (e : Nat × SubAgentResult) : Var Char :=
  ((stepPlaceholder e.1).toList, e.2.summary.toList)

def vars : List (Var Char) :=
  [("\x7binput\x7d".toList, userMessage.toList),
    ("\x7bprev\x7d".toList, (prevResult.elim "" SubAgentResult.summary).toList),
    ("\x7bprev_full\x7d".toList, (prevResult.elim "" SubAgentResult.finalContent).toList)] ++
  stepResults.entries.map stepVar

def substituted (template : String) : String :=
  String.ofList (substitute (vars userMessage prevResult stepResults) template.toList)

end Vars

variable {userMessage : String} {prevResult : Option SubAgentResult} {stepResults : Dict Nat SubAgentResult}

theorem toList_stepPlaceholder (idx : Nat)
    : (stepPlaceholder idx).toList = '\x7b' :: (("step_".toList ++ Nat.toDigits 10 idx) ++ ['\x7d']) := by
  unfold stepPlaceholder
  simp only [String.toList_append, Nat.toString_eq_ofList_toDigits, String.toList_ofList]
  rfl

theorem stepPlaceholder_injective : Function.Injective stepPlaceholder := by
  intro n m h
  have heq : "\x7bstep_" ++ toString n ++ String.singleton '\x7d' ++ "" =
      "\x7bstep_" ++ toString m ++ String.singleton '\x7d' ++ "" :=
    congrArg (· ++ "") h
  exact Text.toString_inj_of_append (by decide) heq

theorem delimited_stepPlaceholder (idx : Nat) : Delimited '\x7b' '\x7d' (stepPlaceholder idx).toList := by
  have hdigit : ∀ c ∈ Nat.toDigits 10 idx, c.isDigit = true :=
    fun c hc => Nat.isDigit_of_mem_toDigits (by decide) (by decide) hc
  have hopening : '\x7b' ∉ Nat.toDigits 10 idx := by
    intro hmem
    exact absurd (hdigit _ hmem) (by decide)
  have hclosing : '\x7d' ∉ Nat.toDigits 10 idx := by
    intro hmem
    exact absurd (hdigit _ hmem) (by decide)
  refine ⟨_, toList_stepPlaceholder idx, ?_, ?_⟩
  . simpa using hopening
  . simpa using hclosing

theorem placeholders_vars : Placeholders '\x7b' '\x7d' (vars userMessage prevResult stepResults) where
  delimited := by
    intro var hvar
    simp only [vars, List.cons_append, List.nil_append, List.mem_cons, List.mem_map] at hvar
    rcases hvar with rfl | rfl | rfl | ⟨e, -, rfl⟩
    . exact ⟨"input".toList, by simp only; decide +kernel⟩
    . exact ⟨"prev".toList, by simp only; decide +kernel⟩
    . exact ⟨"prev_full".toList, by simp only; decide +kernel⟩
    . exact delimited_stepPlaceholder e.1
  nodup := by
    have hsteps : ((stepResults.entries.map stepVar).map Prod.fst) =
        stepResults.keys.map (fun idx => (stepPlaceholder idx).toList) := by
      unfold Dict.keys
      rw [List.map_map, List.map_map]
      rfl
    have hinjective : Function.Injective (fun idx => (stepPlaceholder idx).toList) :=
      fun n m h => stepPlaceholder_injective (String.toList_inj.mp h)
    unfold vars
    rw [List.map_append, hsteps]
    apply List.Nodup.append
    . simp only [List.map_cons, List.map_nil]
      decide +kernel
    . exact stepResults.nodup.map hinjective
    . intro name hname hstep
      obtain ⟨idx, -, rfl⟩ := List.mem_map.mp hstep
      rw [toList_stepPlaceholder] at hname
      simp at hname

theorem foldl_replaceAll (l : List (Nat × SubAgentResult)) (rendered : String)
    : l.foldl (fun rendered e => replaceAll (stepPlaceholder e.1) e.2.summary rendered) rendered =
        String.ofList (replaceEach (l.map stepVar) rendered.toList) := by
  induction l generalizing rendered with
  | nil => simp
  | cons e l ih =>
    rw [List.foldl_cons, ih]
    unfold replaceAll
    rw [String.toList_ofList]
    rfl

theorem renderTemplate_eq (template : String)
    : renderTemplate template userMessage prevResult stepResults =
        String.ofList (replaceEach (vars userMessage prevResult stepResults) template.toList) := by
  unfold renderTemplate
  dsimp only
  rw [foldl_replaceAll]
  unfold replaceEach vars
  rw [List.foldl_append]
  cases prevResult
  all_goals
    dsimp only [replaceAll]
    simp only [String.toList_ofList]
    rfl

structure Verbatim (template userMessage : String) (prevResult : Option SubAgentResult)
    (stepResults : Dict Nat SubAgentResult) : Prop where
  rendered : renderTemplate template userMessage prevResult stepResults =
    substituted userMessage prevResult stepResults template
  passes : ∀ before, before <+: vars userMessage prevResult stepResults →
    replaceEach before template.toList = substitute before template.toList

/--
Each value is inserted as it is just when no placeholder gets new places by the values before it.
-/
theorem renderTemplate_verbatim_iff (template userMessage : String) (prevResult : Option SubAgentResult)
    (stepResults : Dict Nat SubAgentResult)
    : Verbatim template userMessage prevResult stepResults ↔
        AtEach (Fresh template.toList) (vars userMessage prevResult stepResults) := by
  rw [← replaceEach_eq_iff placeholders_vars]
  constructor
  . intro h
    exact h.passes
  . intro h
    refine ⟨?_, h⟩
    rw [renderTemplate_eq, h _ List.prefix_rfl]
    rfl

/--
The message of the user names the result of the step before.
-/
theorem renderTemplate_expands_message
    : ¬ ∀ template userMessage prevResult stepResults,
        renderTemplate template userMessage prevResult stepResults =
          substituted userMessage prevResult stepResults template := by
  intro h
  have hone := h "\x7binput\x7d" "\x7bprev\x7d" (some { summary := "x" }) Dict.empty
  exact absurd hone (by decide +kernel)

end Chain
end Subagent
end Agent
end MemStack
