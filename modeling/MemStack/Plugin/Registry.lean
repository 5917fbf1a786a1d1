import Mathlib

/-!
This module contains the registry of tools (`plugin-host/registry.rs`). A registry holds at most one
tool of a name, in the order of the names.
-/

namespace MemStack
namespace Plugin

class Tool (τ : Type) where
  name : τ → String
  version : τ → String

structure ToolRegistry (τ : Type) [Tool τ] where
  tools : List τ
  nodup : (tools.map Tool.name).Nodup

namespace ToolRegistry

variable {τ : Type} [Tool τ]

def new : ToolRegistry τ :=
  { tools := [], nodup := by simp }

def get (r : ToolRegistry τ) (name : String) : Option τ :=
  r.tools.find? (Tool.name · = name)

def names (r : ToolRegistry τ) : List String :=
  (r.tools.map Tool.name).insertionSort (· ≤ ·)

def withInserted (r : ToolRegistry τ) (tool : τ) : ToolRegistry τ where
  tools :=
    (r.tools.filter (Tool.name · ≠ Tool.name tool) ++ [tool]).insertionSort
      (Tool.name · ≤ Tool.name ·)
  nodup := by
    rw [((List.perm_insertionSort _ _).map _).nodup_iff, List.map_append, List.nodup_append]
    refine ⟨(List.filter_sublist.map _).nodup r.nodup, by simp, ?_⟩
    intro name hname name' hname' heq
    simp only [List.mem_map, List.mem_filter, decide_eq_true_eq, List.mem_singleton] at hname hname'
    grind

def withRemoved (r : ToolRegistry τ) (name : String) : ToolRegistry τ where
  tools := r.tools.filter (Tool.name · ≠ name)
  nodup := (List.filter_sublist.map _).nodup r.nodup

theorem get_eq_some {r : ToolRegistry τ} {name : String} {t : τ}
    : r.get name = some t ↔ t ∈ r.tools ∧ Tool.name t = name := by
  constructor
  . intro h
    refine ⟨List.mem_of_find?_eq_some h, ?_⟩
    simpa using List.find?_some h
  . rintro ⟨hmem, rfl⟩
    unfold get
    cases hfind : r.tools.find? (Tool.name · = Tool.name t) with
    | none =>
      rw [List.find?_eq_none] at hfind
      simpa using hfind t hmem
    | some t' =>
      have hname : Tool.name t' = Tool.name t := by
        simpa using List.find?_some hfind
      rw [List.inj_on_of_nodup_map r.nodup (List.mem_of_find?_eq_some hfind) hmem hname]

theorem get_eq_none {r : ToolRegistry τ} {name : String}
    : r.get name = none ↔ name ∉ r.tools.map Tool.name := by
  simp [get]

theorem mem_names {r : ToolRegistry τ} {name : String}
    : name ∈ r.names ↔ name ∈ r.tools.map Tool.name := by
  simp [names]

theorem mem_withInserted {r : ToolRegistry τ} {tool t : τ}
    : t ∈ (r.withInserted tool).tools
        ↔
      t = tool ∨ t ∈ r.tools ∧ Tool.name t ≠ Tool.name tool := by
  simp [withInserted]
  tauto

@[simp]
theorem get_withInserted (r : ToolRegistry τ) (tool : τ) (name : String)
    : (r.withInserted tool).get name = if name = Tool.name tool then some tool else r.get name := by
  ext t
  rw [get_eq_some, mem_withInserted]
  split
  . grind
  . rw [get_eq_some]
    grind

@[simp]
theorem get_withRemoved (r : ToolRegistry τ) (removed name : String)
    : (r.withRemoved removed).get name = if name = removed then none else r.get name := by
  ext t
  rw [get_eq_some]
  simp only [withRemoved, List.mem_filter, decide_eq_true_eq]
  split
  . grind
  . rw [get_eq_some]
    grind

theorem get_foldl_withInserted {tools : List τ} (hnodup : (tools.map Tool.name).Nodup)
    (r : ToolRegistry τ) (name : String)
    : (tools.foldl withInserted r).get name
        =
      (tools.find? (Tool.name · = name)).or (r.get name) := by
  induction tools generalizing r with
  | nil => simp
  | cons tool tools ih =>
    simp only [List.map_cons, List.nodup_cons] at hnodup
    rw [List.foldl_cons, ih hnodup.2, get_withInserted, List.find?_cons]
    by_cases hname : Tool.name tool = name
    . have hnone : tools.find? (Tool.name · = name) = none := by
        rw [List.find?_eq_none]
        intro t ht
        simp only [decide_eq_true_eq]
        intro heq
        apply hnodup.1
        rw [hname, ← heq]
        apply List.mem_map_of_mem ht
      simp [hname, hnone]
    . have hname' : ¬ name = Tool.name tool := fun heq => hname heq.symm
      simp [hname, hname']

theorem get_foldl_withRemoved (removed : List String) (r : ToolRegistry τ) (name : String)
    : (removed.foldl withRemoved r).get name = if name ∈ removed then none else r.get name := by
  induction removed generalizing r with
  | nil => simp
  | cons n removed ih =>
    rw [List.foldl_cons, ih, get_withRemoved]
    by_cases hmem : name ∈ removed <;> by_cases hname : name = n <;> simp [hmem, hname]

end ToolRegistry

end Plugin
end MemStack
