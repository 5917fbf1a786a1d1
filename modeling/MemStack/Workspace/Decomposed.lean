import MemStack.Agent.Subagent.ParallelScheduler
import MemStack.Util.Lists
import MemStack.Util.JsonLemmas
import MemStack.Workspace.PlanTree
import MemStack.Workspace.Replan

/-!
This module contains how a decomposition that a model answered becomes the nodes of a plan
(`LLMGoalPlanner.plan`, `LLMGoalPlanner.expand`). Ids, descriptions and priorities are whatever JSON the
model gave. `none` is an exception.
-/

namespace MemStack
namespace Workspace

open Checked
open History
open Agent.Subagent (TaskDecomposer.parseArguments)

/--
The builtins of Python on the floats and the texts of a JSON value.
-/
class PyBuiltins (F : Type) where
  -- the whole number that a float is equal to
  whole : F → Option Int
  -- `int(x)`, which infinities and `nan` do not have
  truncated : F → Option Int
  -- `int(text)`
  ofText : String → Option Int
  -- `str(value)`
  str : Json F → String

/--
What a dictionary tells its keys apart by: a boolean and a whole float are the number they equal.
-/
inductive Key (F : Type) where
  | null
  | num (n : Int)
  | float (x : F)
  | text (s : String)
  deriving DecidableEq, Repr

abbrev DecomposedTask (F : Type) :=
  Agent.Subagent.SubTask F

namespace LLMGoalPlanner

section Decomposed

variable {F : Type} [PyBuiltins F]

def keyOf : Json F → Option (Key F)
  | .null => some .null
  | .bool b => some (.num (if b then 1 else 0))
  | .int n => some (.num n)
  | .float x =>
    match PyBuiltins.whole x with
    | some n => some (.num n)
    | none => some (.float x)
  | .str s => some (.text s)
  | .list _ => none
  | .dict _ => none

def intOf : Json F → Option Int
  | .bool b => some (if b then 1 else 0)
  | .int n => some n
  | .float x => PyBuiltins.truncated x
  | .str s => PyBuiltins.ofText (F := F) s
  | _ => none

def titleOf (st : DecomposedTask F) (description : String) : String :=
  let title := Text.take 120 description
  if title = "" then "Task " ++ PyBuiltins.str st.id else title

variable [DecidableEq F]

def idsOf (newId : Nat → String) (subtasks : List (DecomposedTask F)) : Option (Dict (Key F) String) :=
  subtasks.zipIdx.foldlM
    (fun ids t => do
      let key ← keyOf t.1.id
      return ids.set key (newId t.2))
    .empty

def dependsOnOf (ids : Dict (Key F) String) (st : DecomposedTask F) : Option (Finset String) := do
  let keys ← st.dependencies.mapM keyOf
  return (keys.filterMap ids.get).toFinset

def nodeOf (planId parentId : String) (now : Nat) (ids : Dict (Key F) String) (st : DecomposedTask F)
    (i : Nat) : Option PlanNode := do
  let key ← keyOf st.id
  let id ← ids.get key
  let dependsOn ← dependsOnOf ids st
  -- a description that is no text fails where commands and files are looked for in it
  let description ← st.description.asStr
  let priority ← intOf st.priority
  let node ← (taskNode planId (fun _ => parentId) now id (i + 1) (titleOf st description) description
    priority).postInit.toOption
  (node.withDependsOn dependsOn).toOption

/--
The loop over the sub-tasks, which adds to the plan it is given: the plan afterwards, and whether the loop
came to its end.
-/
def addTasks (parentId : String) (now : Nat) (ids : Dict (Key F) String)
    : List (DecomposedTask F × Nat) → Plan → Plan × Bool
  | [], plan => (plan, true)
  | t :: ts, plan =>
    match (nodeOf plan.id parentId now ids t.1 t.2).bind fun node => (plan.addNode node).toOption with
    | some plan => addTasks parentId now ids ts plan
    | none => (plan, false)

def planDecomposed (planId : String) (newId : Nat → String) (now : Nat) (goal : GoalSpec)
    (conversationContext : Option String) (subtasks : List (DecomposedTask F)) : Option Plan := do
  guard (goal.workspaceId ≠ "")
  let goalNode ← (goalNode planId newId now goal conversationContext).postInit.toOption
  let plan ← ((emptyPlan planId newId goal).addNode goalNode).toOption
  match subtasks with
  | [] =>
    let node ← (taskNode planId newId now (newId 1) 1 goal.title goal.description 0).postInit.toOption
    (plan.addNode node).toOption
  | _ =>
    let ids ← idsOf (fun i => newId (i + 1)) subtasks
    match addTasks goalNode.id now ids subtasks.zipIdx plan with
    | (plan, true) => some plan
    | (_, false) => none

def depthOf (plan : Plan) : Nat → Option PlanNode → Option Nat
  | _, none => some 0
  | 0, some _ => none
  | fuel + 1, some node =>
    match node.parentId with
    | none => some 0
    | some parentId => (depthOf plan fuel (plan.nodes.get parentId)).map (· + 1)

def expandable (plan : Plan) (node : PlanNode) (maxDepth : Int) (subtasks : List (DecomposedTask F)) : Bool :=
  (depthOf plan (plan.nodes.keys.length + 1) (some node)).any (fun depth => (depth : Int) < maxDepth) &&
    2 ≤ subtasks.length

/--
The plan that is left behind, and whether the planner returned.
-/
def expand (plan : Plan) (node : PlanNode) (maxDepth : Int) (newId : Nat → String) (now : Nat)
    (subtasks : List (DecomposedTask F)) : Plan × Bool :=
  if expandable plan node maxDepth subtasks then
    match idsOf newId subtasks with
    | some ids => addTasks node.id now ids subtasks.zipIdx plan
    | none => (plan, false)
  else
    (plan, (depthOf plan (plan.nodes.keys.length + 1) (some node)).isSome)

end Decomposed

section Lemmas

variable {F : Type} [PyBuiltins F] [DecidableEq F]
variable {subtasks before : List (DecomposedTask F)} {st : DecomposedTask F} {ids : Dict (Key F) String}
variable {plan plan' plan'' : Plan} {node : PlanNode} {planId parentId : String} {now i : Nat}

def SameKey (a b : Json F) : Prop :=
  ∃ key, keyOf a = some key ∧ keyOf b = some key

/--
A sub-task that can be added after the ones `before` it: its id is new, it names none of the sub-tasks
that are still to come, and its texts and numbers can be read.
-/
structure Insertable (subtasks before : List (DecomposedTask F)) (st : DecomposedTask F) : Prop where
  fresh : ∀ st' ∈ before, ¬ SameKey st'.id st.id
  hashed : ∀ dep ∈ st.dependencies, (keyOf dep).isSome
  earlier : ∀ dep ∈ st.dependencies, (∃ st' ∈ subtasks, SameKey dep st'.id)
    → ∃ st' ∈ before, SameKey dep st'.id
  described : ∃ text, st.description = .str text ∧ (text = "" ∨ Text.strip (Text.take 120 text) ≠ "")
  prioritized : (intOf st.priority).isSome

structure IdsFor (used : List String) (subtasks : List (DecomposedTask F)) (ids : Dict (Key F) String)
    : Prop where
  hashed : ∀ st ∈ subtasks, ∃ key id, keyOf st.id = some key ∧ ids.get key = some id
  known : ∀ key id, ids.get key = some id → ∃ st ∈ subtasks, keyOf st.id = some key
  injective : ∀ key key' id, ids.get key = some id → ids.get key' = some id → key = key'
  fresh : ∀ key id, ids.get key = some id → id ∉ used

structure MadeOf (planId parentId : String) (ids : Dict (Key F) String) (st : DecomposedTask F)
    (node : PlanNode) : Prop where
  id : ∃ key, keyOf st.id = some key ∧ ids.get key = some node.id
  planId : node.planId = planId
  parentId : node.parentId = some parentId
  kind : node.kind = .task
  description : st.description = .str node.description
  priority : ∃ priority, intOf st.priority = some priority ∧ node.priority = priority.toNat
  dependsOn : ∀ id, id ∈ node.dependsOn
    ↔ ∃ dep ∈ st.dependencies, ∃ key, keyOf dep = some key ∧ ids.get key = some id

-- A plan to which the nodes of the sub-tasks `before` have been added.
structure Extended (plan : Plan) (parentId : String) (ids : Dict (Key F) String)
    (before : List (DecomposedTask F)) (nodes : List PlanNode) (plan' : Plan) : Prop where
  id : plan'.id = plan.id
  workspaceId : plan'.workspaceId = plan.workspaceId
  goalId : plan'.goalId = plan.goalId
  status : plan'.status = plan.status
  entries : plan'.nodes.entries = plan.nodes.entries ++ nodes.map fun node => (node.id, node)
  made : List.Forall₂ (MadeOf plan.id parentId ids) before nodes

theorem toOption_eq_some {ε α : Type} {x : Except ε α} {a : α} : x.toOption = some a ↔ x = .ok a := by
  cases x <;> simp [Except.toOption]

theorem strip_ne_empty {s : String} {c : Char} (hmem : c ∈ s.toList) (hc : Text.isSpace c = false)
    : Text.strip s ≠ "" := by
  unfold Text.strip
  rw [Ne, String.ofList_eq_empty_iff, List.reverse_eq_nil_iff, List.dropWhile_eq_nil_iff]
  intro hall
  have hkept : c ∈ s.toList.dropWhile Text.isSpace := by
    rw [← List.takeWhile_append_dropWhile (p := Text.isSpace) (l := s.toList), List.mem_append] at hmem
    cases hmem with
    | inl htake =>
      rw [List.mem_takeWhile_imp htake] at hc
      cases hc
    | inr hdrop => exact hdrop
  rw [hall c (List.mem_reverse.mpr hkept)] at hc
  cases hc

omit [DecidableEq F] in
theorem strip_titleOf {text : String}
    : Text.strip (titleOf st text) ≠ "" ↔ text = "" ∨ Text.strip (Text.take 120 text) ≠ "" := by
  have htake : Text.take 120 text = "" ↔ text = "" := by
    unfold Text.take
    rw [String.ofList_eq_empty_iff, List.take_eq_nil_iff, String.toList_eq_nil_iff]
    simp
  unfold titleOf
  dsimp only
  split
  . next hempty =>
    rw [htake] at hempty
    simp only [hempty, true_or, iff_true]
    apply strip_ne_empty (c := 'T')
    . simp
    . decide
  . next hne =>
    rw [htake] at hne
    simp [hne]

theorem idsOf_concat {newId : Nat → String}
    : idsOf newId (subtasks ++ [st])
      = (idsOf newId subtasks).bind fun ids =>
          (keyOf st.id).map fun key => ids.set key (newId subtasks.length) := by
  unfold idsOf
  rw [List.zipIdx_append, List.foldlM_append]
  simp only [List.zipIdx_singleton, List.foldlM_cons, List.foldlM_nil, Nat.zero_add]
  rw [Option.bind_eq_bind]
  congr 1
  funext ids
  cases keyOf st.id with
  | none => rfl
  | some key => rfl

theorem idsOf_facts {newId : Nat → String} (hinj : Function.Injective newId)
    (h : idsOf newId subtasks = some ids)
    : (∀ st ∈ subtasks, ∃ key id, keyOf st.id = some key ∧ ids.get key = some id)
      ∧ (∀ key id, ids.get key = some id → ∃ st ∈ subtasks, keyOf st.id = some key)
      ∧ (∀ key id, ids.get key = some id → ∃ n < subtasks.length, id = newId n)
      ∧ (∀ key key' id, ids.get key = some id → ids.get key' = some id → key = key') := by
  induction subtasks using List.reverseRecOn generalizing ids with
  | nil =>
    have hempty : ids = .empty := by
      unfold idsOf at h
      simpa using h.symm
    simp [hempty, Dict.get_empty]
  | append_singleton subtasks st ih =>
    rw [idsOf_concat, Option.bind_eq_some_iff] at h
    obtain ⟨ids', hids', hset⟩ := h
    rw [Option.map_eq_some_iff] at hset
    obtain ⟨key, hkey, rfl⟩ := hset
    obtain ⟨hhashed, hknown, hdrawn, hinjective⟩ := ih hids'
    have hnew (key' : Key F) (id : String) (hget : ids'.get key' = some id)
        : id ≠ newId subtasks.length := by
      obtain ⟨n, hlt, rfl⟩ := hdrawn key' id hget
      intro heq
      have := hinj heq
      omega
    refine ⟨?_, ?_, ?_, ?_⟩
    . intro st' hmem
      rw [List.mem_append, List.mem_singleton] at hmem
      obtain hmem | rfl := hmem
      . obtain ⟨key', id, hkey', hget⟩ := hhashed st' hmem
        by_cases heq : key' = key
        . exact ⟨key', newId subtasks.length, hkey', by rw [Dict.get_set, if_pos heq]⟩
        . exact ⟨key', id, hkey', by rw [Dict.get_set, if_neg heq, hget]⟩
      . exact ⟨key, newId subtasks.length, hkey, by rw [Dict.get_set, if_pos rfl]⟩
    . intro key' id hget
      rw [Dict.get_set] at hget
      split at hget
      . next heq => exact ⟨st, by simp, by rw [hkey, heq]⟩
      . obtain ⟨st', hmem, hkey'⟩ := hknown key' id hget
        exact ⟨st', List.mem_append_left _ hmem, hkey'⟩
    . intro key' id hget
      rw [List.length_append, List.length_singleton]
      rw [Dict.get_set] at hget
      split at hget
      . exact ⟨subtasks.length, by omega, (Option.some.inj hget).symm⟩
      . obtain ⟨n, hlt, hid⟩ := hdrawn key' id hget
        exact ⟨n, by omega, hid⟩
    . intro key₁ key₂ id h₁ h₂
      rw [Dict.get_set] at h₁ h₂
      split at h₁
      . next heq₁ =>
        split at h₂
        . next heq₂ => rw [heq₁, heq₂]
        . exact absurd (Option.some.inj h₁).symm (hnew key₂ id h₂)
      . split at h₂
        . exact absurd (Option.some.inj h₂).symm (hnew key₁ id h₁)
        . exact hinjective key₁ key₂ id h₁ h₂

theorem idsFor_of_idsOf {newId : Nat → String} {used : List String} (hinj : Function.Injective newId)
    (hfresh : ∀ n, newId n ∉ used) (h : idsOf newId subtasks = some ids)
    : IdsFor used subtasks ids := by
  obtain ⟨hhashed, hknown, hdrawn, hinjective⟩ := idsOf_facts hinj h
  refine ⟨hhashed, hknown, hinjective, ?_⟩
  intro key id hget
  obtain ⟨n, _, rfl⟩ := hdrawn key id hget
  exact hfresh n

theorem exists_idsOf_iff {newId : Nat → String}
    : (∃ ids, idsOf newId subtasks = some ids) ↔ ∀ st ∈ subtasks, (keyOf st.id).isSome := by
  induction subtasks using List.reverseRecOn with
  | nil => simp [idsOf]
  | append_singleton subtasks st ih =>
    simp only [idsOf_concat, List.mem_append, List.mem_singleton, or_imp, forall_and, forall_eq]
    rw [← ih]
    cases idsOf newId subtasks with
    | none => simp
    | some ids => simp [Option.isSome_iff_exists]

omit [DecidableEq F] in
theorem mapM_keyOf_eq_some {deps : List (Json F)} {keys : List (Key F)}
    : deps.mapM keyOf = some keys ↔ deps.map keyOf = keys.map some := by
  induction deps generalizing keys with
  | nil => cases keys <;> simp
  | cons dep deps ih =>
    rw [List.mapM_cons, List.map_cons]
    cases hkey : keyOf dep with
    | none => cases keys <;> simp
    | some key =>
      cases keys with
      | nil =>
        cases deps.mapM keyOf <;> simp
      | cons key' keys =>
        rw [List.map_cons, List.cons.injEq, ← ih]
        cases deps.mapM keyOf <;> simp

omit [DecidableEq F] in
theorem mapM_keyOf_of_forall {deps : List (Json F)} (hall : ∀ dep ∈ deps, (keyOf dep).isSome)
    : deps.mapM keyOf = some (deps.filterMap keyOf) := by
  rw [mapM_keyOf_eq_some, List.map_filterMap, eq_comm, List.filterMap_eq_map_iff_forall_eq_some]
  intro dep hdep
  obtain ⟨key, hkey⟩ := Option.isSome_iff_exists.mp (hall dep hdep)
  rw [hkey]
  rfl

variable (ids) in
theorem exists_dependsOnOf (hall : ∀ dep ∈ st.dependencies, (keyOf dep).isSome)
    : ∃ deps, dependsOnOf ids st = some deps := by
  unfold dependsOnOf
  rw [mapM_keyOf_of_forall hall]
  exact ⟨_, rfl⟩

theorem dependsOnOf_eq_some {deps : Finset String}
    : dependsOnOf ids st = some deps
      ↔ (∀ dep ∈ st.dependencies, (keyOf dep).isSome)
        ∧ ∀ id, id ∈ deps ↔ ∃ dep ∈ st.dependencies, ∃ key, keyOf dep = some key ∧ ids.get key = some id := by
  -- the ids of the listed dependencies, as the keys that were read tell them
  have hmem {keys : List (Key F)} (hkeys : st.dependencies.map keyOf = keys.map some) (id : String)
      : id ∈ (keys.filterMap ids.get).toFinset
        ↔ ∃ dep ∈ st.dependencies, ∃ key, keyOf dep = some key ∧ ids.get key = some id := by
    have hkey (key : Key F) : key ∈ keys ↔ ∃ dep ∈ st.dependencies, keyOf dep = some key := by
      rw [← List.mem_map, hkeys]
      simp
    rw [List.mem_toFinset, List.mem_filterMap]
    simp only [hkey]
    constructor
    . rintro ⟨key, ⟨dep, hdep, hkey⟩, hget⟩
      exact ⟨dep, hdep, key, hkey, hget⟩
    . rintro ⟨dep, hdep, key, hkey, hget⟩
      exact ⟨key, ⟨dep, hdep, hkey⟩, hget⟩
  unfold dependsOnOf
  simp only [Option.bind_eq_bind, Option.bind_eq_some_iff, Option.pure_def, Option.some.injEq,
    mapM_keyOf_eq_some]
  constructor
  . rintro ⟨keys, hkeys, rfl⟩
    refine ⟨?_, hmem hkeys⟩
    intro dep hdep
    have hsome : keyOf dep ∈ keys.map some := by
      rw [← hkeys]
      exact List.mem_map_of_mem hdep
    obtain ⟨key, _, heq⟩ := List.mem_map.mp hsome
    rw [← heq]
    rfl
  . rintro ⟨hall, hdeps⟩
    have hkeys := mapM_keyOf_eq_some.mp (mapM_keyOf_of_forall hall)
    refine ⟨st.dependencies.filterMap keyOf, hkeys, ?_⟩
    ext id
    rw [hmem hkeys, hdeps]

theorem nodeOf_eq_some
    : nodeOf planId parentId now ids st i = some node
      ↔ ∃ key id deps description priority, keyOf st.id = some key ∧ ids.get key = some id
        ∧ dependsOnOf ids st = some deps ∧ st.description = .str description
        ∧ intOf st.priority = some priority
        ∧ (description = "" ∨ Text.strip (Text.take 120 description) ≠ "")
        ∧ ∃ h : id ∉ deps, node =
            { taskNode planId (fun _ => parentId) now id (i + 1) (titleOf st description) description
                priority with
              dependsOn := deps
              id_notMem := h } := by
  have htext (description : String) : st.description.asStr = some description
      ↔ st.description = .str description := by
    cases st.description <;> simp [Json.asStr]
  unfold nodeOf
  simp only [Option.bind_eq_bind, Option.bind_eq_some_iff, toOption_eq_some, postInit_eq_ok,
    withDependsOn_eq_ok, htext]
  constructor
  . rintro ⟨key, hkey, id, hid, deps, hdeps, description, hdescription, priority, hpriority, _,
      ⟨htitle, rfl⟩, hself, rfl⟩
    exact ⟨key, id, deps, description, priority, hkey, hid, hdeps, hdescription, hpriority,
      strip_titleOf.mp htitle, hself, rfl⟩
  . rintro ⟨key, id, deps, description, priority, hkey, hid, hdeps, hdescription, hpriority, htitle,
      hself, rfl⟩
    exact ⟨key, hkey, id, hid, deps, hdeps, description, hdescription, priority, hpriority, _,
      ⟨strip_titleOf.mpr htitle, rfl⟩, hself, rfl⟩

theorem madeOf_of_nodeOf (h : nodeOf planId parentId now ids st i = some node)
    : MadeOf planId parentId ids st node := by
  rw [nodeOf_eq_some] at h
  obtain ⟨key, id, deps, description, priority, hkey, hid, hdeps, hdescription, hpriority, _, hself, rfl⟩ := h
  exact {
    id := ⟨key, hkey, hid⟩
    planId := rfl
    parentId := rfl
    kind := rfl
    description := hdescription
    priority := ⟨priority, hpriority, rfl⟩
    dependsOn := (dependsOnOf_eq_some.mp hdeps).2
  }

theorem exists_left_of_forall₂ {α β : Type} {R : α → β → Prop} {l : List α} {l' : List β}
    (h : List.Forall₂ R l l') {b : β} (hb : b ∈ l')
    : ∃ a ∈ l, R a b := by
  induction h with
  | nil => cases hb
  | @cons a b' l l' hab _ ih =>
    rw [List.mem_cons] at hb
    obtain rfl | hb := hb
    . exact ⟨a, List.mem_cons_self, hab⟩
    . obtain ⟨a', ha', hr⟩ := ih hb
      exact ⟨a', List.mem_cons_of_mem _ ha', hr⟩

section Step

variable {nodes : List PlanNode}

theorem Extended.keys (h : Extended plan parentId ids before nodes plan')
    : plan'.nodes.keys = plan.nodes.keys ++ nodes.map (·.id) := by
  unfold Dict.keys
  rw [h.entries, List.map_append, List.map_map]
  rfl

theorem Extended.mem_keys (h : Extended plan parentId ids before nodes plan')
    (hids : IdsFor plan.nodes.keys subtasks ids) {key : Key F} {id : String}
    (hget : ids.get key = some id)
    : id ∈ plan'.nodes.keys ↔ ∃ st ∈ before, keyOf st.id = some key := by
  rw [h.keys, List.mem_append, or_iff_right (hids.fresh key id hget), List.mem_map]
  constructor
  . rintro ⟨node, hnode, rfl⟩
    obtain ⟨st, hst, hmade⟩ := exists_left_of_forall₂ h.made hnode
    obtain ⟨key', hkey', hget'⟩ := hmade.id
    rw [hids.injective key key' node.id hget hget']
    exact ⟨st, hst, hkey'⟩
  . rintro ⟨st, hst, hkey⟩
    obtain ⟨node, hnode, hmade⟩ := exists_left_of_forall₂ h.made.flip hst
    obtain ⟨key', hkey', hget'⟩ := hmade.id
    rw [hkey, Option.some.injEq] at hkey'
    rw [hkey', hget', Option.some.injEq] at hget
    exact ⟨node, hnode, hget⟩

theorem Extended.refl (plan : Plan) (parentId : String) (ids : Dict (Key F) String)
    : Extended plan parentId ids [] [] plan := by
  refine ⟨rfl, rfl, rfl, rfl, ?_, .nil⟩
  simp

variable (now i) in
/--
A sub-task is added where it is insertable and its parent is in the plan, and only there.
-/
theorem Extended.addNode_iff (h : Extended plan parentId ids before nodes plan')
    (hids : IdsFor plan.nodes.keys subtasks ids) (hst : st ∈ subtasks)
    : (∃ node plan'', nodeOf plan'.id parentId now ids st i = some node ∧ plan'.addNode node = .ok plan'')
      ↔ Insertable subtasks before st ∧ parentId ∈ plan'.nodes.keys := by
  constructor
  . rintro ⟨node, plan'', hnode, hadd⟩
    have hmade := madeOf_of_nodeOf hnode
    rw [nodeOf_eq_some] at hnode
    obtain ⟨_, _, deps, description, priority, _, _, hdeps, hdescription, hpriority, htitle, _, _⟩ := hnode
    have hkind : node.kind ≠ .goal := by
      rw [hmade.kind]
      simp
    rw [Plan.addNode_eq_ok hkind, Plan.missingDeps_eq_empty, hmade.parentId] at hadd
    obtain ⟨hnew, _, ⟨parentId', hparent, hmem⟩, hmissing, _⟩ := hadd
    obtain ⟨key, hkey, hget⟩ := hmade.id
    refine ⟨⟨?_, (dependsOnOf_eq_some.mp hdeps).1, ?_, ⟨description, hdescription, htitle⟩, ?_⟩, ?_⟩
    . rintro st' hst' ⟨key', hkey', hsame⟩
      rw [hkey, Option.some.injEq] at hsame
      rw [← hsame] at hkey'
      exact hnew ((h.mem_keys hids hget).mpr ⟨st', hst', hkey'⟩)
    . rintro dep hdep ⟨st', hst', key', hdepKey, hkey'⟩
      obtain ⟨_, id', hkey'', hget'⟩ := hids.hashed st' hst'
      rw [hkey', Option.some.injEq] at hkey''
      rw [← hkey''] at hget'
      have hlisted := (hmade.dependsOn id').mpr ⟨dep, hdep, key', hdepKey, hget'⟩
      obtain ⟨st'', hst'', hfound⟩ := (h.mem_keys hids hget').mp (hmissing id' hlisted)
      exact ⟨st'', hst'', key', hdepKey, hfound⟩
    . rw [hpriority]
      rfl
    . rw [Option.mem_some_iff] at hparent
      rw [hparent]
      exact hmem
  . rintro ⟨hinsertable, hparent⟩
    obtain ⟨key, id, hkey, hget⟩ := hids.hashed st hst
    obtain ⟨description, hdescription, htitle⟩ := hinsertable.described
    obtain ⟨priority, hpriority⟩ := Option.isSome_iff_exists.mp hinsertable.prioritized
    obtain ⟨deps, hdeps⟩ := exists_dependsOnOf ids hinsertable.hashed
    have hmem := (dependsOnOf_eq_some.mp hdeps).2
    have hearlier (dep : Json F) (hdep : dep ∈ st.dependencies) (key' : Key F) (id' : String)
        (hdepKey : keyOf dep = some key') (hget' : ids.get key' = some id')
        : ∃ st' ∈ before, keyOf st'.id = some key' := by
      obtain ⟨st', hst', hkey'⟩ := hids.known key' id' hget'
      obtain ⟨st'', hst'', key'', hdepKey', hkey''⟩ := hinsertable.earlier dep hdep
        ⟨st', hst', key', hdepKey, hkey'⟩
      rw [hdepKey, Option.some.injEq] at hdepKey'
      rw [← hdepKey'] at hkey''
      exact ⟨st'', hst'', hkey''⟩
    have hfresh : ¬ ∃ st' ∈ before, keyOf st'.id = some key := by
      rintro ⟨st', hst', hkey'⟩
      exact hinsertable.fresh st' hst' ⟨key, hkey', hkey⟩
    have hself : id ∉ deps := by
      rw [hmem]
      rintro ⟨dep, hdep, key', hdepKey, hget'⟩
      rw [hids.injective key' key id hget' hget] at hdepKey hget'
      exact hfresh (hearlier dep hdep key id hdepKey hget')
    obtain ⟨node, hnode⟩ : ∃ node, nodeOf plan'.id parentId now ids st i = some node := by
      simp only [nodeOf_eq_some]
      exact ⟨_, key, id, deps, description, priority, hkey, hget, hdeps, hdescription, hpriority, htitle,
        hself, rfl⟩
    have hmade := madeOf_of_nodeOf hnode
    have hkind : node.kind ≠ .goal := by
      rw [hmade.kind]
      simp
    have hnew : node.id ∉ plan'.nodes.keys := by
      obtain ⟨key', hkey', hget'⟩ := hmade.id
      rw [hkey, Option.some.injEq] at hkey'
      rw [h.mem_keys hids hget', ← hkey']
      exact hfresh
    refine ⟨node, _, hnode, (Plan.addNode_eq_ok hkind).mpr ⟨hnew, hmade.planId, ?_, ?_, rfl⟩⟩
    . exact ⟨parentId, hmade.parentId, hparent⟩
    . rw [Plan.missingDeps_eq_empty]
      intro id' hid'
      obtain ⟨dep, hdep, key', hdepKey, hget'⟩ := (hmade.dependsOn id').mp hid'
      exact (h.mem_keys hids hget').mpr (hearlier dep hdep key' id' hdepKey hget')

theorem Extended.step (h : Extended plan parentId ids before nodes plan')
    (hnode : nodeOf plan'.id parentId now ids st i = some node) (hadd : plan'.addNode node = .ok plan'')
    : Extended plan parentId ids (before ++ [st]) (nodes ++ [node]) plan'' := by
  have hmade := madeOf_of_nodeOf hnode
  have hkind : node.kind ≠ .goal := by
    rw [hmade.kind]
    simp
  rw [Plan.addNode_eq_ok hkind] at hadd
  obtain ⟨hnew, _, _, _, rfl⟩ := hadd
  refine ⟨h.id, h.workspaceId, h.goalId, h.status, ?_, ?_⟩
  . have hentries : (plan'.setNode node).nodes.entries = plan'.nodes.entries ++ [(node.id, node)] :=
      Dict.entries_set_of_notMem hnew node
    rw [hentries, h.entries, List.map_append, List.append_assoc]
    rfl
  . rw [h.id] at hmade
    exact List.rel_append h.made (.cons hmade .nil)

variable (now) in
/--
The loop adds the sub-tasks one after the other, up to the first that is not insertable.
-/
theorem Extended.addTasks (h : Extended plan parentId ids before nodes plan')
    (hids : IdsFor plan.nodes.keys subtasks ids) (hparent : parentId ∈ plan.nodes.keys)
    (hbefore : AtEach (Insertable subtasks) before) {ts : List (DecomposedTask F × Nat)}
    (hts : ∀ t ∈ ts, t.1 ∈ subtasks)
    : ∃ done rest nodes', ts.map Prod.fst = done ++ rest
      ∧ Extended plan parentId ids (before ++ done) nodes' (addTasks parentId now ids ts plan').1
      ∧ AtEach (Insertable subtasks) (before ++ done)
      ∧ (rest = [] ∧ (addTasks parentId now ids ts plan').2 = true
        ∨ (∃ st rest', rest = st :: rest' ∧ ¬ Insertable subtasks (before ++ done) st)
          ∧ (addTasks parentId now ids ts plan').2 = false) := by
  induction ts generalizing before nodes plan' with
  | nil =>
    rw [← List.append_nil before] at h hbefore
    exact ⟨[], [], nodes, rfl, h, hbefore, .inl ⟨rfl, rfl⟩⟩
  | cons t ts ih =>
    have hmem : parentId ∈ plan'.nodes.keys := by
      rw [h.keys]
      exact List.mem_append_left _ hparent
    have hiff := h.addNode_iff now t.2 hids (hts t List.mem_cons_self)
    unfold LLMGoalPlanner.addTasks
    cases hadd : (nodeOf plan'.id parentId now ids t.1 t.2).bind fun node => (plan'.addNode node).toOption with
    | none =>
      rw [← List.append_nil before] at h hbefore
      refine ⟨[], (t :: ts).map Prod.fst, nodes, rfl, h, hbefore, .inr ⟨⟨t.1, ts.map Prod.fst, rfl, ?_⟩, rfl⟩⟩
      intro hinsertable
      rw [List.append_nil] at hinsertable
      obtain ⟨node, plan'', hnode, hok⟩ := hiff.mpr ⟨hinsertable, hmem⟩
      rw [hnode, Option.bind_some, hok] at hadd
      cases hadd
    | some plan'' =>
      simp only [Option.bind_eq_some_iff, toOption_eq_some] at hadd
      obtain ⟨node, hnode, hok⟩ := hadd
      have hinsertable := (hiff.mp ⟨node, plan'', hnode, hok⟩).1
      obtain ⟨done, rest, nodes', hsplit, hextended, heach, hend⟩ := ih (h.step hnode hok)
        ((atEach_concat _ _ _).mpr ⟨hbefore, hinsertable⟩) (fun t ht => hts t (List.mem_cons_of_mem _ ht))
      rw [List.append_assoc, List.singleton_append] at hextended heach hend
      exact ⟨t.1 :: done, rest, nodes', by rw [List.map_cons, hsplit, List.cons_append], hextended, heach, hend⟩

end Step

/--
The nodes stand for the sub-tasks, one for each and in their order, and depend on the nodes of the
sub-tasks that their own sub-task names.
-/
structure Corresponds (parentId : String) (subtasks : List (DecomposedTask F)) (nodes : List PlanNode)
    : Prop where
  length : nodes.length = subtasks.length
  nodup : (nodes.map (·.id)).Nodup
  task : ∀ (i : Nat) st node, subtasks[i]? = some st → nodes[i]? = some node →
    node.kind = .task ∧ node.parentId = some parentId ∧ st.description = .str node.description
      ∧ ∃ priority, intOf st.priority = some priority ∧ node.priority = priority.toNat
  dependsOn : ∀ (i : Nat) st node, subtasks[i]? = some st → nodes[i]? = some node →
    ∀ id, id ∈ node.dependsOn ↔ ∃ dep ∈ st.dependencies, ∃ (j : Nat) (st' : DecomposedTask F) (node' : PlanNode),
      subtasks[j]? = some st' ∧ nodes[j]? = some node' ∧ SameKey dep st'.id ∧ node'.id = id

theorem Extended.corresponds {nodes : List PlanNode} {used : List String}
    (h : Extended plan parentId ids subtasks nodes plan') (hids : IdsFor used subtasks ids)
    : Corresponds parentId subtasks nodes := by
  have hmade (i : Nat) (st : DecomposedTask F) (node : PlanNode) (hst : subtasks[i]? = some st)
      (hnode : nodes[i]? = some node)
      : MadeOf plan.id parentId ids st node := by
    apply (List.forall₂_iff_zip.mp h.made).2
    have hzip : (subtasks.zip nodes)[i]? = some (st, node) := by
      rw [List.getElem?_zip_eq_some]
      exact ⟨hst, hnode⟩
    exact List.mem_of_getElem? hzip
  refine ⟨h.made.length_eq.symm, ?_, ?_, ?_⟩
  . have hnodup := plan'.nodes.nodup
    rw [h.entries, List.map_append, List.map_map] at hnodup
    exact (List.nodup_append.mp hnodup).2.1
  . intro i st node hst hnode
    have hmade := hmade i st node hst hnode
    exact ⟨hmade.kind, hmade.parentId, hmade.description, hmade.priority⟩
  . intro i st node hst hnode id
    rw [(hmade i st node hst hnode).dependsOn]
    constructor
    . rintro ⟨dep, hdep, key, hdepKey, hget⟩
      obtain ⟨st', hst', hkey'⟩ := hids.known key id hget
      obtain ⟨j, hj⟩ := List.mem_iff_getElem?.mp hst'
      have hlt : j < nodes.length := by
        rw [← h.made.length_eq]
        exact (List.getElem?_eq_some_iff.mp hj).1
      obtain ⟨key', hkey'', hget'⟩ := (hmade j st' nodes[j] hj (List.getElem?_eq_getElem hlt)).id
      rw [hkey', Option.some.injEq] at hkey''
      rw [← hkey'', hget, Option.some.injEq] at hget'
      exact ⟨dep, hdep, j, st', nodes[j], hj, List.getElem?_eq_getElem hlt, ⟨key, hdepKey, hkey'⟩,
        hget'.symm⟩
    . rintro ⟨dep, hdep, j, st', node', hst', hnode', ⟨key, hdepKey, hkey'⟩, rfl⟩
      obtain ⟨key', hkey'', hget'⟩ := (hmade j st' node' hst' hnode').id
      rw [hkey', Option.some.injEq] at hkey''
      rw [← hkey''] at hget'
      exact ⟨dep, hdep, key, hdepKey, hget'⟩

end Lemmas

section Typed

variable {F : Type} [PyBuiltins F] [DecidableEq F] {newId : Nat → String} {planId : String} {now : Nat}
variable {subtasks : List SubTask} {ids : Dict (Key F) String}

def ofSubTask (st : SubTask) : DecomposedTask F where
  id := .str st.id
  description := .str st.description
  targetSubagent := .null
  dependencies := st.dependencies.map .str
  priority := .int st.priority

theorem exists_idsOf_ofSubTask (newId : Nat → String) (subtasks : List SubTask)
    : ∃ ids : Dict (Key F) String, idsOf (fun i => newId (i + 1)) (subtasks.map ofSubTask) = some ids ∧
        (∀ s, ids.get (.text s) = (idMap newId subtasks).get s) ∧
        ∀ st ∈ subtasks, ((idMap newId subtasks).get st.id).isSome := by
  induction subtasks using List.reverseRecOn with
  | nil => exact ⟨.empty, rfl, fun _ => rfl, by simp⟩
  | append_singleton subtasks st ih =>
    obtain ⟨ids, hids, hget, hsome⟩ := ih
    have hmap : idMap newId (subtasks ++ [st]) = (idMap newId subtasks).set st.id (newId (subtasks.length + 1)) := by
      unfold idMap
      rw [List.zipIdx_append, List.foldl_append]
      simp
    rw [List.map_append, List.map_singleton, idsOf_concat, hids, List.length_map, hmap]
    refine ⟨_, rfl, ?_, ?_⟩
    . intro s
      rw [Dict.get_set, Dict.get_set, hget]
      simp only [Key.text.injEq]
    . intro st' hmem
      rw [Dict.get_set]
      split
      . rfl
      . next hne =>
        rw [List.mem_append, List.mem_singleton] at hmem
        rcases hmem with hmem | rfl
        . exact hsome st' hmem
        . exact absurd rfl hne

variable (hstr : ∀ s, PyBuiltins.str (.str s : Json F) = s)
include hstr

theorem nodeOf_ofSubTask (hget : ∀ s, ids.get (.text s) = (idMap newId subtasks).get s) {st : SubTask}
    (hsome : ((idMap newId subtasks).get st.id).isSome) (i : Nat)
    : nodeOf planId (newId 0) now ids (ofSubTask st) i =
        (subtaskNode planId newId now subtasks i st).postInit.toOption.bind fun node =>
          (node.withDependsOn (subtaskDependencies newId subtasks st)).toOption := by
  obtain ⟨id, hid⟩ := Option.isSome_iff_exists.mp hsome
  have hdeps : dependsOnOf ids (ofSubTask st : DecomposedTask F) = some (subtaskDependencies newId subtasks st) := by
    unfold dependsOnOf subtaskDependencies ofSubTask
    have hkeys : st.dependencies.mapM (fun dep => keyOf (F := F) (.str dep)) = some (st.dependencies.map .text) :=
      List.mapM_pure
    simp [List.mapM_map, Function.comp_def, hkeys, List.filterMap_map, hget]
  unfold nodeOf subtaskNode nodeIdOf
  rw [hdeps]
  simp only [ofSubTask, keyOf, Option.bind_eq_bind, Option.bind_some, hget, hid, Json.asStr, intOf, titleOf, hstr,
    Option.getD_some]
  rfl

theorem addTasks_ofSubTask (hget : ∀ s, ids.get (.text s) = (idMap newId subtasks).get s) {l : List (SubTask × Nat)}
    (hsome : ∀ t ∈ l, ((idMap newId subtasks).get t.1.id).isSome) {plan : Plan} (hplan : plan.id = planId)
    : (addSubtasks planId newId now subtasks l plan).toOption =
        let added := addTasks (newId 0) now ids (l.map (Prod.map ofSubTask id)) plan
        if added.2 then some added.1 else none := by
  induction l generalizing plan with
  | nil => rfl
  | cons t l ih =>
    rw [List.forall_mem_cons] at hsome
    rw [List.map_cons, addTasks, addSubtasks, Prod.map_fst, Prod.map_snd, id, hplan,
      nodeOf_ofSubTask hstr hget hsome.1]
    simp only [addSubtask, toOption_bind, Option.bind_assoc]
    cases (subtaskNode planId newId now subtasks t.2 t.1).postInit.toOption with
    | none => rfl
    | some node =>
      simp only [Option.bind_some]
      cases (node.withDependsOn (subtaskDependencies newId subtasks t.1)).toOption with
      | none => rfl
      | some node =>
        simp only [Option.bind_some]
        cases hadd : (plan.addNode node).toOption with
        | none => rfl
        | some plan' =>
          apply ih hsome.2
          rw [(Plan.follows_of_addNode (toOption_eq_some.mp hadd)).2.2]
          exact hplan

/--
On sub-tasks whose ids, texts and priorities have the types that the domain gives them, the two models of
`LLMGoalPlanner.plan` agree.
-/
theorem planDecomposed_ofSubTask {goal : GoalSpec} (hworkspace : goal.workspaceId ≠ "")
    (conversationContext : Option String) (subtasks : List SubTask)
    : planDecomposed planId newId now goal conversationContext (subtasks.map (ofSubTask (F := F)))
        = (plan planId newId now goal conversationContext (.subtasks [] subtasks)).toOption := by
  obtain ⟨ids, hids, hget, hsome⟩ := exists_idsOf_ofSubTask (F := F) newId subtasks
  unfold planDecomposed plan
  simp only [toOption_bind, guard, if_pos hworkspace, Option.pure_def, Option.bind_eq_bind, Option.bind_some]
  cases hpost : (goalNode planId newId now goal conversationContext).postInit.toOption with
  | none => rfl
  | some goal' =>
    simp only [Option.bind_some]
    cases hadd : ((emptyPlan planId newId goal).addNode goal').toOption with
    | none => rfl
    | some base =>
      have hbase : base.id = planId := by
        rw [(Plan.follows_of_addNode (toOption_eq_some.mp hadd)).2.2]
        rfl
      have hgoal : goal'.id = newId 0 := by
        rw [(postInit_eq_ok.mp (toOption_eq_some.mp hpost)).2]
        rfl
      have hadded : (addSubtasks planId newId now subtasks subtasks.zipIdx base).toOption = _ :=
        addTasks_ofSubTask hstr hget (fun t ht => hsome t.1 (List.fst_mem_of_mem_zipIdx ht)) hbase
      have hzip : (subtasks.map ofSubTask).zipIdx = subtasks.zipIdx.map (Prod.map (ofSubTask (F := F)) id) :=
        List.zipIdx_map
      have hmetadata : (withPlanningMetadata base goal' []).toOption = some base := rfl
      rw [← hzip, ← hgoal] at hadded
      cases subtasks with
      | nil =>
        simp only [Option.bind_some]
        exact (toOption_bind _ _).symm
      | cons st subtasks =>
        rw [Option.bind_some, List.map_cons]
        simp only [← List.map_cons]
        rw [hids, Option.bind_some, Option.bind_some, hmetadata, Option.bind_some]
        generalize addTasks goal'.id now ids ((st :: subtasks).map ofSubTask).zipIdx base = run at hadded ⊢
        obtain ⟨base', done⟩ := run
        cases done <;> exact hadded.symm

end Typed

section Claim

variable {F : Type} [PyBuiltins F] [DecidableEq F]

/--
Drawn ids, none of which is drawn twice or is in use.
-/
structure FreshIds (used : List String) where
  value : Nat → String
  injective : Function.Injective value
  fresh : ∀ n, value n ∉ used

def Hashed (subtasks : List (DecomposedTask F)) : Prop :=
  ∀ st ∈ subtasks, (keyOf st.id).isSome

def Planned (planId : String) (newId : Nat → String) (now : Nat) (goal : GoalSpec)
    (conversationContext : Option String) (subtasks : List (DecomposedTask F)) : Prop :=
  ∃ plan, planDecomposed planId newId now goal conversationContext subtasks = some plan
    ∧ Corresponds plan.goalId subtasks (plan.nodes.values.filter (·.kind = .task))

def ExpandsWhole (plan : Plan) (node : PlanNode) (maxDepth : Int) (newId : Nat → String) (now : Nat)
    (subtasks : List (DecomposedTask F)) : Prop :=
  (expand plan node maxDepth newId now subtasks).1 = plan
    ∨ ∃ nodes, Corresponds node.id subtasks nodes
        ∧ (expand plan node maxDepth newId now subtasks).1.nodes.entries
            = plan.nodes.entries ++ nodes.map fun node => (node.id, node)

variable {subtasks : List (DecomposedTask F)}

theorem addTasks_facts {plan : Plan} {parentId : String} (now : Nat) {ids : Dict (Key F) String}
    (hids : IdsFor plan.nodes.keys subtasks ids) (hparent : parentId ∈ plan.nodes.keys)
    : ∃ before rest nodes, subtasks = before ++ rest
      ∧ Extended plan parentId ids before nodes (addTasks parentId now ids subtasks.zipIdx plan).1
      ∧ AtEach (Insertable subtasks) before
      ∧ (rest = [] ∧ (addTasks parentId now ids subtasks.zipIdx plan).2 = true
        ∨ (∃ st rest', rest = st :: rest' ∧ ¬ Insertable subtasks before st)
          ∧ (addTasks parentId now ids subtasks.zipIdx plan).2 = false) := by
  obtain ⟨before, rest, nodes, hsplit, hextended, heach, hend⟩ := (Extended.refl plan parentId ids).addTasks
    now hids hparent (atEach_nil _) (fun t (ht : t ∈ subtasks.zipIdx) => List.fst_mem_of_mem_zipIdx ht)
  rw [List.zipIdx_map_fst] at hsplit
  exact ⟨before, rest, nodes, hsplit, hextended, heach, hend⟩

theorem addTasks_of_atEach {plan : Plan} {parentId : String} (now : Nat) {ids : Dict (Key F) String}
    (hids : IdsFor plan.nodes.keys subtasks ids) (hparent : parentId ∈ plan.nodes.keys)
    (heach : AtEach (Insertable subtasks) subtasks)
    : ∃ nodes, Extended plan parentId ids subtasks nodes (addTasks parentId now ids subtasks.zipIdx plan).1
      ∧ (addTasks parentId now ids subtasks.zipIdx plan).2 = true := by
  obtain ⟨before, rest, nodes, hsplit, hextended, _, ⟨rfl, htrue⟩ | ⟨⟨st, rest', rfl, hnot⟩, _⟩⟩ :=
    addTasks_facts now hids hparent
  . rw [List.append_nil] at hsplit
    rw [← hsplit] at hextended
    exact ⟨nodes, hextended, htrue⟩
  . exact absurd (heach before st rest' hsplit) hnot

theorem planDecomposed_eq_some {planId : String} {newId : Nat → String} {now : Nat} {goal : GoalSpec}
    {conversationContext : Option String} {plan : Plan} (hne : subtasks ≠ [])
    : planDecomposed planId newId now goal conversationContext subtasks = some plan
      ↔ goal.workspaceId ≠ "" ∧ Text.strip goal.title ≠ ""
        ∧ ∃ ids, idsOf (fun i => newId (i + 1)) subtasks = some ids
          ∧ addTasks (newId 0) now ids subtasks.zipIdx
              ((emptyPlan planId newId goal).setNode (goalNode planId newId now goal conversationContext))
            = (plan, true) := by
  have hadd (plan : Plan)
      : (emptyPlan planId newId goal).addNode (goalNode planId newId now goal conversationContext) = .ok plan
        ↔ plan = (emptyPlan planId newId goal).setNode (goalNode planId newId now goal conversationContext) := by
    rw [Plan.addNode_goal_eq_ok rfl, Plan.missingDeps_eq_empty]
    simp [emptyPlan, goalNode, Plan.findGoal, Dict.keys, Dict.values, Dict.empty]
  cases subtasks with
  | nil => contradiction
  | cons st sts =>
    have hend (r : Plan × Bool)
        : (match r with
            | (plan, true) => some plan
            | (_, false) => none) = some plan ↔ r = (plan, true) := by
      obtain ⟨plan', done⟩ := r
      cases done <;> simp
    have hworkspace (u : Unit) : guard (goal.workspaceId ≠ "") = some u ↔ goal.workspaceId ≠ "" := by
      by_cases h : goal.workspaceId = "" <;> simp [guard, h]
    unfold planDecomposed
    simp only [Option.bind_eq_bind, Option.bind_eq_some_iff, toOption_eq_some, postInit_eq_ok, hworkspace,
      hend, exists_const, and_assoc]
    constructor
    . rintro ⟨hid, goalNode', htitle, rfl, plan', hok, ids, hids, hadded⟩
      rw [hadd] at hok
      rw [hok] at hadded
      exact ⟨hid, htitle, ids, hids, hadded⟩
    . rintro ⟨hid, htitle, ids, hids, hadded⟩
      exact ⟨hid, _, htitle, rfl, _, (hadd _).mpr rfl, ids, hids, hadded⟩

section Base

variable {planId : String} {newId : Nat → String} {now : Nat} {goal : GoalSpec}
  {conversationContext : Option String}

theorem entries_base
    : ((emptyPlan planId newId goal).setNode (goalNode planId newId now goal conversationContext)).nodes.entries
      = [(newId 0, goalNode planId newId now goal conversationContext)] := by
  rfl

theorem keys_base
    : ((emptyPlan planId newId goal).setNode (goalNode planId newId now goal conversationContext)).nodes.keys
      = [newId 0] := by
  rfl

end Base

theorem planned_iff (planId : String) (ids : FreshIds []) (now : Nat) (goal : GoalSpec)
    (conversationContext : Option String) (hne : subtasks ≠ [])
    : Planned planId ids.value now goal conversationContext subtasks
      ↔ goal.workspaceId ≠ "" ∧ Text.strip goal.title ≠ "" ∧ Hashed subtasks
        ∧ AtEach (Insertable subtasks) subtasks := by
  have hidsFor {drawn : Dict (Key F) String} (h : idsOf (fun i => ids.value (i + 1)) subtasks = some drawn)
      : IdsFor ((emptyPlan planId ids.value goal).setNode
          (goalNode planId ids.value now goal conversationContext)).nodes.keys subtasks drawn := by
    apply idsFor_of_idsOf _ _ h
    . intro i j heq
      have := ids.injective heq
      omega
    . intro n hmem
      rw [keys_base, List.mem_singleton] at hmem
      have := ids.injective hmem
      omega
  have hparent : ids.value 0 ∈ ((emptyPlan planId ids.value goal).setNode
      (goalNode planId ids.value now goal conversationContext)).nodes.keys := by
    rw [keys_base]
    exact List.mem_singleton_self _
  unfold Planned
  simp only [planDecomposed_eq_some hne]
  constructor
  . rintro ⟨plan, ⟨hworkspace, htitle, drawn, hdrawn, hadded⟩, _⟩
    refine ⟨hworkspace, htitle, exists_idsOf_iff.mp ⟨drawn, hdrawn⟩, ?_⟩
    obtain ⟨before, rest, nodes, hsplit, _, heach, ⟨rfl, _⟩ | ⟨_, hfalse⟩⟩ :=
      addTasks_facts now (hidsFor hdrawn) hparent
    . rw [List.append_nil] at hsplit
      rw [hsplit]
      rwa [hsplit] at heach
    . rw [hadded] at hfalse
      cases hfalse
  . rintro ⟨hworkspace, htitle, hhashed, heach⟩
    obtain ⟨drawn, hdrawn⟩ := exists_idsOf_iff.mpr hhashed
    obtain ⟨nodes, hextended, htrue⟩ := addTasks_of_atEach now (hidsFor hdrawn) hparent heach
    refine ⟨_, ⟨hworkspace, htitle, drawn, hdrawn, Prod.ext rfl htrue⟩, ?_⟩
    rw [hextended.goalId]
    have hnodes : ∀ node ∈ nodes, node.kind = .task := by
      intro node hnode
      obtain ⟨_, _, hmade⟩ := exists_left_of_forall₂ hextended.made hnode
      exact hmade.kind
    have hfilter : nodes.filter (·.kind = .task) = nodes := by
      rw [List.filter_eq_self]
      intro node hnode
      rw [hnodes node hnode]
      rfl
    unfold Dict.values
    rw [hextended.entries, entries_base, List.map_append, List.map_map, List.filter_append]
    have hmap : nodes.map (Prod.snd ∘ fun node => (node.id, node)) = nodes := List.map_id nodes
    rw [hmap, hfilter]
    exact hextended.corresponds (hidsFor hdrawn)

theorem Extended.eq_of_nil {plan plan' : Plan} {parentId : String} {ids : Dict (Key F) String}
    {nodes : List PlanNode} (h : Extended plan parentId ids [] nodes plan')
    : plan' = plan := by
  have hnodes : nodes = [] := by
    have hlength := h.made.length_eq
    exact List.eq_nil_of_length_eq_zero hlength.symm
  have hentries := h.entries
  rw [hnodes, List.map_nil, List.append_nil] at hentries
  have hdict := Dict.ext_entries hentries
  obtain ⟨hid, hworkspaceId, hgoalId, hstatus, _, _⟩ := h
  cases plan
  cases plan'
  simp_all

theorem addTasks_of_notMem {plan : Plan} {parentId : String} (now : Nat) {ids : Dict (Key F) String}
    (hids : IdsFor plan.nodes.keys subtasks ids) (hparent : parentId ∉ plan.nodes.keys)
    : (addTasks parentId now ids subtasks.zipIdx plan).1 = plan := by
  cases hzip : subtasks.zipIdx with
  | nil => rfl
  | cons t ts =>
    have hmem : t.1 ∈ subtasks := by
      apply List.fst_mem_of_mem_zipIdx (k := 0)
      rw [hzip]
      exact List.mem_cons_self
    have hiff := (Extended.refl plan parentId ids).addNode_iff now t.2 hids hmem
    unfold addTasks
    cases hadd : (nodeOf plan.id parentId now ids t.1 t.2).bind fun node => (plan.addNode node).toOption with
    | none => rfl
    | some plan' =>
      simp only [Option.bind_eq_some_iff, toOption_eq_some] at hadd
      obtain ⟨node, hnode, hok⟩ := hadd
      exact absurd (hiff.mp ⟨node, plan', hnode, hok⟩).2 hparent

theorem expandsWhole_iff (plan : Plan) (node : PlanNode) (maxDepth : Int) (ids : FreshIds plan.nodes.keys)
    (now : Nat)
    : ExpandsWhole plan node maxDepth ids.value now subtasks
      ↔ expandable plan node maxDepth subtasks = false ∨ node.id ∉ plan.nodes.keys ∨ ¬ Hashed subtasks
        ∨ (∃ st ∈ subtasks.head?, ¬ Insertable subtasks [] st)
        ∨ AtEach (Insertable subtasks) subtasks := by
  unfold ExpandsWhole expand
  cases hexpandable : expandable plan node maxDepth subtasks with
  | false => simp
  | true =>
    simp only [if_true, Bool.true_eq_false, false_or]
    cases hdrawn : idsOf ids.value subtasks with
    | none =>
      have hnot : ¬ Hashed subtasks := by
        intro hhashed
        obtain ⟨drawn, hsome⟩ := (exists_idsOf_iff.mpr hhashed : ∃ drawn, idsOf ids.value subtasks = some drawn)
        rw [hdrawn] at hsome
        cases hsome
      simp [hnot]
    | some drawn =>
      have hhashed : Hashed subtasks := exists_idsOf_iff.mp ⟨drawn, hdrawn⟩
      have hids := idsFor_of_idsOf ids.injective ids.fresh hdrawn
      by_cases hparent : node.id ∈ plan.nodes.keys
      . simp only [hparent, hhashed, not_true, false_or]
        obtain ⟨before, rest, nodes, hsplit, hextended, heach, ⟨rfl, _⟩ | ⟨⟨st, rest', rfl, hnot⟩, _⟩⟩ :=
          addTasks_facts now hids hparent
        . rw [List.append_nil] at hsplit
          rw [← hsplit] at hextended heach
          exact iff_of_true (.inr ⟨nodes, hextended.corresponds hids, hextended.entries⟩) (.inr heach)
        . cases before with
          | nil =>
            apply iff_of_true (.inl hextended.eq_of_nil)
            rw [hsplit] at hnot ⊢
            exact .inl ⟨st, rfl, hnot⟩
          | cons first before =>
            -- some nodes have been added, and some have not
            have hlength := hextended.made.length_eq
            apply iff_of_false
            . rintro (hsame | ⟨nodes', hcorresponds, hentries⟩)
              . have hentries := congrArg (fun plan => plan.nodes.entries.length) hsame
                rw [hextended.entries, List.length_append, List.length_map, ← hlength, List.length_cons]
                  at hentries
                omega
              . have hsame := congrArg List.length hentries
                rw [hextended.entries, List.length_append, List.length_append, List.length_map,
                  List.length_map, hcorresponds.length, ← hlength, hsplit, List.length_append,
                  List.length_cons (a := st)] at hsame
                omega
            . rintro (⟨st', hhead, hnot'⟩ | hall)
              . rw [hsplit, List.cons_append, List.head?_cons, Option.mem_some_iff] at hhead
                rw [← hhead] at hnot'
                exact hnot' (heach [] first before rfl)
              . exact hnot (hall (first :: before) st rest' hsplit)
      . simp only [hparent, not_false_iff, true_or, iff_true]
        left
        exact addTasks_of_notMem now hids hparent

theorem length_of_mapM {α β : Type} {f : α → Option β} {l : List α} {l' : List β} (h : l.mapM f = some l')
    : l'.length = l.length := by
  induction l generalizing l' with
  | nil =>
    rw [List.mapM_nil] at h
    cases h
    rfl
  | cons a l ih =>
    simp only [List.mapM_cons, Option.bind_eq_bind, Option.bind_eq_some_iff, Option.pure_def,
      Option.some.injEq] at h
    obtain ⟨b, _, bs, hbs, rfl⟩ := h
    rw [List.length_cons, List.length_cons, ih hbs]

omit [PyBuiltins F] [DecidableEq F] in
theorem parsed_ne_nil [PyFloat F] {maxSubtasks : Int} {args : List (String × Json F)} {query : String}
    {result : Agent.Subagent.DecompositionResult F}
    (h : TaskDecomposer.parseArguments maxSubtasks args query = some result)
    : result.subtasks ≠ [] := by
  unfold TaskDecomposer.parseArguments at h
  dsimp only at h
  split at h
  . next htruthy =>
    simp only [Option.bind_eq_bind, Option.bind_eq_some_iff, Option.pure_def, Option.some.injEq] at h
    obtain ⟨limited, hlimited, tasks, htasks, subtasks, hsubtasks, rfl⟩ := h
    have hlength := length_of_mapM hsubtasks
    rw [List.length_zipIdx] at hlength
    have htasksNe : tasks ≠ [] := by
      generalize (Json.get args "subtasks").getD (.list []) = raw at htruthy hlimited
      cases raw with
      | list items =>
        simp only [Json.sliced, Option.some.injEq] at hlimited
        rw [← hlimited] at htasks
        simp only [Json.iterated, Option.some.injEq] at htasks
        simp only [Json.truthy, Bool.not_eq_true', List.isEmpty_eq_false_iff] at htruthy
        rw [← htasks, Ne, List.take_eq_nil_iff]
        simp [htruthy]
      | str s =>
        simp only [Json.sliced, Option.some.injEq] at hlimited
        rw [← hlimited] at htasks
        simp only [Json.iterated, Option.some.injEq, String.toList_ofList] at htasks
        simp only [Json.truthy, decide_eq_true_eq] at htruthy
        rw [← htasks, Ne, List.map_eq_nil_iff, List.take_eq_nil_iff, String.toList_eq_nil_iff]
        simp [htruthy]
      | null => cases hlimited
      | bool b => cases hlimited
      | int n => cases hlimited
      | float x => cases hlimited
      | dict entries => cases hlimited
    intro hnil
    have hempty : subtasks = [] := hnil
    rw [hempty] at hlength
    exact htasksNe (List.eq_nil_of_length_eq_zero hlength.symm)
  . cases h
    simp

/--
The planner turns a decomposition into a plan, and expands a node with all of it or not at all, exactly
where the sub-tasks can be added in the order that the model gave them in.
-/
theorem decomposition_added_iff [PyFloat F] {maxSubtasks : Int} {args : List (String × Json F)} {query : String}
    {result : Agent.Subagent.DecompositionResult F}
    (h : TaskDecomposer.parseArguments maxSubtasks args query = some result)
    : (∀ planId (ids : FreshIds []) now goal conversationContext,
        Planned planId ids.value now goal conversationContext result.subtasks
          ↔ goal.workspaceId ≠ "" ∧ Text.strip goal.title ≠ "" ∧ Hashed result.subtasks
            ∧ AtEach (Insertable result.subtasks) result.subtasks)
      ∧ ∀ plan node maxDepth (ids : FreshIds plan.nodes.keys) now,
        ExpandsWhole plan node maxDepth ids.value now result.subtasks
          ↔ expandable plan node maxDepth result.subtasks = false ∨ node.id ∉ plan.nodes.keys
            ∨ ¬ Hashed result.subtasks
            ∨ (∃ st ∈ result.subtasks.head?, ¬ Insertable result.subtasks [] st)
            ∨ AtEach (Insertable result.subtasks) result.subtasks := by
  constructor
  . intro planId ids now goal conversationContext
    exact planned_iff planId ids now goal conversationContext (parsed_ne_nil h)
  . intro plan node maxDepth ids now
    exact expandsWhole_iff plan node maxDepth ids now

end Claim

section Example

instance : PyBuiltins Nat where
  whole n := some n
  truncated n := some n
  ofText s := (digits s).map Int.ofNat
  str
    | .str s => s
    | _ => ""

def rawTask (id description : String) (dependsOn : List String) : Json Nat :=
  .dict [
    ("id", .str id),
    ("description", .str description),
    ("depends_on", .list (dependsOn.map .str))
  ]

def taskFor (id description : String) (dependencies : List String) : DecomposedTask Nat where
  id := .str id
  description := .str description
  targetSubagent := .null
  dependencies := dependencies.map .str
  priority := .int 0

def nodeIds (used : List String) (h : ∀ n, String.ofList ('n' :: List.replicate n 'i') ∉ used)
    : FreshIds used where
  value n := String.ofList ('n' :: List.replicate n 'i')
  injective := by
    intro m n heq
    rw [String.ofList_inj, List.cons.injEq, List.replicate_left_inj] at heq
    exact heq.2
  fresh := h

def buildThenTest : List (DecomposedTask Nat) :=
  [taskFor "t1" "Build" [], taskFor "t2" "Test" ["t1"]]

theorem decomposition_added_in_order
    : Planned "plan" (nodeIds [] (by simp)).value 0 { workspaceId := "ws", title := "Ship" } none
        buildThenTest := by
  have hparse : TaskDecomposer.parseArguments 8
      [("subtasks", .list [rawTask "t1" "Build" [], rawTask "t2" "Test" ["t1"]])] "Ship"
      = some { subtasks := buildThenTest, reasoning := .str "", isDecomposed := true } := by
    rfl
  apply ((decomposition_added_iff hparse).1 _ _ _ _ _).mpr
  refine ⟨by decide, by decide, ?_, ?_⟩
  . simp [Hashed, buildThenTest, taskFor, keyOf]
  . have hconcat : buildThenTest = ([] ++ [taskFor "t1" "Build" []]) ++ [taskFor "t2" "Test" ["t1"]] := rfl
    rw [hconcat, atEach_concat, atEach_concat]
    refine ⟨⟨atEach_nil _, ?_⟩, ?_⟩
    . refine ⟨by simp, by simp [taskFor], by simp [taskFor], ⟨"Build", rfl, ?_⟩, rfl⟩
      decide
    . refine ⟨?_, ?_, ?_, ⟨"Test", rfl, ?_⟩, rfl⟩
      . simp [taskFor, SameKey, keyOf]
      . simp [taskFor, keyOf]
      . simp [taskFor, SameKey, keyOf]
      . decide

def outOfOrder : List (DecomposedTask Nat) :=
  [taskFor "t1" "Build" [], taskFor "t2" "Release" ["t3"], taskFor "t3" "Test" ["t1"]]

def workNode : PlanNode where
  id := "work"
  planId := "plan"
  parentId := some "goal"
  title := "Work"

def workPlan : Plan :=
  Plan.build "plan" "ws" "goal" [{ id := "goal", planId := "plan", kind := .goal, title := "Ship" }, workNode]

theorem out_of_order_half_expanded
    : TaskDecomposer.parseArguments 8
        [("subtasks", .list [rawTask "t1" "Build" [], rawTask "t2" "Release" ["t3"], rawTask "t3" "Test" ["t1"]])]
        "Ship"
      = some { subtasks := outOfOrder, reasoning := .str "", isDecomposed := true }
    ∧ ¬ Planned "plan" (nodeIds [] (by simp)).value 0 { workspaceId := "ws", title := "Ship" } none outOfOrder
    ∧ ¬ ExpandsWhole workPlan workNode 2 (nodeIds [] (by simp)).value 0 outOfOrder := by
  have hplan : planDecomposed "plan" (nodeIds [] (by simp)).value 0 { workspaceId := "ws", title := "Ship" } none
      outOfOrder = none := by
    rfl
  have hlength : (expand workPlan workNode 2 (nodeIds [] (by simp)).value 0 outOfOrder).1.nodes.entries.length
      = workPlan.nodes.entries.length + 1 := by
    rfl
  refine ⟨rfl, ?_, ?_⟩
  . rintro ⟨plan, hsome, _⟩
    rw [hplan] at hsome
    cases hsome
  . rintro (hsame | ⟨nodes, hcorresponds, hentries⟩)
    . rw [hsame] at hlength
      omega
    . have htasks : outOfOrder.length = 3 := rfl
      rw [hentries, List.length_append, List.length_map, hcorresponds.length, htasks] at hlength
      omega

end Example

end LLMGoalPlanner

end Workspace
end MemStack
