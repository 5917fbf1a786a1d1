import MemStack.Trace.RunDigest

/-!
This module contains what a digest says about a run: it depends on the events and not on their order, its counts
are exact, and when its key thoughts are the most recent ones.
-/

namespace MemStack
namespace Trace

open Tally

variable {events events' : List TraceEvent}

def touches (path : String) (ev : TraceEvent) : Bool :=
  ev.path = some path

def uses (name : String) (ev : TraceEvent) : Bool :=
  ev.tool = some name

def calls (name : String) (ev : TraceEvent) : Bool :=
  ev.kind = .toolCall ∧ ev.tool = some name

def fails (name : String) (ev : TraceEvent) : Bool :=
  ev.isFailure ∧ ev.tool = some name

section Sorted

theorem sortedEvents_perm (events : List TraceEvent) : (sortedEvents events).Perm events :=
  List.perm_insertionSort _ events

theorem sortedEvents_eq_of_perm (hdistinct : (events.map TraceEvent.timestamp).Nodup) (hperm : events'.Perm events)
    : sortedEvents events' = sortedEvents events := by
  have hsorted : ∀ l : List TraceEvent, (sortedEvents l).Pairwise fun a b => a.timestamp ≤ b.timestamp :=
    fun l => List.pairwise_insertionSort (fun a b : TraceEvent => a.timestamp ≤ b.timestamp) l
  apply List.Perm.eq_of_pairwise _ (hsorted events') (hsorted events)
  . exact (sortedEvents_perm events').trans (hperm.trans (sortedEvents_perm events).symm)
  . intro a b ha hb hab hba
    have ha' := hperm.mem_iff.mp ((sortedEvents_perm events').mem_iff.mp ha)
    have hb' := (sortedEvents_perm events).mem_iff.mp hb
    exact List.inj_on_of_nodup_map hdistinct ha' hb' (le_antisymm hab hba)

end Sorted

section Counts

theorem FileTally.get_add (s : FileTally) (ev : TraceEvent) (path : String)
    : (s.add ev).countByPath.get path =
        if touches path ev then
          some ((s.countByPath.get path).getD 0 + if touches path ev then 1 else 0)
        else
          s.countByPath.get path := by
  unfold FileTally.add touches
  cases ev.path with
  | none => simp
  | some touched =>
    dsimp only
    rw [Dict.get_bump]
    by_cases heq : path = touched
    . simp [heq]
    . simp [heq, Ne.symm heq]

theorem ToolTally.get_calls_add (s : ToolTally) (ev : TraceEvent) (name : String)
    : (s.add ev).callsByName.get name =
        if uses name ev then
          some ((s.callsByName.get name).getD 0 + if calls name ev then 1 else 0)
        else
          s.callsByName.get name := by
  unfold ToolTally.add uses calls
  cases ev.tool with
  | none => simp
  | some used =>
    by_cases hcall : ev.kind = .toolCall
    . by_cases heq : name = used
      . simp [hcall, heq]
      . simp [hcall, heq, Ne.symm heq]
    . by_cases heq : name = used
      . cases ev.isFailure <;> simp [hcall, heq]
      . cases ev.isFailure <;> simp [hcall, heq, Ne.symm heq]

theorem ToolTally.get_failures_add (s : ToolTally) (ev : TraceEvent) (name : String)
    : (s.add ev).failuresByName.get name =
        if uses name ev then
          some ((s.failuresByName.get name).getD 0 + if fails name ev then 1 else 0)
        else
          s.failuresByName.get name := by
  unfold ToolTally.add uses fails
  cases ev.tool with
  | none => simp
  | some used =>
    by_cases hcall : ev.kind = .toolCall
    . have hfail : ev.isFailure = false := by simp [TraceEvent.isFailure, hcall]
      by_cases heq : name = used
      . simp [hcall, heq, hfail]
      . simp [hcall, heq, Ne.symm heq]
    . by_cases heq : name = used
      . cases hfail : ev.isFailure <;> simp [hcall, heq]
      . cases hfail : ev.isFailure <;> simp [hcall, heq, Ne.symm heq]

theorem counts_files (events : List TraceEvent)
    : Counts touches touches events (events.foldl FileTally.add {}).countByPath := by
  induction events using List.reverseRecOn with
  | nil => exact counts_nil
  | append_singleton past ev ih =>
    rw [List.foldl_concat]
    exact ih.concat (fun _ _ h => h) (FileTally.get_add _ ev)

theorem uses_of_calls (name : String) (ev : TraceEvent) (h : calls name ev) : uses name ev := by
  simp only [calls, uses, decide_eq_true_eq] at h ⊢
  exact h.2

theorem uses_of_fails (name : String) (ev : TraceEvent) (h : fails name ev) : uses name ev := by
  simp only [fails, uses, decide_eq_true_eq] at h ⊢
  exact h.2

theorem counts_calls (events : List TraceEvent)
    : Counts uses calls events (events.foldl ToolTally.add {}).callsByName := by
  induction events using List.reverseRecOn with
  | nil => exact counts_nil
  | append_singleton past ev ih =>
    rw [List.foldl_concat]
    exact ih.concat uses_of_calls (ToolTally.get_calls_add _ ev)

theorem counts_failures (events : List TraceEvent)
    : Counts uses fails events (events.foldl ToolTally.add {}).failuresByName := by
  induction events using List.reverseRecOn with
  | nil => exact counts_nil
  | append_singleton past ev ih =>
    rw [List.foldl_concat]
    exact ih.concat uses_of_fails (ToolTally.get_failures_add _ ev)

theorem aggregateErrors_count (events : List TraceEvent)
    : (aggregateErrors events).1 = events.countP TraceEvent.isError := by
  unfold aggregateErrors
  induction events using List.reverseRecOn with
  | nil => rfl
  | append_singleton past ev ih =>
    dsimp only at ih ⊢
    rw [List.foldl_concat, List.countP_append, List.countP_singleton, ← ih]
    unfold addError
    cases ev.isError
    . rfl
    . cases truthy ev.summary <;> rfl

end Counts

section Entries

structure Counted (events : List TraceEvent) (digest : TraceRunDigest) : Prop where
  touched : ∀ path, path ∈ digest.filesTouched.map FileDigestEntry.path ↔ ∃ ev ∈ events, touches path ev
  used : ∀ name, name ∈ digest.toolCalls.map ToolDigestEntry.name ↔ ∃ ev ∈ events, uses name ev
  once : (digest.filesTouched.map FileDigestEntry.path).Nodup ∧ (digest.toolCalls.map ToolDigestEntry.name).Nodup
  touchCount : ∀ entry ∈ digest.filesTouched, entry.touchCount = events.countP (touches entry.path)
  callCount : ∀ entry ∈ digest.toolCalls, entry.count = events.countP (calls entry.name)
  failureCount : ∀ entry ∈ digest.toolCalls, entry.failures = events.countP (fails entry.name)
  errorCount : digest.errorCount = events.countP TraceEvent.isError

theorem map_path_aggregateFiles (events : List TraceEvent)
    : ((aggregateFiles events).map FileDigestEntry.path).Perm
        (events.foldl FileTally.add {}).countByPath.keys := by
  unfold aggregateFiles
  dsimp only
  apply ((List.perm_insertionSort _ _).map FileDigestEntry.path).trans
  rw [List.map_map]
  exact List.Perm.of_eq (List.map_id _)

theorem map_name_aggregateTools (events : List TraceEvent)
    : ((aggregateTools events).map ToolDigestEntry.name).Perm
        (events.foldl ToolTally.add {}).callsByName.keys := by
  unfold aggregateTools
  dsimp only
  apply ((List.perm_insertionSort _ _).map ToolDigestEntry.name).trans
  rw [List.map_map]
  exact List.Perm.of_eq (List.map_id _)

theorem touchCount_of_mem {entry : FileDigestEntry} (h : entry ∈ aggregateFiles events)
    : entry.touchCount = events.countP (touches entry.path) := by
  unfold aggregateFiles at h
  dsimp only at h
  rw [List.mem_insertionSort, List.mem_map] at h
  obtain ⟨path, -, rfl⟩ := h
  exact (counts_files events).getD_eq fun _ _ h => h

theorem counts_of_mem {entry : ToolDigestEntry} (h : entry ∈ aggregateTools events)
    : entry.count = events.countP (calls entry.name) ∧ entry.failures = events.countP (fails entry.name) := by
  unfold aggregateTools at h
  dsimp only at h
  rw [List.mem_insertionSort, List.mem_map] at h
  obtain ⟨name, -, rfl⟩ := h
  exact ⟨(counts_calls events).getD_eq uses_of_calls, (counts_failures events).getD_eq uses_of_fails⟩

end Entries

section Thoughts

def distinctThoughts (events : List TraceEvent) : List String :=
  ((sortedEvents events).filterMap TraceEvent.thought).eraseDups

theorem collect_eq (seen : Finset String) (deduped thoughts : List String) (h : deduped.length < 6)
    : collect seen deduped thoughts =
        (deduped ++ (thoughts.filter (· ∉ seen)).eraseDups.map shorten).take 6 := by
  induction thoughts generalizing seen deduped with
  | nil =>
    rw [collect, List.filter_nil, List.eraseDups_nil, List.map_nil, List.append_nil,
      List.take_of_length_le (Nat.le_of_lt h)]
  | cons t thoughts ih =>
    unfold collect
    by_cases hseen : t ∈ seen
    . rw [if_pos hseen, ih seen deduped h, List.filter_cons_of_neg (by simpa using hseen)]
    . have hrest : (thoughts.filter (· ∉ seen)).filter (fun b => !b == t) =
          thoughts.filter (· ∉ insert t seen) := by
        rw [List.filter_filter]
        apply List.filter_congr
        intro b _
        by_cases heq : b = t
        . simp [heq]
        . simp [heq]
      have hsplit : deduped ++ (shorten t :: ((thoughts.filter (· ∉ insert t seen)).eraseDups.map shorten)) =
          (deduped ++ [shorten t]) ++ (thoughts.filter (· ∉ insert t seen)).eraseDups.map shorten :=
        List.append_cons deduped (shorten t) _
      rw [if_neg hseen, List.filter_cons_of_pos (by simpa using hseen), List.eraseDups_cons, hrest, List.map_cons,
        hsplit]
      dsimp only
      by_cases hsix : 6 ≤ (deduped ++ [shorten t]).length
      . have hlength : (deduped ++ [shorten t]).length = 6 := by
          rw [List.length_append, List.length_singleton] at hsix ⊢
          omega
        rw [if_pos hsix, ← hlength, List.take_left]
      . rw [if_neg hsix, ih _ _ (Nat.lt_of_not_le hsix)]

theorem collectKeyThoughts_eq (events : List TraceEvent)
    : collectKeyThoughts (sortedEvents events) = lastThree (((distinctThoughts events).take 6).map shorten) := by
  unfold collectKeyThoughts distinctThoughts
  rw [collect_eq ∅ [] _ (Nat.succ_pos 5), List.nil_append, List.map_take]
  simp

def Recent (thoughts : List String) : Prop :=
  thoughts.length ≤ 6 ∨ ((thoughts.take 6).drop 3).map shorten = (lastThree thoughts).map shorten

theorem lastThree_take_iff (thoughts : List String)
    : lastThree ((thoughts.take 6).map shorten) = (lastThree thoughts).map shorten ↔ Recent thoughts := by
  unfold Recent
  by_cases hlength : thoughts.length ≤ 6
  . simp only [hlength, true_or, iff_true]
    rw [List.take_of_length_le hlength]
    unfold lastThree
    rw [List.length_map, List.map_drop]
  . have hsix : lastThree ((thoughts.take 6).map shorten) = ((thoughts.take 6).drop 3).map shorten := by
      have hlength : ((thoughts.take 6).map shorten).length = 6 := by
        rw [List.length_map, List.length_take]
        omega
      unfold lastThree
      rw [hlength, List.map_drop]
    simp only [hlength, false_or]
    rw [hsix]

end Thoughts

structure Accurate (lower : String → String) (sessionId : String) (events : List TraceEvent) : Prop where
  order_free : ∀ events', events'.Perm events →
    buildTraceRunDigest lower sessionId events' = buildTraceRunDigest lower sessionId events
  counted : Counted events (buildTraceRunDigest lower sessionId events)
  recent : (buildTraceRunDigest lower sessionId events).keyThoughts =
    (lastThree (distinctThoughts events)).map shorten

variable {lower : String → String} {sessionId : String}

theorem buildTraceRunDigest_congr (h : sortedEvents events' = sortedEvents events)
    : buildTraceRunDigest lower sessionId events' = buildTraceRunDigest lower sessionId events := by
  unfold buildTraceRunDigest
  rw [h]

theorem keyThoughts_build (lower : String → String) (sessionId : String) (events : List TraceEvent)
    : (buildTraceRunDigest lower sessionId events).keyThoughts = collectKeyThoughts (sortedEvents events) := by
  unfold buildTraceRunDigest
  cases sortedEvents events <;> rfl

theorem filesTouched_build (lower : String → String) (sessionId : String) (events : List TraceEvent)
    : (buildTraceRunDigest lower sessionId events).filesTouched = aggregateFiles (sortedEvents events) := by
  unfold buildTraceRunDigest
  cases sortedEvents events <;> rfl

theorem toolCalls_build (lower : String → String) (sessionId : String) (events : List TraceEvent)
    : (buildTraceRunDigest lower sessionId events).toolCalls = aggregateTools (sortedEvents events) := by
  unfold buildTraceRunDigest
  cases sortedEvents events <;> rfl

theorem errorCount_build (lower : String → String) (sessionId : String) (events : List TraceEvent)
    : (buildTraceRunDigest lower sessionId events).errorCount = (aggregateErrors (sortedEvents events)).1 := by
  unfold buildTraceRunDigest
  cases sortedEvents events <;> rfl

theorem build_counted (lower : String → String) (sessionId : String) (events : List TraceEvent)
    : Counted events (buildTraceRunDigest lower sessionId events) where
  touched path := by
    rw [filesTouched_build, (map_path_aggregateFiles _).mem_iff]
    exact ((counts_files _).of_perm (sortedEvents_perm events)).mem_keys_iff
  used name := by
    rw [toolCalls_build, (map_name_aggregateTools _).mem_iff]
    exact ((counts_calls _).of_perm (sortedEvents_perm events)).mem_keys_iff
  once := by
    rw [filesTouched_build, toolCalls_build]
    exact ⟨(map_path_aggregateFiles _).nodup_iff.mpr (Dict.nodup _),
      (map_name_aggregateTools _).nodup_iff.mpr (Dict.nodup _)⟩
  touchCount entry h := by
    rw [filesTouched_build] at h
    rw [touchCount_of_mem h, (sortedEvents_perm events).countP_eq]
  callCount entry h := by
    rw [toolCalls_build] at h
    rw [(counts_of_mem h).1, (sortedEvents_perm events).countP_eq]
  failureCount entry h := by
    rw [toolCalls_build] at h
    rw [(counts_of_mem h).2, (sortedEvents_perm events).countP_eq]
  errorCount := by
    rw [errorCount_build, aggregateErrors_count, (sortedEvents_perm events).countP_eq]

theorem buildTraceRunDigest_accurate_iff (lower : String → String) (sessionId : String) (events : List TraceEvent)
    (hdistinct : (events.map TraceEvent.timestamp).Nodup)
    : Accurate lower sessionId events ↔ Recent (distinctThoughts events) := by
  rw [← lastThree_take_iff, ← collectKeyThoughts_eq, ← keyThoughts_build lower sessionId]
  constructor
  . intro h
    exact h.recent
  . intro h
    refine ⟨?_, build_counted lower sessionId events, h⟩
    intro events' hperm
    exact buildTraceRunDigest_congr (sortedEvents_eq_of_perm hdistinct hperm)

theorem buildTraceRunDigest_accurate_of_two
    : Accurate Text.lower "s"
        [{ kind := .thought, timestamp := 2, summary := some "b" },
          { kind := .thought, timestamp := 1, summary := some "a" }] :=
  (buildTraceRunDigest_accurate_iff Text.lower "s" _ (by decide)).mpr (.inl (by decide +kernel))

/--
The seventh thought of a run.
-/
theorem buildTraceRunDigest_misses_latest
    : ¬ ∀ (lower : String → String) (sessionId : String) (events : List TraceEvent),
        (events.map TraceEvent.timestamp).Nodup → Accurate lower sessionId events := by
  intro h
  have hseven := (h id "s" (["a", "b", "c", "d", "e", "f", "g"].zipIdx.map fun t =>
    { kind := .thought, timestamp := t.2, summary := some t.1 }) (by decide +kernel)).recent
  exact absurd hseven (by decide +kernel)

end Trace
end MemStack
