import Mathlib

/-!
This module contains the reading of lines from a stream that arrives in chunks. What has been received of a line is
kept in a buffer, complete lines are handled one after the other, and a handler may stop the reading.
-/

namespace LineFeed

variable {α S ε : Type} [DecidableEq α] (sep : α)

def firstLine : List α → Option (List α × List α)
  | [] => none
  | a :: rest =>
    if a = sep then some ([a], rest) else (firstLine rest).map fun cut => (a :: cut.1, cut.2)

theorem length_lt_of_firstLine {buffer line rest : List α} (h : firstLine sep buffer = some (line, rest))
    : rest.length < buffer.length := by
  induction buffer generalizing line with
  | nil => cases h
  | cons a buffer ih =>
    rw [firstLine] at h
    split at h
    . cases h
      exact Nat.lt_succ_self _
    . rw [Option.map_eq_some_iff] at h
      obtain ⟨⟨line', rest'⟩, hcut, heq⟩ := h
      cases heq
      exact Nat.lt_succ_of_lt (ih hcut)

structure Fed (α S ε : Type) where
  state : S
  buffer : List α
  -- Whether a handler has stopped the reading.
  outcome : Except ε Bool

variable (handle : List α → S → S × Except ε Bool)

def drain (s : S) (buffer : List α) : Fed α S ε :=
  match _h : firstLine sep buffer with
  | none => { state := s, buffer, outcome := .ok false }
  | some (line, rest) =>
    match handle line s with
    | (s, .ok false) => drain s rest
    | (s, outcome) => { state := s, buffer := rest, outcome }
termination_by buffer.length
decreasing_by exact length_lt_of_firstLine sep _h

def feed (s : S) (buffer : List α) : List (List α) → Option ε → S × Except ε Unit
  | [], some e => (s, .error e)
  | [], none =>
    if buffer = [] then
      (s, .ok ())
    else
      match handle buffer s with
      | (s, .ok _) => (s, .ok ())
      | (s, .error e) => (s, .error e)
  | chunk :: chunks, ending =>
    match drain sep handle s (buffer ++ chunk) with
    | ⟨s, buffer, .ok false⟩ => feed s buffer chunks ending
    | ⟨s, _, .ok true⟩ => (s, .ok ())
    | ⟨s, _, .error e⟩ => (s, .error e)

def handleAll : S → List (List α) → S × Except ε Bool
  | s, [] => (s, .ok false)
  | s, line :: lines =>
    match handle line s with
    | (s, .ok false) => handleAll s lines
    | (s, outcome) => (s, outcome)

variable {sep handle} {s : S} {buffer line rest tail : List α} {chunks chunks' : List (List α)} {ending : Option ε}

theorem firstLine_append (h : firstLine sep buffer = some (line, rest)) (tail : List α)
    : firstLine sep (buffer ++ tail) = some (line, rest ++ tail) := by
  induction buffer generalizing line with
  | nil => cases h
  | cons a buffer ih =>
    rw [firstLine] at h
    rw [List.cons_append, firstLine]
    split at h
    . next heq =>
      cases h
      rw [if_pos heq]
    . next hne =>
      rw [Option.map_eq_some_iff] at h
      obtain ⟨⟨line', rest'⟩, hcut, heq⟩ := h
      cases heq
      rw [if_neg hne, ih hcut]
      rfl

theorem firstLine_eq_none : firstLine sep buffer = none ↔ sep ∉ buffer := by
  induction buffer with
  | nil => simp [firstLine]
  | cons a buffer ih =>
    rw [firstLine, List.mem_cons, not_or]
    split
    . next heq => simp [heq]
    . next hne => simp [ih, Ne.symm hne]

theorem firstLine_line (h : sep ∉ line) (rest : List α)
    : firstLine sep (line ++ sep :: rest) = some (line ++ [sep], rest) := by
  induction line with
  | nil => simp [firstLine]
  | cons a line ih =>
    rw [List.mem_cons, not_or] at h
    rw [List.cons_append, firstLine, if_neg (Ne.symm h.1), ih h.2]
    rfl

theorem drain_of_notMem (h : sep ∉ buffer)
    : drain sep handle s buffer = { state := s, buffer, outcome := .ok false } := by
  rw [drain]
  split
  . rfl
  . next line rest hcut =>
    rw [firstLine_eq_none.mpr h] at hcut
    cases hcut

theorem drain_of_firstLine (h : firstLine sep buffer = some (line, rest))
    : drain sep handle s buffer =
        match handle line s with
        | (s, .ok false) => drain sep handle s rest
        | (s, outcome) => { state := s, buffer := rest, outcome } := by
  rw [drain]
  split
  . next hcut =>
    rw [h] at hcut
    cases hcut
  . next line' rest' hcut =>
    rw [h] at hcut
    cases hcut
    rfl

theorem notMem_of_drain (h : (drain sep handle s buffer).outcome = .ok false)
    : sep ∉ (drain sep handle s buffer).buffer := by
  fun_induction drain sep handle s buffer with
  | case1 s buffer hcut => exact firstLine_eq_none.mp hcut
  | case2 s buffer line rest hcut s' hhandle ih => exact ih h
  | case3 s buffer line rest hcut s' outcome hgoes hhandle => exact absurd h hgoes

theorem drain_append_of_goesOn (h : (drain sep handle s buffer).outcome = .ok false) (tail : List α)
    : drain sep handle s (buffer ++ tail) =
        drain sep handle (drain sep handle s buffer).state ((drain sep handle s buffer).buffer ++ tail) := by
  fun_induction drain sep handle s buffer with
  | case1 s buffer hcut => rfl
  | case2 s buffer line rest hcut s' hhandle ih =>
    rw [drain_of_firstLine (firstLine_append hcut tail), hhandle]
    exact ih h
  | case3 s buffer line rest hcut s' outcome hgoes hhandle => exact absurd h hgoes

theorem drain_append_of_stops (h : (drain sep handle s buffer).outcome ≠ .ok false) (tail : List α)
    : drain sep handle s (buffer ++ tail) =
        { drain sep handle s buffer with buffer := (drain sep handle s buffer).buffer ++ tail } := by
  fun_induction drain sep handle s buffer with
  | case1 s buffer hcut => exact absurd rfl h
  | case2 s buffer line rest hcut s' hhandle ih =>
    rw [drain_of_firstLine (firstLine_append hcut tail), hhandle]
    exact ih h
  | case3 s buffer line rest hcut s' outcome hgoes hhandle =>
    rw [drain_of_firstLine (firstLine_append hcut tail), hhandle]
    cases outcome with
    | error e => rfl
    | ok stops =>
      cases stops with
      | false => exact absurd rfl hgoes
      | true => rfl

section Feed

variable {chunk : List α} {fed : Fed α S ε}

theorem feed_cons_of_goesOn (hfed : drain sep handle s (buffer ++ chunk) = fed) (h : fed.outcome = .ok false)
    : feed sep handle s buffer (chunk :: chunks) ending = feed sep handle fed.state fed.buffer chunks ending := by
  obtain ⟨state, left, outcome⟩ := fed
  cases h
  rw [feed, hfed]

theorem feed_cons_of_stops (hfed : drain sep handle s (buffer ++ chunk) = fed) (h : fed.outcome = .ok true)
    : feed sep handle s buffer (chunk :: chunks) ending = (fed.state, .ok ()) := by
  obtain ⟨state, left, outcome⟩ := fed
  cases h
  rw [feed, hfed]

theorem feed_cons_of_fails {e : ε} (hfed : drain sep handle s (buffer ++ chunk) = fed) (h : fed.outcome = .error e)
    : feed sep handle s buffer (chunk :: chunks) ending = (fed.state, .error e) := by
  obtain ⟨state, left, outcome⟩ := fed
  cases h
  rw [feed, hfed]

theorem feed_flatten (h : sep ∉ buffer)
    : feed sep handle s buffer chunks ending = feed sep handle s [] [buffer ++ chunks.flatten] ending := by
  induction chunks generalizing s buffer with
  | nil =>
    rw [List.flatten_nil, List.append_nil, feed_cons_of_goesOn (drain_of_notMem h) rfl]
    rfl
  | cons chunk chunks ih =>
    have hwhole : [] ++ (buffer ++ (chunk :: chunks).flatten) = (buffer ++ chunk) ++ chunks.flatten := by
      rw [List.nil_append, List.flatten_cons, List.append_assoc]
    cases houtcome : (drain sep handle s (buffer ++ chunk)).outcome with
    | error e =>
      have hne : (drain sep handle s (buffer ++ chunk)).outcome ≠ .ok false := by simp [houtcome]
      have hstops := drain_append_of_stops hne chunks.flatten
      rw [← hwhole] at hstops
      rw [feed_cons_of_fails rfl houtcome]
      exact (feed_cons_of_fails hstops houtcome).symm
    | ok stops =>
      cases stops with
      | false =>
        have hgoes := drain_append_of_goesOn houtcome chunks.flatten
        rw [feed_cons_of_goesOn rfl houtcome, ih (notMem_of_drain houtcome)]
        rw [feed, feed, List.nil_append, hwhole, hgoes]
      | true =>
        have hne : (drain sep handle s (buffer ++ chunk)).outcome ≠ .ok false := by simp [houtcome]
        have hstops := drain_append_of_stops hne chunks.flatten
        rw [← hwhole] at hstops
        rw [feed_cons_of_stops rfl houtcome]
        exact (feed_cons_of_stops hstops houtcome).symm

variable (sep handle s chunks ending) in
theorem feed_once : feed sep handle s [] chunks ending = feed sep handle s [] [chunks.flatten] ending :=
  feed_flatten List.not_mem_nil

/--
How a stream is cut into chunks does not matter.
-/
theorem feed_congr (h : chunks.flatten = chunks'.flatten)
    : feed sep handle s [] chunks ending = feed sep handle s [] chunks' ending := by
  rw [feed_once sep handle s chunks, h, ← feed_once]

end Feed

section Inv

variable {I : S → Prop} (h : ∀ line s, I s → I (handle line s).1)
include h

theorem inv_drain (hs : I s) (buffer : List α) : I (drain sep handle s buffer).state := by
  fun_induction drain sep handle s buffer with
  | case1 s buffer hcut => exact hs
  | case2 s buffer line rest hcut s' hhandle ih =>
    have hkept := h line s hs
    rw [hhandle] at hkept
    exact ih hkept
  | case3 s buffer line rest hcut s' outcome hgoes hhandle =>
    have hkept := h line s hs
    rw [hhandle] at hkept
    exact hkept

theorem inv_feed (hs : I s) (buffer : List α) (chunks : List (List α)) (ending : Option ε)
    : I (feed sep handle s buffer chunks ending).1 := by
  induction chunks generalizing s buffer with
  | nil =>
    have hkept := h buffer s hs
    cases ending with
    | some e => exact hs
    | none =>
      unfold feed
      split
      . exact hs
      . split
        . next hhandle =>
          rw [hhandle] at hkept
          exact hkept
        . next hhandle =>
          rw [hhandle] at hkept
          exact hkept
  | cons chunk chunks ih =>
    have hkept : I (drain sep handle s (buffer ++ chunk)).state := inv_drain h hs (buffer ++ chunk)
    cases houtcome : (drain sep handle s (buffer ++ chunk)).outcome with
    | error e =>
      rw [feed_cons_of_fails rfl houtcome]
      exact hkept
    | ok stops =>
      cases stops with
      | false =>
        rw [feed_cons_of_goesOn rfl houtcome]
        exact ih hkept _
      | true =>
        rw [feed_cons_of_stops rfl houtcome]
        exact hkept

end Inv

section Lines

variable {lines : List (List α)} {s' : S}

theorem drain_lines (hlines : ∀ line ∈ lines, sep ∉ line)
    (hall : handleAll handle s (lines.map (· ++ [sep])) = (s', .ok false))
    : drain sep handle s ((lines.map (· ++ [sep])).flatten ++ tail) = drain sep handle s' tail := by
  induction lines generalizing s with
  | nil =>
    cases hall
    rfl
  | cons line lines ih =>
    rw [List.forall_mem_cons] at hlines
    rw [List.map_cons, handleAll] at hall
    rw [List.map_cons, List.flatten_cons, List.append_assoc, List.append_assoc, List.singleton_append,
      drain_of_firstLine (firstLine_line hlines.1 _)]
    split at hall
    . exact ih hlines.2 hall
    . next hgoes _ =>
      cases hall
      exact absurd rfl hgoes

theorem feed_lines_stop {last : List α} (hlines : ∀ line ∈ lines, sep ∉ line) (hlast : sep ∉ last)
    (hall : handleAll handle s (lines.map (· ++ [sep])) = (s', .ok false))
    (hstop : handle (last ++ [sep]) s' = (s', .ok true))
    (hchunks : chunks.flatten = (lines.map (· ++ [sep])).flatten ++ (last ++ sep :: tail))
    : feed sep handle s [] chunks ending = (s', .ok ()) := by
  rw [feed_once, hchunks]
  have hdrain : drain sep handle s ((lines.map (· ++ [sep])).flatten ++ (last ++ sep :: tail)) =
      { state := s', buffer := tail, outcome := .ok true } := by
    rw [drain_lines hlines hall, drain_of_firstLine (firstLine_line hlast tail), hstop]
  exact feed_cons_of_stops hdrain rfl

theorem feed_lines_close (hlines : ∀ line ∈ lines, sep ∉ line)
    (hall : handleAll handle s (lines.map (· ++ [sep])) = (s', .ok false))
    (hchunks : chunks.flatten = (lines.map (· ++ [sep])).flatten)
    : feed sep handle s [] chunks none = (s', .ok ()) := by
  rw [feed_once, hchunks]
  have hdrain : drain sep handle s (lines.map (· ++ [sep])).flatten =
      { state := s', buffer := [], outcome := .ok false } := by
    rw [← List.append_nil (lines.map (· ++ [sep])).flatten, drain_lines hlines hall,
      drain_of_notMem List.not_mem_nil]
  rw [feed_cons_of_goesOn hdrain rfl]
  rfl

end Lines

end LineFeed
