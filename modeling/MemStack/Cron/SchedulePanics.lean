import MemStack.Cron.ScheduleChecked

/-!
This module contains the schedules whose projection panics (`cron_schedule_reconcile.rs`), and that otherwise
the projection is the one without bounds.
-/

namespace MemStack
namespace Cron
namespace ScheduleChecked

open Checked

variable {F Tz Expr : Type}

-- The values of `i32`.
def IsI32 (n : Int) : Prop :=
  -2 ^ 31 ≤ n ∧ n < 2 ^ 31

section Interval

variable {second anchor interval observedAt : Int}

theorem elapsed_nonneg (hsecond : 0 < second) (hle : anchor ≤ observedAt)
    : 0 ≤ (observedAt - anchor).tdiv second := by
  apply Int.tdiv_nonneg
  . omega
  . exact le_of_lt hsecond

theorem elapsed_le (hsecond : 0 < second) (hanchor : InRange second anchor) (hobserved : InRange second observedAt)
    (hle : anchor ≤ observedAt)
    : (observedAt - anchor).tdiv second ≤ Timestamp.maxSeconds - Timestamp.minSeconds := by
  obtain ⟨hmin, -⟩ := hanchor
  obtain ⟨-, hmax⟩ := hobserved
  rw [Int.fdiv_eq_ediv_of_nonneg _ (le_of_lt hsecond), Int.le_ediv_iff_mul_le hsecond] at hmin
  rw [Int.fdiv_eq_ediv_of_nonneg _ (le_of_lt hsecond), ← Int.lt_add_one_iff,
    Int.ediv_lt_iff_lt_mul hsecond] at hmax
  rw [Int.tdiv_eq_ediv_of_nonneg (by omega), ← Int.lt_add_one_iff, Int.ediv_lt_iff_lt_mul hsecond]
  lia

theorem delta_of_elapsed_lt {elapsed : Int} (helapsed : 0 ≤ elapsed) (hlt : elapsed < interval)
    : interval * (elapsed.tdiv interval + 1) = interval := by
  rw [Int.tdiv_eq_ediv_of_nonneg helapsed, Int.ediv_eq_zero_of_lt helapsed hlt]
  ring

theorem delta_of_le_elapsed {elapsed : Int} (hinterval : 0 < interval) (hle : interval ≤ elapsed)
    : interval * (elapsed.tdiv interval + 1) ≤ 2 * elapsed := by
  rw [Int.tdiv_eq_ediv_of_nonneg (by omega)]
  have hmul : interval * (elapsed / interval) ≤ elapsed := Int.mul_ediv_self_le (by omega)
  lia

theorem tdiv_le_self {elapsed : Int} (helapsed : 0 ≤ elapsed) (hinterval : 0 < interval)
    : 0 ≤ elapsed.tdiv interval ∧ elapsed.tdiv interval ≤ elapsed := by
  rw [Int.tdiv_eq_ediv_of_nonneg helapsed]
  exact ⟨Int.ediv_nonneg helapsed (le_of_lt hinterval), Int.ediv_le_self interval helapsed⟩

theorem i64?_of_range {n : Int} (h : 0 ≤ n ∧ n < 2 ^ 63) : i64? n = some n := by
  unfold i64?
  apply if_pos
  omega

theorem nextIntervalFire_of_le (hsecond : 0 < second) (hinterval : 0 < interval ∧ interval < 2 ^ 63)
    (hanchor : InRange second anchor) (hobserved : InRange second observedAt) (hle : anchor ≤ observedAt)
    : nextIntervalFire second anchor interval observedAt =
      addSeconds second anchor (interval * (((observedAt - anchor).tdiv second).tdiv interval + 1)) := by
  have hnonneg := elapsed_nonneg hsecond hle
  have hbound := elapsed_le hsecond hanchor hobserved hle
  unfold nextIntervalFire
  rw [if_neg (by omega)]
  dsimp only
  generalize (observedAt - anchor).tdiv second = elapsed at hnonneg hbound ⊢
  have hquotient := tdiv_le_self hnonneg hinterval.1
  have hdelta : interval * (elapsed.tdiv interval + 1) < 2 ^ 63 := by
    rcases lt_or_ge elapsed interval with hlt | hge
    . rw [delta_of_elapsed_lt hnonneg hlt]
      exact hinterval.2
    . have htwice := delta_of_le_elapsed hinterval.1 hge
      unfold Timestamp.maxSeconds Timestamp.minSeconds at hbound
      omega
  have hdiv : checkedDiv elapsed interval = some (elapsed.tdiv interval) := by
    unfold checkedDiv
    rw [if_neg (by omega), i64?_of_range]
    unfold Timestamp.maxSeconds Timestamp.minSeconds at hbound
    omega
  have hadd : checkedAdd (elapsed.tdiv interval) 1 = some (elapsed.tdiv interval + 1) := by
    apply i64?_of_range
    unfold Timestamp.maxSeconds Timestamp.minSeconds at hbound
    omega
  have hmul : checkedMul interval (elapsed.tdiv interval + 1) =
      some (interval * (elapsed.tdiv interval + 1)) := by
    apply i64?_of_range
    refine ⟨?_, hdelta⟩
    apply Int.mul_nonneg
    . omega
    . omega
  rw [hdiv, Option.bind_some, hadd]
  dsimp only
  rw [hmul]

theorem nextIntervalFire_eq_panic (hsecond : 0 < second) (hinterval : 0 < interval ∧ interval < 2 ^ 63)
    (hanchor : InRange second anchor) (hobserved : InRange second observedAt)
    : nextIntervalFire second anchor interval observedAt = .error .panic ↔
      anchor ≤ observedAt ∧ maxDuration < interval := by
  rcases lt_or_ge observedAt anchor with hlt | hle
  . unfold nextIntervalFire
    rw [if_pos hlt]
    simp [hlt]
  . rw [nextIntervalFire_of_le hsecond hinterval hanchor hobserved hle]
    have hnonneg := elapsed_nonneg hsecond hle
    have hbound := elapsed_le hsecond hanchor hobserved hle
    generalize (observedAt - anchor).tdiv second = elapsed at hnonneg hbound ⊢
    simp only [hle, true_and]
    have hmax : 2 * (Timestamp.maxSeconds - Timestamp.minSeconds) ≤ maxDuration := by decide
    rcases lt_or_ge elapsed interval with hlt | hge
    . rw [delta_of_elapsed_lt hnonneg hlt]
      constructor
      . intro hpanic
        by_contra hnot
        exact addSeconds_ne_panic ⟨by unfold maxDuration; omega, by omega⟩ second anchor hpanic
      . exact fun h => addSeconds_eq_panic h second anchor
    . have htwice := delta_of_le_elapsed hinterval.1 hge
      have hpos : 0 ≤ interval * (elapsed.tdiv interval + 1) := by
        have hquotient := tdiv_le_self hnonneg hinterval.1
        apply Int.mul_nonneg
        . omega
        . omega
      constructor
      . intro hpanic
        exact absurd hpanic (addSeconds_ne_panic ⟨by unfold maxDuration; omega, by omega⟩ second anchor)
      . intro h
        omega

end Interval

section Panics

variable {second : Int} {lib : Library F Tz Expr} {snapshot : CronScheduleSnapshot F} {observedAt : Int}

theorem stagger_fits (h : IsI32 snapshot.staggerSeconds)
    : (-maxDuration ≤ snapshot.staggerSeconds ∧ snapshot.staggerSeconds ≤ maxDuration) ∧
      (-maxDuration ≤ -snapshot.staggerSeconds ∧ -snapshot.staggerSeconds ≤ maxDuration) := by
  obtain ⟨hmin, hmax⟩ := h
  unfold maxDuration
  omega

theorem bind_eq_panic {α β : Type} {x : Except Stopped α} {f : α → Except Stopped β} (hx : x ≠ .error .panic)
    : x >>= f = .error .panic ↔ ∃ a, x = .ok a ∧ f a = .error .panic := by
  cases x with
  | error e =>
    have he : e ≠ .panic := fun he => hx (congrArg Except.error he)
    simp [bind, Except.bind, he]
  | ok a => simp [bind, Except.bind]

theorem lift_ne_panic {α : Type} (x : Except ScheduleProjectionError α) : lift x ≠ .error .panic := by
  cases x <;> simp [lift]

theorem parseUtc_ne_panic (value : String) : parseUtc lib value ≠ .error .panic := by
  unfold parseUtc
  split
  . simp
  . simp

theorem runAt_ne_panic : runAt lib snapshot ≠ .error .panic := by
  unfold runAt
  rw [ne_eq, bind_eq_panic (lift_ne_panic _)]
  rintro ⟨text, -, hpanic⟩
  exact parseUtc_ne_panic _ hpanic

theorem anchorAt_ne_panic : anchorAt lib snapshot ≠ .error .panic := by
  unfold anchorAt
  split
  . apply parseUtc_ne_panic
  . simp

theorem expression_ne_panic : expression lib snapshot ≠ .error .panic := by
  unfold expression
  rw [ne_eq, bind_eq_panic (lift_ne_panic _)]
  rintro ⟨text, -, hpanic⟩
  split at hpanic
  . simp at hpanic
  . split at hpanic
    . simp at hpanic
    . simp at hpanic

theorem projectAt_ne_panic (hstagger : IsI32 snapshot.staggerSeconds)
    : projectAt second lib snapshot observedAt ≠ .error .panic := by
  unfold projectAt
  rw [ne_eq, bind_eq_panic runAt_ne_panic]
  rintro ⟨run, -, hpanic⟩
  rw [bind_eq_panic (addSeconds_ne_panic (stagger_fits hstagger).1 _ _)] at hpanic
  obtain ⟨fire, -, hpanic⟩ := hpanic
  split at hpanic
  . cases hpanic
  . cases hpanic

theorem projectCron_ne_panic (hstagger : IsI32 snapshot.staggerSeconds)
    : projectCron second lib snapshot observedAt ≠ .error .panic := by
  unfold projectCron
  rw [ne_eq, bind_eq_panic expression_ne_panic]
  rintro ⟨⟨cron, timezone⟩, -, hpanic⟩
  rw [bind_eq_panic (addSeconds_ne_panic (stagger_fits hstagger).2 _ _)] at hpanic
  obtain ⟨searchAt, -, hpanic⟩ := hpanic
  split at hpanic
  . simp at hpanic
  . rw [bind_eq_panic (addSeconds_ne_panic (stagger_fits hstagger).1 _ _)] at hpanic
    obtain ⟨next, -, hpanic⟩ := hpanic
    cases hpanic

theorem projectEvery_eq_panic (hsecond : 0 < second) (hstagger : IsI32 snapshot.staggerSeconds)
    (hobserved : InRange second observedAt)
    : projectEvery second lib snapshot observedAt = .error .panic ↔
      ∃ seconds anchor start, interval snapshot = some seconds ∧ anchorAt lib snapshot = .ok anchor ∧
        addSeconds second anchor snapshot.staggerSeconds = .ok start ∧ start ≤ observedAt ∧
        maxDuration < seconds := by
  unfold projectEvery
  cases hinterval : interval snapshot with
  | none => simp
  | some seconds =>
    dsimp only
    rw [bind_eq_panic anchorAt_ne_panic]
    simp only [bind_eq_panic (addSeconds_ne_panic (stagger_fits hstagger).1 _ _), Option.some.injEq]
    constructor
    . rintro ⟨anchor, hanchor, start, hstart, hpanic⟩
      refine ⟨seconds, anchor, start, rfl, hanchor, hstart, ?_⟩
      rw [← nextIntervalFire_eq_panic hsecond (interval_pos hinterval) (inRange_of_addSeconds hsecond hstart)
        hobserved]
      cases hnext : nextIntervalFire second start seconds observedAt with
      | error e =>
        rw [hnext] at hpanic
        simpa [bind, Except.bind] using hpanic
      | ok next =>
        rw [hnext] at hpanic
        cases hpanic
    . rintro ⟨seconds', anchor, start, rfl, hanchor, hstart, hpanic⟩
      refine ⟨anchor, hanchor, start, hstart, ?_⟩
      rw [(nextIntervalFire_eq_panic hsecond (interval_pos hinterval) (inRange_of_addSeconds hsecond hstart)
        hobserved).mpr hpanic]
      rfl

def OverlongInterval (second : Int) (lib : Library F Tz Expr) (snapshot : CronScheduleSnapshot F)
    (observedAt : Int) : Prop :=
  snapshot.enabled ∧ 0 ≤ snapshot.staggerSeconds ∧ snapshot.scheduleType = "every" ∧
  ∃ seconds anchor start, interval snapshot = some seconds ∧ anchorAt lib snapshot = .ok anchor ∧
    addSeconds second anchor snapshot.staggerSeconds = .ok start ∧ start ≤ observedAt ∧ maxDuration < seconds

theorem projectType_eq_panic (hstagger : IsI32 snapshot.staggerSeconds)
    : projectType second lib snapshot observedAt = .error .panic ↔
      snapshot.scheduleType = "every" ∧ projectEvery second lib snapshot observedAt = .error .panic := by
  unfold projectType
  split
  . next htype =>
    rw [htype]
    simp [projectAt_ne_panic hstagger]
  . next htype => simp [htype]
  . next htype =>
    rw [htype]
    simp [projectCron_ne_panic hstagger]
  . next hat hevery hcron =>
    have hne : snapshot.scheduleType ≠ "every" := hevery
    simp [hne]

theorem projectSchedule_ne_panic_iff (lib : Library F Tz Expr) (snapshot : CronScheduleSnapshot F)
    (observedAt : Int) (hstagger : IsI32 snapshot.staggerSeconds)
    (hobserved : InRange nanosecondsPerSecond observedAt)
    : projectSchedule nanosecondsPerSecond lib snapshot observedAt ≠ .error .panic ↔
      ¬ OverlongInterval nanosecondsPerSecond lib snapshot observedAt := by
  rw [ne_eq, not_iff_not]
  unfold OverlongInterval projectSchedule
  cases henabled : snapshot.enabled with
  | false => simp
  | true =>
    rw [if_neg (by decide)]
    rcases lt_or_ge snapshot.staggerSeconds 0 with hneg | hnonneg
    . rw [if_pos hneg]
      simp [hneg]
    . rw [if_neg (by omega)]
      simp only [hnonneg, true_and]
      rw [← projectEvery_eq_panic (by decide) hstagger hobserved, ← projectType_eq_panic hstagger]
      cases projectType nanosecondsPerSecond lib snapshot observedAt with
      | error e => simp [bind, Except.bind]
      | ok projected => simp [bind, Except.bind, pure, Except.pure]

end Panics

section Longest

def everySeconds (seconds : Int) : CronScheduleSnapshot Empty :=
  { everyMinute with
    scheduleType := "every"
    scheduleConfig := .dict [("interval_seconds", .int seconds)] }

theorem longestInterval_ne_panic
    : projectSchedule nanosecondsPerSecond minutes (everySeconds maxDuration) (5 * nanosecondsPerSecond) ≠
      .error .panic := by
  rw [projectSchedule_ne_panic_iff minutes (everySeconds maxDuration) (5 * nanosecondsPerSecond)
    (by unfold IsI32; decide) (by unfold InRange; decide)]
  rintro ⟨-, -, -, seconds, anchor, start, hinterval, -, -, -, hlt⟩
  have heq : interval (everySeconds maxDuration) = some maxDuration := by decide +kernel
  rw [heq, Option.some.injEq] at hinterval
  omega

theorem overlongInterval_panics
    : IsI32 (everySeconds (maxDuration + 1)).staggerSeconds ∧
      InRange nanosecondsPerSecond (5 * nanosecondsPerSecond) ∧
      projectSchedule nanosecondsPerSecond minutes (everySeconds (maxDuration + 1)) (5 * nanosecondsPerSecond) =
        .error .panic := by
  refine ⟨?_, ?_, ?_⟩
  . unfold IsI32
    decide
  . unfold InRange
    decide
  . decide +kernel

end Longest

section Database

structure Reads (lib : Library F Tz Expr) (lib' : ScheduleLibrary F) : Prop where
  parse : ∀ text, lib'.parseFromRfc3339 text = lib.parseFromRfc3339 text
  find : ∀ expression timezone searchAt, lib'.findNextOccurrence expression timezone searchAt =
    (lib.tzFromStr timezone).bind fun timezone =>
      (lib.cronFromStr expression).bind fun cron => lib.findNextOccurrence cron timezone searchAt
  digest : ∀ value, lib'.digest value = lib.digest value

variable {lib : Library F Tz Expr} {lib' : ScheduleLibrary F} {snapshot : CronScheduleSnapshot F}
  {observedAt : Timestamp}

theorem toOption_lift {α : Type} (x : Except ScheduleProjectionError α) : (lift x).toOption = x.toOption := by
  cases x <;> rfl

theorem toOption_parseUtc (h : Reads lib lib') (text : String)
    : (parseUtc lib text).toOption = (lib'.parseUtc text).toOption := by
  unfold parseUtc ScheduleLibrary.parseUtc
  rw [h.parse]
  cases lib.parseFromRfc3339 text <;> rfl

theorem toOption_addSeconds {value seconds : Int}
    (h : (-maxDuration ≤ seconds ∧ seconds ≤ maxDuration) ∨
      (0 ≤ seconds ∧ InRange Timestamp.second value))
    : (addSeconds Timestamp.second value seconds).toOption = (Cron.addSeconds value seconds).toOption := by
  unfold addSeconds duration checkedAddSigned Cron.addSeconds
  by_cases hduration : -maxDuration ≤ seconds ∧ seconds ≤ maxDuration
  . rw [if_pos hduration]
    simp only [bind, Except.bind]
    by_cases hrange : Timestamp.minSeconds ≤ value.fdiv Timestamp.second + seconds ∧
        value.fdiv Timestamp.second + seconds ≤ Timestamp.maxSeconds
    . rw [if_pos hrange, if_pos hrange]
      rfl
    . rw [if_neg hrange, if_neg hrange]
      rfl
  . rw [if_neg hduration]
    rcases h with h | ⟨hnonneg, hmin, -⟩
    . exact absurd h hduration
    . have hmax : Timestamp.maxSeconds - Timestamp.minSeconds < maxDuration := by decide
      rw [if_neg (by omega)]
      rfl

theorem toOption_nextIntervalFire {anchor interval : Int} (hinterval : 0 < interval)
    (hanchor : InRange Timestamp.second anchor)
    : (nextIntervalFire Timestamp.second anchor interval observedAt).toOption =
      (Cron.nextIntervalFire anchor interval observedAt).toOption := by
  unfold nextIntervalFire Cron.nextIntervalFire
  split
  . rfl
  . next hle =>
    dsimp only
    have hnonneg := elapsed_nonneg (show 0 < Timestamp.second by decide) (not_lt.mp hle)
    generalize (observedAt - anchor).tdiv Timestamp.second = elapsed at hnonneg ⊢
    have hquotient := tdiv_le_self hnonneg hinterval
    have hdelta : elapsed.tdiv interval + 1 ≤ interval * (elapsed.tdiv interval + 1) :=
      le_mul_of_one_le_left (by omega) hinterval
    -- Where a check fails, so much is added that the sum is out of range.
    have hover (h : 2 ^ 63 ≤ interval * (elapsed.tdiv interval + 1))
        : (Cron.addSeconds anchor (interval * (elapsed.tdiv interval + 1))).toOption = none := by
      have hmax : Timestamp.maxSeconds - Timestamp.minSeconds < 2 ^ 63 := by decide
      obtain ⟨hmin, -⟩ := hanchor
      unfold Cron.addSeconds
      dsimp only
      rw [if_neg (by omega)]
      rfl
    have hsteps : (checkedDiv elapsed interval).bind (checkedAdd · 1) =
        if elapsed.tdiv interval + 1 < 2 ^ 63 then some (elapsed.tdiv interval + 1) else none := by
      unfold checkedDiv checkedAdd i64?
      rw [if_neg (by omega)]
      split
      . rw [Option.bind_some]
        split
        . rw [if_pos (by omega)]
        . rw [if_neg (by omega)]
      . rw [Option.bind_none, if_neg (by omega)]
    rw [hsteps]
    by_cases hsmall : elapsed.tdiv interval + 1 < 2 ^ 63
    . rw [if_pos hsmall]
      dsimp only
      unfold checkedMul i64?
      by_cases hproduct : interval * (elapsed.tdiv interval + 1) < 2 ^ 63
      . rw [if_pos (by omega)]
        exact toOption_addSeconds (Or.inr ⟨by omega, hanchor⟩)
      . rw [if_neg (by omega)]
        exact (hover (by omega)).symm
    . rw [if_neg hsmall]
      exact (hover (by omega)).symm

theorem toOption_projectAt (h : Reads lib lib') (hstagger : IsI32 snapshot.staggerSeconds)
    : (projectAt Timestamp.second lib snapshot observedAt).toOption =
      (lib'.projectAt snapshot observedAt).toOption := by
  unfold projectAt runAt ScheduleLibrary.projectAt
  simp only [toOption_bind, toOption_lift, toOption_parseUtc h, Option.bind_assoc,
    toOption_addSeconds (Or.inl (stagger_fits hstagger).1)]
  congr 1
  funext text
  congr 1
  funext run
  congr 1
  funext fire
  split <;> rfl

theorem toOption_every {anchor : Except Stopped Int} {anchor' : Except ScheduleProjectionError Int}
    (hanchor : anchor.toOption = anchor'.toOption) (hstagger : IsI32 snapshot.staggerSeconds) {seconds : Int}
    (hseconds : 0 < seconds)
    : (do
        let anchor ← anchor
        let anchor ← addSeconds Timestamp.second anchor snapshot.staggerSeconds
        let next ← nextIntervalFire Timestamp.second anchor seconds observedAt
        return (CronScheduleStatus.active, some next) : Except Stopped _).toOption =
      (do
        let anchor ← anchor'
        let anchor ← Cron.addSeconds anchor snapshot.staggerSeconds
        let next ← Cron.nextIntervalFire anchor seconds observedAt
        return (CronScheduleStatus.active, some next) : Except ScheduleProjectionError _).toOption := by
  simp only [toOption_bind, hanchor, ← toOption_addSeconds (Or.inl (stagger_fits hstagger).1)]
  congr 1
  funext anchor
  cases hstart : addSeconds Timestamp.second anchor snapshot.staggerSeconds with
  | error e => rfl
  | ok start =>
    have hrange := inRange_of_addSeconds (by decide) hstart
    simp only [Except.toOption, Option.bind_some]
    have hnext : (nextIntervalFire _ start seconds observedAt).toOption = _ :=
      toOption_nextIntervalFire hseconds hrange
    unfold Except.toOption at hnext
    rw [hnext]
    rfl

theorem toOption_projectEvery (h : Reads lib lib') (hstagger : IsI32 snapshot.staggerSeconds)
    : (projectEvery Timestamp.second lib snapshot observedAt).toOption =
      (lib'.projectEvery snapshot observedAt).toOption := by
  unfold projectEvery ScheduleLibrary.projectEvery
  rw [show ((ScheduleConfig.get snapshot.scheduleConfig "interval_seconds").bind ScheduleConfig.asI64).filter
    (· > 0) = interval snapshot from rfl]
  cases hinterval : interval snapshot with
  | none => rfl
  | some seconds =>
    dsimp only
    unfold anchorAt
    cases (ScheduleConfig.get snapshot.scheduleConfig "anchor_at").bind Json.asStr with
    | none => exact toOption_every rfl hstagger (interval_pos hinterval).1
    | some text => exact toOption_every (toOption_parseUtc h text) hstagger (interval_pos hinterval).1

theorem toOption_projectCron (h : Reads lib lib') (hstagger : IsI32 snapshot.staggerSeconds)
    : (projectCron Timestamp.second lib snapshot observedAt).toOption =
      (lib'.projectCron snapshot observedAt).toOption := by
  unfold projectCron expression ScheduleLibrary.projectCron
  simp only [toOption_bind, toOption_lift, Option.bind_assoc, h.find]
  congr 1
  funext text
  rw [show ((ScheduleConfig.get snapshot.scheduleConfig "timezone").bind Json.asStr).getD snapshot.timezone =
    timezone snapshot from rfl]
  rw [← toOption_addSeconds (Or.inl (stagger_fits hstagger).2)]
  cases lib.tzFromStr (timezone snapshot) with
  | none =>
    cases addSeconds Timestamp.second observedAt (-snapshot.staggerSeconds) <;> rfl
  | some tz =>
    dsimp only
    cases lib.cronFromStr text with
    | none =>
      cases addSeconds Timestamp.second observedAt (-snapshot.staggerSeconds) <;> rfl
    | some cron =>
      simp only [Except.toOption, Option.bind_some]
      cases addSeconds Timestamp.second observedAt (-snapshot.staggerSeconds) with
      | error e => rfl
      | ok searchAt =>
        simp only [Option.bind_some]
        cases lib.findNextOccurrence cron tz searchAt with
        | none => rfl
        | some next =>
          have hadd : (addSeconds _ next _).toOption = _ := toOption_addSeconds (Or.inl (stagger_fits hstagger).1)
          dsimp only
          change (addSeconds Timestamp.second next snapshot.staggerSeconds >>= _).toOption =
            (Cron.addSeconds next snapshot.staggerSeconds >>= _).toOption
          rw [toOption_bind, toOption_bind, hadd]
          rfl

theorem toOption_projectSchedule (h : Reads lib lib') (hstagger : IsI32 snapshot.staggerSeconds)
    : (projectSchedule Timestamp.second lib snapshot observedAt).toOption =
      (lib'.projectSchedule snapshot observedAt).toOption := by
  have hfingerprint : lib'.scheduleFingerprint snapshot = scheduleFingerprint lib snapshot := h.digest _
  unfold projectSchedule ScheduleLibrary.projectSchedule
  dsimp only
  rw [hfingerprint]
  split
  . rfl
  . split
    . rfl
    . unfold projectType
      have hat : (projectAt Timestamp.second lib snapshot observedAt).toOption = _ :=
        toOption_projectAt h hstagger
      have hevery : (projectEvery Timestamp.second lib snapshot observedAt).toOption = _ :=
        toOption_projectEvery h hstagger
      have hcron : (projectCron Timestamp.second lib snapshot observedAt).toOption = _ :=
        toOption_projectCron h hstagger
      rw [toOption_bind]
      by_cases htype : snapshot.scheduleType = "at"
      . simp only [htype, hat, toOption_bind]
        rfl
      by_cases htype' : snapshot.scheduleType = "every"
      . simp only [htype', hevery, toOption_bind]
        rfl
      by_cases htype'' : snapshot.scheduleType = "cron"
      . simp only [htype'', hcron, toOption_bind]
        rfl
      . simp [bind, Except.bind, Except.toOption]

end Database

end ScheduleChecked
end Cron
end MemStack
