import Mathlib.Algebra.Order.Field.Basic
import Mathlib.Algebra.Order.Field.Rat
import Mathlib.Order.Interval.Set.Defs
import Mathlib.Tactic.FieldSimp
import Mathlib.Tactic.Linarith
import Mathlib.Tactic.NormNum
import Mathlib.Tactic.Ring

/-! How long a `Waiter` waits in an event of a given relative speed, with rational numbers for the
`double` of the source. The time rises along one line up to the switch and along another one from
there on. The second line lacks a factor, so the two do not meet in general. -/
namespace ToyMtFramework

structure Waiter where
  min : ℚ
  t1 : ℚ
  t2 : ℚ
  relativeSpeedSwitch : ℚ

namespace Waiter

structure Config where
  minTime : Option ℚ
  maxTime : Option ℚ
  averageTime : Option ℚ

/-- The constructor. It throws when there is no `averageTime`. -/
def ofConfig (config : Config) : Option Waiter :=
  let min := config.minTime.getD 0
  let max := config.maxTime.getD 0
  config.averageTime.map fun average =>
    if max = 0 then ⟨average,0,0,0⟩
    else ⟨min,average - min,max - average,(max - average) / (average - min + (max - average))⟩

section Times
variable (w : Waiter)

def below (relativeSpeed : ℚ) : ℚ :=
  w.min + w.t1 / w.relativeSpeedSwitch * relativeSpeed

def above (relativeSpeed : ℚ) : ℚ :=
  w.min + w.t1 + w.t2 * relativeSpeed + w.t2 / w.t1 * (relativeSpeed - 1)

def wait (relativeSpeed : ℚ) : ℚ :=
  if 0 = w.relativeSpeedSwitch then w.min
  else if relativeSpeed < w.relativeSpeedSwitch then w.below relativeSpeed
  else w.above relativeSpeed

structure Curve : Prop where
  t1 : 0 < w.t1
  t2 : 0 < w.t2
  switch : w.relativeSpeedSwitch = w.t2 / (w.t1 + w.t2)

theorem below_zero : w.below 0 = w.min := by
  rw [below,mul_zero,add_zero]

theorem above_one : w.above 1 = w.min + w.t1 + w.t2 := by
  rw [above,sub_self,mul_zero,mul_one,add_zero]

section Curve
variable {w} (curve : Curve w)
include curve

theorem Curve.switch_pos : 0 < w.relativeSpeedSwitch := by
  have sum := add_pos curve.t1 curve.t2
  rw [curve.switch]
  exact div_pos curve.t2 sum

theorem Curve.switch_lt_one : w.relativeSpeedSwitch < 1 := by
  have sum := add_pos curve.t1 curve.t2
  rw [curve.switch,div_lt_one sum]
  linarith only [curve.t1]

theorem Curve.wait_eq (relativeSpeed : ℚ) : w.wait relativeSpeed =
    if relativeSpeed < w.relativeSpeedSwitch then w.below relativeSpeed else w.above relativeSpeed := by
  rw [wait,if_neg curve.switch_pos.ne]

/-- The first line ends at the average time. -/
theorem Curve.below_switch : w.below w.relativeSpeedSwitch = w.min + w.t1 := by
  rw [below,div_mul_cancel₀ _ curve.switch_pos.ne']

/-- The second line begins off the average time, unless `t2` is one. -/
theorem Curve.above_switch :
    w.above w.relativeSpeedSwitch = w.min + w.t1 + w.relativeSpeedSwitch * (w.t2 - 1) := by
  have first := curve.t1.ne'
  have sum := (add_pos curve.t1 curve.t2).ne'
  rw [above,curve.switch]
  field_simp
  ring

theorem Curve.below_monotone : Monotone w.below := by
  intro r s le
  have slope := div_pos curve.t1 curve.switch_pos
  have rises := mul_le_mul_of_nonneg_left le slope.le
  rw [below,below]
  linarith only [rises]

theorem Curve.above_monotone : Monotone w.above := by
  intro r s le
  have slope := div_pos curve.t2 curve.t1
  have first := mul_le_mul_of_nonneg_left le curve.t2.le
  have second := mul_le_mul_of_nonneg_left (sub_le_sub_right le 1) slope.le
  rw [above,above]
  linarith only [first,second]

theorem Curve.wait_zero : w.wait 0 = w.min := by
  rw [curve.wait_eq,if_pos curve.switch_pos,below_zero]

theorem Curve.wait_one : w.wait 1 = w.min + w.t1 + w.t2 := by
  rw [curve.wait_eq,if_neg curve.switch_lt_one.le.not_gt,above_one]

theorem Curve.wait_switch : w.wait w.relativeSpeedSwitch = w.above w.relativeSpeedSwitch := by
  rw [curve.wait_eq,if_neg (lt_irrefl _)]

theorem Curve.wait_monotone (meet : w.below w.relativeSpeedSwitch ≤ w.above w.relativeSpeedSwitch) :
    Monotone w.wait := by
  intro r s le
  rw [curve.wait_eq,curve.wait_eq]
  by_cases early : s < w.relativeSpeedSwitch
  · rw [if_pos early,if_pos (le.trans_lt early)]
    exact curve.below_monotone le
  · have late := not_lt.mp early
    rw [if_neg early]
    by_cases before : r < w.relativeSpeedSwitch
    · rw [if_pos before]
      calc
        w.below r ≤ w.below w.relativeSpeedSwitch := curve.below_monotone before.le
        _ ≤ w.above w.relativeSpeedSwitch := meet
        _ ≤ w.above s := curve.above_monotone late
    · rw [if_neg before]
      exact curve.above_monotone le

end Curve
end Times

theorem ofConfig_curve {config : Config} {averageTime : ℚ} (given : config.averageTime = some averageTime)
    (nonneg : 0 ≤ config.minTime.getD 0) (slower : config.minTime.getD 0 < averageTime)
    (faster : averageTime < config.maxTime.getD 0) : ∃ w, ofConfig config = some w ∧ Curve w ∧
      w.min = config.minTime.getD 0 ∧ w.t1 = averageTime - w.min ∧ w.t2 = config.maxTime.getD 0 - averageTime := by
  have set : config.maxTime.getD 0 ≠ 0 := ((nonneg.trans_lt slower).trans faster).ne'
  have made : ofConfig config = some ⟨config.minTime.getD 0,averageTime - config.minTime.getD 0,
      config.maxTime.getD 0 - averageTime,(config.maxTime.getD 0 - averageTime) /
        (averageTime - config.minTime.getD 0 + (config.maxTime.getD 0 - averageTime))⟩ := by
    simp only [ofConfig,given,Option.map_some,if_neg set]
  exact ⟨_,made,⟨sub_pos.mpr slower,sub_pos.mpr faster,rfl⟩,rfl,rfl,rfl⟩

/-- The time behaves as the three times of the configuration say. -/
structure WellBehaved (w : Waiter) (minTime averageTime maxTime : ℚ) : Prop where
  range : ∀ r ∈ Set.Icc (0 : ℚ) 1, w.wait r ∈ Set.Icc minTime maxTime
  monotone : MonotoneOn w.wait (Set.Icc 0 1)
  branches : w.below w.relativeSpeedSwitch = w.above w.relativeSpeedSwitch
  switch : w.wait w.relativeSpeedSwitch = averageTime
  slowest : w.wait 0 = minTime
  fastest : w.wait 1 = maxTime

theorem Curve.wellBehaved {w : Waiter} (curve : Curve w) (one : w.t2 = 1) :
    WellBehaved w w.min (w.min + w.t1) (w.min + w.t1 + w.t2) := by
  have start : w.above w.relativeSpeedSwitch = w.min + w.t1 := by
    rw [curve.above_switch,one,sub_self,mul_zero,add_zero]
  have branches : w.below w.relativeSpeedSwitch = w.above w.relativeSpeedSwitch := by
    rw [curve.below_switch,start]
  have monotone := curve.wait_monotone branches.le
  refine ⟨?_,monotone.monotoneOn _,branches,?_,curve.wait_zero,curve.wait_one⟩
  · rintro r ⟨nonneg,le_one⟩
    constructor
    · rw [← curve.wait_zero]
      exact monotone nonneg
    · rw [← curve.wait_one]
      exact monotone le_one
  · rw [curve.wait_switch,start]

/-- The lines meet at the switch only if a second lies between the average and the maximal time. -/
theorem wellBehaved_iff (config : Config) (averageTime : ℚ) (given : config.averageTime = some averageTime)
    (nonneg : 0 ≤ config.minTime.getD 0) (slower : config.minTime.getD 0 < averageTime)
    (faster : averageTime < config.maxTime.getD 0) : ∃ w, ofConfig config = some w ∧
      (WellBehaved w (config.minTime.getD 0) averageTime (config.maxTime.getD 0) ↔
        config.maxTime.getD 0 - averageTime = 1) := by
  obtain ⟨w,made,curve,min,t1,t2⟩ := ofConfig_curve given nonneg slower faster
  have average : w.min + w.t1 = averageTime := by linarith only [t1]
  have max : w.min + w.t1 + w.t2 = config.maxTime.getD 0 := by linarith only [t1,t2]
  refine ⟨w,made,?_⟩
  rw [← min,← average,← max,add_sub_cancel_left]
  constructor
  · intro good
    have jump : w.relativeSpeedSwitch * (w.t2 - 1) = 0 := by
      have meets := good.branches
      rw [curve.below_switch,curve.above_switch] at meets
      linarith only [meets]
    rcases mul_eq_zero.mp jump with zero | one
    · exact absurd zero curve.switch_pos.ne'
    · exact sub_eq_zero.mp one
  · exact curve.wellBehaved

theorem wellBehaved_iff_seconds : ∃ w, ofConfig ⟨some 1,some 3,some 2⟩ = some w ∧ WellBehaved w 1 2 3 := by
  obtain ⟨w,made,good⟩ :=
    wellBehaved_iff ⟨some 1,some 3,some 2⟩ 2 rfl (by norm_num) (by norm_num) (by norm_num)
  exact ⟨w,made,good.mpr (by norm_num)⟩

/-- At the switch the time is less than the minimal one. -/
theorem wait_below_minTime : ∃ w, ofConfig ⟨some 1,some (6/5),some (11/10)⟩ = some w ∧
    w.relativeSpeedSwitch = 1/2 ∧ w.below (1/2) = 11/10 ∧ w.wait (1/2) = 13/20 ∧
      ¬WellBehaved w 1 (11/10) (6/5) := by
  refine ⟨⟨1,1/10,1/10,1/2⟩,by norm_num [ofConfig],rfl,by norm_num [below],?_,fun good => ?_⟩
  · norm_num [wait,above]
  · have meets := good.branches
    norm_num [below,above] at meets

end Waiter
end ToyMtFramework
