import Mathlib.Algebra.Ring.Int.Defs
import Mathlib.Algebra.Ring.Nat
import Mathlib.Data.Int.Order.Basic
import Mathlib.Data.List.Range
import Mathlib.Data.Rat.Defs

/-! The loop of `busyWait`. Its counter is an `int` and is compared, as an `unsigned long long`, with the
number of steps asked for. Where C++ leaves open what follows an overflow, the counter wraps around here
and the overflow is kept on record. -/
namespace ToyMtFramework.BusyWait

variable {α : Type}

def intMax : Int := 2 ^ 31 - 1

def intMin : Int := -2 ^ 31

def toUnsignedLongLong (i : Int) : Nat :=
  (i % 2 ^ 64).toNat

structure State (α : Type) where
  i : Int
  value : α
  executed : Nat
  overflowed : Bool

section Loop
variable (body : Int → α → α) (iCount : UInt64)

/-- The body and `++i`, unless the loop ends. -/
def step (s : State α) : Option (State α) :=
  if toUnsignedLongLong s.i < iCount.toNat then
    some ⟨if s.i = intMax then intMin else s.i + 1,body s.i s.value,s.executed + 1,
      s.overflowed || decide (s.i = intMax)⟩
  else none

def loop : Nat → State α → Option (State α)
  | 0, _ => none
  | fuel + 1, s =>
    match step body iCount s with
    | none => some s
    | some t => loop fuel t

def busyWait (zero : α) (fuel : Nat) : Option (State α) :=
  loop body iCount fuel ⟨0,zero,0,false⟩

def Performs (zero : α) : Prop :=
  ∃ fuel s, busyWait body iCount zero fuel = some s ∧ s.executed = iCount.toNat ∧ s.overflowed = false

variable {body iCount}

theorem loop_unique {fuel more : Nat} {t s u : State α} (ended : loop body iCount fuel t = some s)
    (other : loop body iCount more t = some u) : s = u := by
  induction fuel generalizing t more with
  | zero => cases ended
  | succ fuel ih =>
    cases more with
    | zero => cases other
    | succ more =>
      rw [loop] at ended other
      cases next : step body iCount t with
      | none =>
        rw [next] at ended other
        exact (Option.some.inj ended).symm.trans (Option.some.inj other)
      | some v =>
        rw [next] at ended other
        exact ih ended other

theorem loop_ends {s : State α} (reached : iCount.toNat ≤ toUnsignedLongLong s.i) (fuel : Nat) :
    loop body iCount (fuel + 1) s = some s := by
  rw [loop,step,if_neg reached.not_gt]

/-- The values of the counter for which the body is executed before it goes on by one. -/
def Counts (iCount : UInt64) (i : Int) : Prop :=
  toUnsignedLongLong i < iCount.toNat ∧ i ≠ intMax

def sum (body : Int → α → α) (i : Int) (value : α) (n : Nat) : α :=
  (List.range n).foldl (fun sum (k : Nat) => body (i + k) sum) value

theorem sum_succ (i : Int) (value : α) (n : Nat) :
    sum body i value (n + 1) = body (i + n) (sum body i value n) := by
  rw [sum,List.range_succ,List.foldl_concat,← sum]

/-- While the counter goes up, the body is executed for each of its values in order. -/
theorem loop_counts (s : State α) (n : Nat) (counts : ∀ k : Nat, k < n → Counts iCount (s.i + k)) (fuel : Nat) :
    loop body iCount (fuel + n) s =
      loop body iCount fuel ⟨s.i + n,sum body s.i s.value n,s.executed + n,s.overflowed⟩ := by
  induction n generalizing fuel with
  | zero => simp [sum]
  | succ n ih =>
    obtain ⟨below,more⟩ := counts n (Nat.lt_succ_self n)
    have shift : fuel + (n + 1) = fuel + 1 + n := by omega
    have next : s.i + n + 1 = s.i + (n + 1 : Nat) := by omega
    rw [shift,ih (fun k less => counts k (Nat.lt_succ_of_lt less)),loop,step,if_pos below]
    simp [more,next,sum_succ,Nat.add_assoc]

theorem toUnsignedLongLong_nonneg {i : Int} (nonneg : 0 ≤ i) (bound : i < 2 ^ 64) :
    toUnsignedLongLong i = i.toNat := by
  rw [toUnsignedLongLong,Int.emod_eq_of_lt nonneg bound]

theorem toUnsignedLongLong_neg {i : Int} (neg : i < 0) (bound : -2 ^ 64 ≤ i) :
    toUnsignedLongLong i = (i + 2 ^ 64).toNat := by
  rw [toUnsignedLongLong,← Int.add_emod_right,Int.emod_eq_of_lt (by omega) (by omega)]

theorem counts_nonneg {n : Nat} (below : n < iCount.toNat) (small : n < 2 ^ 31 - 1) : Counts iCount (0 + n) := by
  constructor
  · rw [toUnsignedLongLong_nonneg (by omega) (by omega)]
    omega
  · rw [intMax]
    omega

/-- Below zero the counter is compared as a number close to `2 ^ 64`. -/
theorem counts_neg {n : Nat} (below : n + (2 ^ 64 - 2 ^ 31) < iCount.toNat) : Counts iCount (intMin + n) := by
  have bound := iCount.toNat_lt
  rw [intMin]
  constructor
  · rw [toUnsignedLongLong_neg (by omega) (by omega)]
    omega
  · rw [intMax]
    omega

theorem busyWait_small (body : Int → α → α) (zero : α) (small : iCount.toNat < 2 ^ 31) :
    busyWait body iCount zero (1 + iCount.toNat) =
      some ⟨iCount.toNat,sum body 0 zero iCount.toNat,iCount.toNat,false⟩ := by
  have reached : iCount.toNat ≤ toUnsignedLongLong iCount.toNat := by
    rw [toUnsignedLongLong_nonneg (by omega) (by omega)]
    exact Nat.le_refl _
  rw [busyWait,loop_counts _ _ fun k less => counts_nonneg less (by omega)]
  simp only [Int.zero_add,Nat.zero_add]
  exact loop_ends reached 0

/-- With a larger one the counter overflows after the step for the largest `int`. -/
theorem busyWait_large (body : Int → α → α) (zero : α) (large : 2 ^ 31 ≤ iCount.toNat) (fuel : Nat) :
    busyWait body iCount zero (fuel + 2 ^ 31) =
      loop body iCount fuel ⟨intMin,sum body 0 zero (2 ^ 31),2 ^ 31,true⟩ := by
  obtain ⟨n,full⟩ : ∃ n, 2 ^ 31 = n + 1 := ⟨2 ^ 31 - 1,rfl⟩
  have last : (0 : Int) + n = intMax := by
    rw [intMax]
    omega
  have shift : fuel + (n + 1) = fuel + 1 + n := by omega
  have below : toUnsignedLongLong (0 + n) < iCount.toNat := by
    rw [toUnsignedLongLong_nonneg (by omega) (by omega)]
    omega
  rw [full,busyWait,shift,loop_counts _ _ fun k less => counts_nonneg (by omega) (by omega)]
  rw [loop,step,if_pos below,if_pos last,sum_succ]
  simp [last]

/-- From the smallest `int` on, the body is executed while the counter is below the number of steps. -/
theorem busyWait_wrapped (body : Int → α → α) (zero : α) (large : 2 ^ 31 ≤ iCount.toNat) : ∃ fuel s,
    busyWait body iCount zero fuel = some s ∧ s.overflowed = true ∧
      s.executed = 2 ^ 31 + (iCount.toNat - (2 ^ 64 - 2 ^ 31)) := by
  have bound := iCount.toNat_lt
  obtain ⟨more,same⟩ : ∃ more, more = iCount.toNat - (2 ^ 64 - 2 ^ 31) := ⟨_,rfl⟩
  have reached : iCount.toNat ≤ toUnsignedLongLong (intMin + more) := by
    rw [intMin,toUnsignedLongLong_neg (by omega) (by omega)]
    omega
  have ran := busyWait_large body zero large (1 + more)
  rw [loop_counts _ more fun k less => counts_neg (by omega)] at ran
  rw [← same]
  exact ⟨_,_,ran.trans (loop_ends reached 0),rfl,rfl⟩

theorem large_fails (body : Int → α → α) (zero : α) (large : 2 ^ 31 ≤ iCount.toNat) :
    ¬Performs body iCount zero := by
  rintro ⟨fuel,s,ended,_,fits⟩
  obtain ⟨more,t,wrapped,overflowed,_⟩ := busyWait_wrapped body zero large
  rw [loop_unique ended wrapped,overflowed] at fits
  cases fits

end Loop

/-- The loop does what it is asked for if and only if the number of steps fits into its counter. -/
theorem performs_iff (body : Int → α → α) (iCount : UInt64) (zero : α) :
    Performs body iCount zero ↔ iCount.toNat < 2 ^ 31 := by
  constructor
  · intro performs
    by_contra large
    exact large_fails body zero (not_lt.mp large) performs
  · intro small
    exact ⟨_,_,busyWait_small body zero small,rfl,rfl⟩

/-- What a module that waits for so many seconds asks for, in each of its ranges; a value that does not
fit is not converted. -/
def count (seconds busyWaitScaleFactor nRanges : ℚ) : Option UInt64 :=
  let work := (seconds * busyWaitScaleFactor / nRanges).floor
  if 0 ≤ work ∧ work < 2 ^ 64 then some (UInt64.ofNat work.toNat) else none

theorem busyWait_hundred : ∃ iCount, count 100 22000000 1 = some iCount ∧ iCount.toNat = 2200000000 ∧
    (∃ fuel s, busyWait (fun _ value => value) iCount () fuel = some s ∧ s.overflowed = true ∧
      s.executed = 2147483648) ∧ ¬Performs (fun _ value => value) iCount () :=
  ⟨2200000000,by decide +kernel,rfl,busyWait_wrapped _ () (by decide),large_fails _ () (by decide)⟩

end ToyMtFramework.BusyWait
