import ToyMtFramework.Core.Activities

/-! Serial queues that can be suspended. A queue starts its tasks one at a time in the order in which they
were added, and none while it is suspended. A task that suspends the queue it is executed by holds the
queue until it is resumed, also after the task has ended: the queue works as a lock. -/
namespace ToyMtFramework.Activities

variable {φ κ : Type*} [DecidableEq κ]

/-- The number of tasks that were added to each queue and that it has started, and its suspension count.
`overResumed` is set when a queue is resumed more often than it was suspended. -/
structure DispatchQueues (κ : Type*) where
  added : κ → Nat
  started : κ → Nat
  running : κ → Bool
  suspended : κ → Nat
  overResumed : Bool

namespace DispatchQueues

def empty : DispatchQueues κ where
  added := fun _ => 0
  started := fun _ => 0
  running := fun _ => false
  suspended := fun _ => 0
  overResumed := false

variable (d : DispatchQueues κ) (q p : κ)

/-- The turn of the next task that is added is `d.added q`. -/
def add : DispatchQueues κ :=
  {d with added := Function.update d.added q (d.added q + 1)}

def start (turn : Nat) : Option (DispatchQueues κ) :=
  if d.started q = turn ∧ d.running q = false ∧ d.suspended q = 0 then
    some {d with
      started := Function.update d.started q (turn + 1)
      running := Function.update d.running q true}
  else none

def finish : DispatchQueues κ :=
  {d with running := Function.update d.running q false}

def suspend : DispatchQueues κ :=
  {d with suspended := Function.update d.suspended q (d.suspended q + 1)}

def resume : DispatchQueues κ :=
  {d with
    suspended := Function.update d.suspended q (d.suspended q - 1)
    overResumed := d.overResumed || d.suspended q = 0}

def mark : Nat :=
  if q = p then 1 else 0

theorem mark_self : mark q q = 1 :=
  if_pos rfl

theorem suspend_suspended : (d.suspend q).suspended p = d.suspended p + mark q p := by
  by_cases same : q = p
  · subst p
    simp [suspend,mark]
  · simp [suspend,mark,same,Ne.symm same]

theorem resume_suspended (held : 0 < d.suspended q) :
    (d.resume q).suspended p + mark q p = d.suspended p := by
  by_cases same : q = p
  · subst p
    simp [resume,mark,Nat.sub_add_cancel held]
  · simp [resume,mark,same,Ne.symm same]

theorem finish_running (busy : d.running q = true) :
    ((d.finish q).running p).toNat + mark q p = (d.running p).toNat := by
  by_cases same : q = p
  · subst p
    simp [finish,mark,busy]
  · simp [finish,mark,same,Ne.symm same]

theorem start_cases {d e : DispatchQueues κ} {q : κ} {turn : Nat} (began : d.start q turn = some e) :
    d.running q = false ∧ d.suspended q = 0 ∧ e.suspended = d.suspended ∧ e.overResumed = d.overResumed ∧
      ∀ p, (e.running p).toNat = (d.running p).toNat + mark q p := by
  obtain ⟨⟨_,idle,free⟩,same⟩ := Option.ite_none_right_eq_some.mp began
  obtain rfl := Option.some.inj same
  refine ⟨idle,free,rfl,rfl,fun p => ?_⟩
  by_cases same : q = p
  · subst p
    simp [mark,idle]
  · simp [mark,same,Ne.symm same]

def Quiet (d : DispatchQueues κ) (q : κ) (count : Nat) : Prop :=
  d.started q = d.added q ∧ d.running q = false ∧ d.suspended q = count

omit [DecidableEq κ] in
theorem empty_quiet : (empty : DispatchQueues κ).Quiet q 0 :=
  ⟨rfl,rfl,rfl⟩

theorem Quiet.resume {d : DispatchQueues κ} {q : κ} {count : Nat} (quiet : d.Quiet q (count + 1)) :
    (d.resume q).Quiet q count := by
  obtain ⟨ended,idle,suspended⟩ := quiet
  refine ⟨ended,idle,?_⟩
  simp [DispatchQueues.resume,suspended]

theorem Quiet.resume_other {d : DispatchQueues κ} {q p : κ} {count : Nat} (quiet : d.Quiet p count)
    (other : p ≠ q) : (d.resume q).Quiet p count := by
  obtain ⟨ended,idle,suspended⟩ := quiet
  refine ⟨ended,idle,?_⟩
  simp [DispatchQueues.resume,other,suspended]

theorem Quiet.started {d : DispatchQueues κ} {q : κ} (quiet : d.Quiet q 0) :
    ∃ e, (d.add q).start q (d.added q) = some e := by
  obtain ⟨ended,idle,suspended⟩ := quiet
  exact ⟨_,if_pos ⟨ended,idle,suspended⟩⟩

/-- What is left after a task that was added to a quiet queue has suspended it and ended. -/
theorem Quiet.locked {d e : DispatchQueues κ} {q : κ} (quiet : d.Quiet q 0)
    (began : (d.add q).start q (d.added q) = some e) : ((e.suspend q).finish q).Quiet q 1 ∧
      ∀ p count, p ≠ q → d.Quiet p count → ((e.suspend q).finish q).Quiet p count := by
  obtain ⟨ended,idle,suspended⟩ := quiet
  obtain rfl : _ = e := Option.some.inj ((if_pos ⟨ended,idle,suspended⟩).symm.trans began)
  constructor
  · simp [Quiet,finish,suspend,add,suspended]
  · intro p count other before
    simpa [Quiet,finish,suspend,add,other] using before

end DispatchQueues

open DispatchQueues

/-- What a frame has to do with a queue: whether it is part of the task the queue executes, is about to
suspend the queue in it, or has still to resume the queue. -/
structure Accounts (φ κ : Type*) where
  executes : κ → φ → Nat
  suspends : κ → φ → Nat
  holds : κ → φ → Nat
  inside : ∀ q f, suspends q f ≤ executes q f

/-- The accounts are right, and a queue is held or about to be held only once. -/
structure Accounts.Locked (accounts : Accounts φ κ) (d : DispatchQueues κ) (bag : Multiset φ) : Prop where
  running : ∀ q, weigh (accounts.executes q) bag = (d.running q).toNat
  suspended : ∀ q, weigh (accounts.holds q) bag = d.suspended q
  one : ∀ q, d.suspended q + weigh (accounts.suspends q) bag ≤ 1
  matched : d.overResumed = false

namespace Accounts.Locked
variable {accounts : Accounts φ κ} {d e : DispatchQueues κ} {f : φ} {rest g : Multiset φ} {q : κ}

omit [DecidableEq κ] in
theorem suspended_le {bag : Multiset φ} (locked : accounts.Locked d bag) (q : κ) : d.suspended q ≤ 1 :=
  Nat.le_trans (Nat.le_add_right _ _) (locked.one q)

omit [DecidableEq κ] in
/-- A frame that has nothing to do with the queues is replaced by others, or tasks are added. -/
theorem keep (locked : accounts.Locked d (f ::ₘ rest)) (running : e.running = d.running)
    (suspended : e.suspended = d.suspended) (resumes : e.overResumed = d.overResumed)
    (executes : ∀ p, weigh (accounts.executes p) g = accounts.executes p f)
    (suspends : ∀ p, weigh (accounts.suspends p) g ≤ accounts.suspends p f)
    (holds : ∀ p, weigh (accounts.holds p) g = accounts.holds p f) : accounts.Locked e (g + rest) := by
  constructor
  · intro p
    rw [weigh_add,executes,running,← locked.running,weigh_cons]
  · intro p
    rw [weigh_add,holds,suspended,← locked.suspended,weigh_cons]
  · intro p
    have one := locked.one p
    have less := suspends p
    rw [weigh_cons] at one
    rw [weigh_add,suspended]
    omega
  · rw [resumes,locked.matched]

theorem start {turn : Nat} (locked : accounts.Locked d (f ::ₘ rest)) (began : d.start q turn = some e)
    (executes : ∀ p, weigh (accounts.executes p) g = accounts.executes p f + mark q p)
    (suspends : ∀ p, weigh (accounts.suspends p) g ≤ mark q p)
    (holds : ∀ p, weigh (accounts.holds p) g = accounts.holds p f) : accounts.Locked e (g + rest) := by
  obtain ⟨idle,free,suspended,resumes,running⟩ := start_cases began
  constructor
  · intro p
    have before := locked.running p
    rw [weigh_cons] at before
    rw [weigh_add,executes,running]
    omega
  · intro p
    rw [weigh_add,holds,suspended,← locked.suspended,weigh_cons]
  · intro p
    have one := locked.one p
    have less := suspends p
    rw [weigh_cons] at one
    rw [weigh_add,suspended]
    by_cases same : q = p
    · -- the queue executes nothing else, so no other frame is about to suspend it
      subst p
      have quiet : weigh (accounts.suspends q) rest = 0 := by
        have before := locked.running q
        have inside := weigh_le (accounts.inside q) rest
        rw [weigh_cons,idle,Bool.toNat_false] at before
        omega
      rw [mark_self] at less
      omega
    · rw [mark,if_neg same] at less
      omega
  · rw [resumes,locked.matched]

theorem finish (locked : accounts.Locked d (f ::ₘ rest))
    (executes : ∀ p, weigh (accounts.executes p) g + mark q p = accounts.executes p f)
    (suspends : ∀ p, weigh (accounts.suspends p) g ≤ accounts.suspends p f)
    (holds : ∀ p, weigh (accounts.holds p) g = accounts.holds p f) :
    accounts.Locked (d.finish q) (g + rest) := by
  have busy : d.running q = true := by
    have before := locked.running q
    have own := executes q
    rw [weigh_cons] at before
    rw [mark_self] at own
    cases running : d.running q with
    | true => rfl
    | false =>
      rw [running,Bool.toNat_false] at before
      omega
  constructor
  · intro p
    have before := locked.running p
    have own := executes p
    have after := d.finish_running q p busy
    rw [weigh_cons] at before
    rw [weigh_add]
    omega
  · intro p
    rw [weigh_add,holds,← weigh_cons]
    exact locked.suspended p
  · intro p
    have one := locked.one p
    have less := suspends p
    rw [weigh_cons] at one
    rw [weigh_add]
    change d.suspended p + _ ≤ 1
    omega
  · exact locked.matched

theorem suspend (locked : accounts.Locked d (f ::ₘ rest))
    (executes : ∀ p, weigh (accounts.executes p) g = accounts.executes p f)
    (suspends : ∀ p, weigh (accounts.suspends p) g + mark q p = accounts.suspends p f)
    (holds : ∀ p, weigh (accounts.holds p) g = accounts.holds p f + mark q p) :
    accounts.Locked (d.suspend q) (g + rest) := by
  constructor
  · intro p
    rw [weigh_add,executes,← weigh_cons]
    exact locked.running p
  · intro p
    have before := locked.suspended p
    rw [weigh_cons] at before
    rw [weigh_add,holds,suspend_suspended]
    omega
  · intro p
    have one := locked.one p
    have own := suspends p
    rw [weigh_cons] at one
    rw [weigh_add,suspend_suspended]
    omega
  · exact locked.matched

theorem resume (locked : accounts.Locked d (f ::ₘ rest))
    (executes : ∀ p, weigh (accounts.executes p) g = accounts.executes p f)
    (suspends : ∀ p, weigh (accounts.suspends p) g ≤ accounts.suspends p f)
    (holds : ∀ p, weigh (accounts.holds p) g + mark q p = accounts.holds p f) :
    accounts.Locked (d.resume q) (g + rest) := by
  have held : 0 < d.suspended q := by
    have before := locked.suspended q
    have own := holds q
    rw [weigh_cons] at before
    rw [mark_self] at own
    omega
  constructor
  · intro p
    rw [weigh_add,executes,← weigh_cons]
    exact locked.running p
  · intro p
    have before := locked.suspended p
    have own := holds p
    have after := d.resume_suspended q p held
    rw [weigh_cons] at before
    rw [weigh_add]
    omega
  · intro p
    have one := locked.one p
    have less := suspends p
    have after := d.resume_suspended q p held
    rw [weigh_cons] at one
    rw [weigh_add]
    omega
  · have free : decide (d.suspended q = 0) = false := decide_eq_false (Nat.pos_iff_ne_zero.mp held)
    simp only [DispatchQueues.resume,locked.matched,free,Bool.or_false]

omit [DecidableEq κ] in
/-- Frames whose weight is at most that of the holders are no more than one. -/
theorem held_le_one {bag : Multiset φ} (locked : accounts.Locked d bag) {weight : φ → Nat}
    (le : ∀ f ∈ bag, weight f ≤ accounts.holds q f) : weigh weight bag ≤ 1 := by
  have held := weigh_le_of_mem le
  rw [locked.suspended] at held
  exact held.trans (locked.suspended_le q)

end Accounts.Locked
end ToyMtFramework.Activities
