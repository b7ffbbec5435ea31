import ToyMtFramework.Core.DispatchQueues

/-! Groups of tasks. A group is entered and left. A block that is to be notified of a group is submitted
at once if the group is empty, or else when it next becomes empty; the group may be entered again
before the block is executed. Turns of the tasks in a serial queue are counted here too. -/
namespace ToyMtFramework.Activities
open DispatchQueues (mark mark_self)

variable {φ κ : Type*}

/-- How often each group was entered and not left yet, and how often it has become empty.
`overLeft` is set when a group is left more often than it was entered. -/
structure DispatchGroups (κ : Type*) where
  count : κ → Nat
  emptied : κ → Nat
  overLeft : Bool

namespace DispatchGroups
variable [DecidableEq κ] (d : DispatchGroups κ) (g p : κ)

def enter : DispatchGroups κ :=
  {d with count := Function.update d.count g (d.count g + 1)}

def leave : DispatchGroups κ where
  count := Function.update d.count g (d.count g - 1)
  emptied := Function.update d.emptied g (d.emptied g + if d.count g = 1 then 1 else 0)
  overLeft := d.overLeft || d.count g = 0

theorem enter_count : (d.enter g).count p = d.count p + mark g p := by
  by_cases same : g = p
  · subst p
    simp [enter,mark]
  · simp [enter,mark,same,Ne.symm same]

theorem leave_count (entered : 0 < d.count g) : (d.leave g).count p + mark g p = d.count p := by
  by_cases same : g = p
  · subst p
    simp [leave,mark,Nat.sub_add_cancel entered]
  · simp [leave,mark,same,Ne.symm same]

end DispatchGroups

/-- A group goes on: what it is waited for has come when it has become empty. -/
structure Advances (d e : DispatchGroups κ) : Prop where
  emptied : ∀ g, d.emptied g ≤ e.emptied g
  busy : ∀ g, e.emptied g = d.emptied g → 0 < d.count g → 0 < e.count g
  became : ∀ g, d.emptied g < e.emptied g → e.count g = 0

theorem Advances.refl (d : DispatchGroups κ) : Advances d d :=
  ⟨fun _ => Nat.le_refl _,fun _ _ some => some,fun _ more => absurd more (Nat.lt_irrefl _)⟩

section Advances
variable [DecidableEq κ]

theorem advances_enter (d : DispatchGroups κ) (g : κ) : Advances d (d.enter g) := by
  refine ⟨fun _ => Nat.le_refl _,fun p _ some => ?_,fun p more => absurd more (Nat.lt_irrefl _)⟩
  rw [d.enter_count]
  exact Nat.lt_of_lt_of_le some (Nat.le_add_right _ _)

theorem advances_leave (d : DispatchGroups κ) (g : κ) : Advances d (d.leave g) := by
  constructor
  · intro p
    by_cases same : p = g
    · subst p
      simp [DispatchGroups.leave]
    · simp [DispatchGroups.leave,same]
  · intro p still some
    by_cases same : p = g
    · subst p
      simp only [DispatchGroups.leave,Function.update_self] at still ⊢
      split at still <;> omega
    · simpa [DispatchGroups.leave,same] using some
  · intro p more
    by_cases same : p = g
    · subst p
      simp only [DispatchGroups.leave,Function.update_self] at more ⊢
      split at more <;> omega
    · simp [DispatchGroups.leave,same] at more

end Advances

/-- Something waits since then for the group to become empty, and finds `P` when it has. -/
structure Awaits (d : DispatchGroups κ) (g : κ) (since : Nat) (P : Prop) : Prop where
  past : since ≤ d.emptied g
  busy : since = d.emptied g → 0 < d.count g
  found : since < d.emptied g → P

theorem Awaits.start {d : DispatchGroups κ} {g : κ} (P : Prop) (busy : 0 < d.count g) :
    Awaits d g (d.emptied g) P :=
  ⟨Nat.le_refl _,fun _ => busy,fun more => absurd more (Nat.lt_irrefl _)⟩

theorem Awaits.step {d e : DispatchGroups κ} {g : κ} {n : Nat} {P Q : Prop} (awaits : Awaits d g n P)
    (advances : Advances d e) (stable : P → Q) (now : e.count g = 0 → Q) : Awaits e g n Q := by
  obtain ⟨past,busy,found⟩ := awaits
  have later := advances.emptied g
  refine ⟨by omega,fun same => ?_,fun more => ?_⟩
  · exact advances.busy g (by omega) (busy (by omega))
  · by_cases before : n < d.emptied g
    · exact stable (found before)
    · exact now (advances.became g (by omega))

structure Balanced (owes : κ → φ → Nat) (d : DispatchGroups κ) (bag : Multiset φ) : Prop where
  count : ∀ g, d.count g = weigh (owes g) bag
  matched : d.overLeft = false

namespace Balanced
variable {owes : κ → φ → Nat} {d : DispatchGroups κ} {f : φ} {rest frames : Multiset φ} {g : κ}

theorem keep (balanced : Balanced owes d (f ::ₘ rest)) (same : ∀ p, weigh (owes p) frames = owes p f) :
    Balanced owes d (frames + rest) :=
  ⟨fun p => by rw [weigh_add,same,← weigh_cons,balanced.count],balanced.matched⟩

variable [DecidableEq κ]

theorem enter (balanced : Balanced owes d (f ::ₘ rest))
    (more : ∀ p, weigh (owes p) frames = owes p f + mark g p) : Balanced owes (d.enter g) (frames + rest) := by
  refine ⟨fun p => ?_,balanced.matched⟩
  rw [d.enter_count,balanced.count,weigh_add,weigh_cons,more]
  omega

theorem leave (balanced : Balanced owes d (f ::ₘ rest))
    (less : ∀ p, weigh (owes p) frames + mark g p = owes p f) : Balanced owes (d.leave g) (frames + rest) := by
  have entered : 0 < d.count g := by
    have own := less g
    rw [mark_self] at own
    rw [balanced.count,weigh_cons]
    omega
  refine ⟨fun p => ?_,?_⟩
  · have after := d.leave_count g p entered
    have before := balanced.count p
    have own := less p
    rw [weigh_cons] at before
    rw [weigh_add]
    omega
  · simp [DispatchGroups.leave,balanced.matched,Nat.pos_iff_ne_zero.mp entered]

end Balanced

/-- Each task that was added to a queue and has not begun waits for its own turn. -/
structure Turns (turn : κ → Nat → φ → Nat) (d : DispatchQueues κ) (bag : Multiset φ) : Prop where
  waiting : ∀ q n, weigh (turn q n) bag = if d.started q ≤ n ∧ n < d.added q then 1 else 0
  order : ∀ q, d.started q ≤ d.added q

namespace Turns
variable {turn : κ → Nat → φ → Nat} {d e : DispatchQueues κ} {f : φ} {rest frames : Multiset φ} {q : κ}

theorem keep (turns : Turns turn d (f ::ₘ rest)) (added : e.added = d.added) (started : e.started = d.started)
    (same : ∀ p n, weigh (turn p n) frames = turn p n f) : Turns turn e (frames + rest) := by
  refine ⟨fun p n => ?_,by rw [added,started]; exact turns.order⟩
  rw [weigh_add,same,← weigh_cons,turns.waiting,added,started]

/-- The first task that waits. -/
theorem next_waits {bag : Multiset φ} (turns : Turns turn d bag) (some : d.started q ≠ d.added q) :
    ∃ f ∈ bag, 0 < turn q (d.started q) f := by
  refine (weigh_pos_iff _ _).mp ?_
  have order := turns.order q
  rw [turns.waiting,if_pos ⟨Nat.le_refl _,by omega⟩]
  exact Nat.one_pos

variable [DecidableEq κ]

theorem add (turns : Turns turn d (f ::ₘ rest))
    (one : ∀ p n, weigh (turn p n) frames = turn p n f + if q = p ∧ n = d.added q then 1 else 0) :
    Turns turn (d.add q) (frames + rest) := by
  constructor
  · intro p n
    have before := turns.waiting p n
    have order := turns.order p
    rw [weigh_cons] at before
    rw [weigh_add,one]
    by_cases same : q = p
    · subst p
      simp only [DispatchQueues.add,Function.update_self,true_and]
      split_ifs at before ⊢ <;> omega
    · simp only [DispatchQueues.add,Function.update_of_ne (Ne.symm same),same,false_and,if_false]
      omega
  · intro p
    have order := turns.order p
    by_cases same : p = q
    · subst p
      simp [DispatchQueues.add]
      omega
    · simpa [DispatchQueues.add,same] using order

theorem start {n : Nat} (turns : Turns turn d (f ::ₘ rest)) (began : d.start q n = some e)
    (one : ∀ p m, weigh (turn p m) frames + (if q = p ∧ m = n then 1 else 0) = turn p m f) :
    Turns turn e (frames + rest) := by
  obtain ⟨⟨here,_⟩,same⟩ := Option.ite_none_right_eq_some.mp began
  obtain rfl := Option.some.inj same
  have mine : d.started q < d.added q := by
    have own := one q n
    have before := turns.waiting q n
    rw [if_pos ⟨rfl,rfl⟩] at own
    rw [weigh_cons] at before
    split_ifs at before <;> omega
  constructor
  · intro p m
    have before := turns.waiting p m
    have own := one p m
    rw [weigh_cons] at before
    rw [weigh_add]
    by_cases same : q = p
    · subst p
      simp only [Function.update_self,true_and] at own ⊢
      split_ifs at before own ⊢ <;> omega
    · simp only [Function.update_of_ne (Ne.symm same)]
      rw [if_neg (fun both => same both.1)] at own
      omega
  · intro p
    by_cases same : p = q
    · subst p
      simp only [Function.update_self]
      omega
    · simpa only [Function.update_of_ne same] using turns.order p

end Turns
end ToyMtFramework.Activities
