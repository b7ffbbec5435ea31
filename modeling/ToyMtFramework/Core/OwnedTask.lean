import Mathlib.Data.List.Count
import Mathlib.Data.Option.Basic

/-! One task owned by any number of counted references and submitted by the last of them to go.
The counter has `limit` values. Owners may report errors, of which the first to be stored stays:
a report that finds no error stored stores its own in a later step. -/
namespace ToyMtFramework

@[ext]
structure OwnedTask (E : Type*) where
  created : Bool
  owners : Nat
  count : Nat
  submitted : Nat
  running : Nat
  executed : List (Option E)
  reported : List E
  storing : Nat
  error : Option E

namespace OwnedTask

variable {E : Type*} {limit : Nat}

def initial (E : Type*) : OwnedTask E where
  created := false
  owners := 0
  count := 0
  submitted := 0
  running := 0
  executed := []
  reported := []
  storing := 0
  error := none

def incremented (limit : Nat) (x : OwnedTask E) : OwnedTask E :=
  {x with owners := x.owners + 1, count := (x.count + 1) % limit}

def decremented (limit : Nat) (x : OwnedTask E) : OwnedTask E :=
  {x with owners := x.owners - 1, count := (x.count + (limit - 1)) % limit}

inductive Effect (limit : Nat) (x : OwnedTask E) : OwnedTask E → Prop
  | idle : Effect limit x x
  | create (fresh : x.created = false) : Effect limit x {x.incremented limit with created := true}
  | acquire (owned : 0 < x.owners) : Effect limit x (x.incremented limit)
  | drop (owned : 0 < x.owners) (more : (x.decremented limit).count ≠ 0) :
      Effect limit x (x.decremented limit)
  | submit (owned : 0 < x.owners) (last : (x.decremented limit).count = 0) :
      Effect limit x {x.decremented limit with submitted := x.submitted + 1, running := x.running + 1}
  | report (owned : 0 < x.owners) (e : E) (unset : x.error = none) :
      Effect limit x {x with reported := x.reported ++ [e], storing := x.storing + 1}
  | reportLate (owned : 0 < x.owners) (e : E) (set : x.error ≠ none) :
      Effect limit x {x with reported := x.reported ++ [e]}
  | store (owned : 0 < x.owners) (e : E) (known : e ∈ x.reported) (storing : 0 < x.storing) :
      Effect limit x {x with error := x.error.or (some e), storing := x.storing - 1}
  | execute (running : 0 < x.running) :
      Effect limit x {x with running := x.running - 1, executed := x.executed ++ [x.error]}

/-- The counter counts the owners, the task is submitted when it has lost them all, and the error
it is executed with is one of those reported. -/
structure Sound (limit : Nat) (x : OwnedTask E) : Prop where
  bound : x.owners < limit
  count : x.count = x.owners
  created : x.created = false → x.owners = 0
  submitted : x.submitted = if x.created = true ∧ x.owners = 0 then 1 else 0
  executed : x.executed.length + x.running = x.submitted
  unset : x.error = none → x.reported ≠ [] → 0 < x.storing
  storing : 0 < x.storing → 0 < x.owners
  known : ∀ e, x.error = some e → e ∈ x.reported
  seen : ∀ error ∈ x.executed, error = x.error

theorem Sound.initial (positive : 0 < limit) : Sound limit (initial E) where
  bound := positive
  count := rfl
  created _ := rfl
  submitted := by simp [OwnedTask.initial]
  executed := rfl
  unset _ some := absurd rfl some
  storing := fun impossible => absurd impossible (Nat.lt_irrefl 0)
  known e stored := nomatch stored
  seen error member := nomatch member

theorem incremented_count {x : OwnedTask E} (counted : x.count = x.owners)
    (bound : (x.incremented limit).owners < limit) :
    (x.incremented limit).count = (x.incremented limit).owners := by
  simp only [incremented,counted] at bound ⊢
  exact Nat.mod_eq_of_lt bound

theorem decremented_count {x : OwnedTask E} (counted : x.count = x.owners) (bound : x.owners < limit)
    (owned : 0 < x.owners) : (x.decremented limit).count = (x.decremented limit).owners := by
  have wraps : x.owners + (limit - 1) = (x.owners - 1) + limit := by omega
  simp only [decremented,counted,wraps,Nat.add_mod_right]
  exact Nat.mod_eq_of_lt (by omega)

/-- A task that has owners has not been executed. -/
theorem Sound.unexecuted {x : OwnedTask E} (sound : Sound limit x) (owned : 0 < x.owners) :
    x.executed = [] ∧ x.running = 0 := by
  have submitted := sound.submitted
  have executed := sound.executed
  rw [if_neg (by omega)] at submitted
  exact ⟨List.eq_nil_of_length_eq_zero (by omega),by omega⟩

/-- Each effect keeps a task sound while its counter does not wrap, provided that whoever is about
to store an error holds on to an owner. -/
theorem Sound.effect {x y : OwnedTask E} (sound : Sound limit x) (effect : Effect limit x y)
    (bound : y.owners < limit) (storing : 0 < y.storing → 0 < y.owners) : Sound limit y := by
  have submitted := sound.submitted
  have executed := sound.executed
  have created (owned : 0 < x.owners) : x.created = true := by
    by_contra fresh
    have gone := sound.created (by simpa using fresh)
    omega
  cases effect with
  | idle => exact sound
  | create fresh =>
    refine {sound with
      bound := bound
      count := incremented_count sound.count bound
      created := fun impossible => nomatch impossible
      submitted := ?_
      storing := storing}
    simp [incremented,submitted,fresh]
  | acquire owned =>
    refine {sound with
      bound := bound
      count := incremented_count sound.count bound
      created := fun fresh => nomatch (created owned).symm.trans fresh
      submitted := ?_
      storing := storing}
    simp [incremented,submitted,Nat.ne_of_gt owned]
  | drop owned more =>
    have counted := decremented_count sound.count sound.bound owned
    refine {sound with
      bound := bound
      count := counted
      created := fun fresh => nomatch (created owned).symm.trans fresh
      submitted := ?_
      storing := storing}
    have left : (x.decremented limit).owners ≠ 0 := fun gone => more (counted.trans gone)
    rw [if_neg (fun ⟨_,gone⟩ => left gone)]
    simp [decremented,submitted,Nat.ne_of_gt owned]
  | submit owned last =>
    have counted := decremented_count sound.count sound.bound owned
    have gone : x.owners - 1 = 0 := counted.symm.trans last
    refine {sound with
      bound := bound
      count := counted
      created := fun fresh => nomatch (created owned).symm.trans fresh
      submitted := ?_
      executed := ?_
      storing := storing}
    · simp [decremented,submitted,created owned,gone,Nat.ne_of_gt owned]
    · simp only [decremented]
      omega
  | report owned e unset =>
    exact {sound with
      unset := fun _ _ => Nat.succ_pos _
      storing := storing
      known := fun error stored => List.mem_append_left _ (sound.known error stored)}
  | reportLate owned e set =>
    exact {sound with
      unset := fun unset _ => absurd unset set
      known := fun error stored => List.mem_append_left _ (sound.known error stored)}
  | store owned e known busy =>
    refine {sound with
      unset := fun unset _ => ?_
      storing := storing
      known := fun error stored => ?_
      seen := ?_}
    · simp at unset
    · rcases Option.or_eq_some_iff.mp stored with before | ⟨_,new⟩
      · exact sound.known error before
      · obtain rfl := Option.some.inj new
        exact known
    · rw [(sound.unexecuted owned).1]
      simp
  | execute running =>
    refine {sound with
      executed := ?_
      seen := ?_}
    · simp only [List.length_append,List.length_singleton]
      omega
    · intro error member
      rcases List.mem_append.mp member with before | new
      · exact sound.seen error before
      · exact List.mem_singleton.mp new

/-- Once stored, the error stays. -/
theorem Effect.error {x y : OwnedTask E} (effect : Effect limit x y) {e : E} (stored : x.error = some e) :
    y.error = some e := by
  cases effect with
  | store => simp [stored]
  | _ => exact stored

/-- A step submits the task exactly when it takes the last owner away. -/
theorem Effect.submits {x y : OwnedTask E} (effect : Effect limit x y) (after : Sound limit y) :
    y.submitted = x.submitted + if x.owners = 1 ∧ y.owners = 0 then 1 else 0 := by
  cases effect with
  | drop owned more =>
    have left : ¬(x.decremented limit).owners = 0 := fun gone => more (after.count.trans gone)
    rw [if_neg (fun ⟨_,gone⟩ => left gone)]
    rfl
  | submit owned last =>
    have gone : x.owners - 1 = 0 := after.count.symm.trans last
    have one : x.owners = 1 := by omega
    rw [if_pos ⟨one,gone⟩]
  | create | acquire => simp [incremented]
  | _ =>
    have same : ¬(x.owners = 1 ∧ x.owners = 0) := by omega
    rw [if_neg same]
    rfl

end OwnedTask
end ToyMtFramework
