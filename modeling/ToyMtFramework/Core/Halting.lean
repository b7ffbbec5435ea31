import ToyMtFramework.Core.Activities

/-! Where runs end. A weight that every reaction makes less bounds the length of a run. A thread whose
frame waits has nothing else to do, so where no thread can act every frame waits. -/
namespace ToyMtFramework

namespace Transition
variable {σ α : Type*}

def Halted (next : σ → α → Option σ) (s : σ) : Prop :=
  ∀ a, next s a = none

def Stops (next : σ → α → Option σ) (guard : σ → α → Prop) (s : σ) : Prop :=
  ∀ a, guard s a → next s a = none

def tally (next : σ → α → Option σ) (counted : σ → α → Bool) : σ → List α → Nat
  | _, [] => 0
  | s, a :: rest => (if counted s a then 1 else 0) + (next s a).elim 0 fun t => tally next counted t rest

theorem tally_countP {next : σ → α → Option σ} {s t : σ} (counted : α → Bool) (actions : List α)
    (ran : execute next s actions = some t) : tally next (fun _ a => counted a) s actions = actions.countP counted := by
  induction actions generalizing s with
  | nil => rfl
  | cons a rest ih =>
    obtain ⟨u,taken,ran⟩ := Option.bind_eq_some_iff.mp ran
    rw [tally,taken,Option.elim_some,ih ran,List.countP_cons,Nat.add_comm]

section Bounded
variable {next : σ → α → Option σ} {guard : σ → α → Prop} {Inv : σ → Prop} {measure : σ → Nat} {s t : σ}

theorem Admitted.weaken {strong weak : σ → α → Prop} (implied : ∀ s a, strong s a → weak s a)
    (actions : List α) (admitted : Admitted next strong s actions) : Admitted next weak s actions := by
  induction actions generalizing s with
  | nil => trivial
  | cons a rest ih => exact ⟨implied s a admitted.1,fun u taken => ih (admitted.2 u taken)⟩

/-- What the counted steps make less, and no step makes more, bounds their number. -/
theorem Admitted.tally_bounded {counted : σ → α → Bool}
    (preserved : ∀ s a t, Inv s → guard s a → next s a = some t → Inv t)
    (less : ∀ s a t, Inv s → guard s a → next s a = some t →
      measure t + (if counted s a then 1 else 0) ≤ measure s) (actions : List α) (start : Inv s)
    (admitted : Admitted next guard s actions) (ran : execute next s actions = some t) :
    tally next counted s actions + measure t ≤ measure s := by
  induction actions generalizing s with
  | nil =>
    obtain rfl : s = t := Option.some.inj ran
    simp [tally]
  | cons a rest ih =>
    obtain ⟨u,taken,ran⟩ := Option.bind_eq_some_iff.mp ran
    obtain ⟨meets,admitted⟩ := admitted
    have step := less s a u start meets taken
    have later := ih (preserved s a u start meets taken) (admitted u taken) ran
    rw [tally,taken,Option.elim_some]
    omega

theorem Admitted.bounded {counted : α → Bool}
    (preserved : ∀ s a t, Inv s → guard s a → next s a = some t → Inv t)
    (less : ∀ s a t, Inv s → guard s a → next s a = some t →
      measure t + (if counted a then 1 else 0) ≤ measure s) (actions : List α) (start : Inv s)
    (admitted : Admitted next guard s actions) (ran : execute next s actions = some t) :
    actions.countP counted + measure t ≤ measure s := by
  rw [← tally_countP counted actions ran]
  exact admitted.tally_bounded preserved less actions start ran

/-- What every step makes less lets a run be taken on to where it ends. -/
theorem stops_reached (preserved : ∀ s a t, Inv s → guard s a → next s a = some t → Inv t)
    (less : ∀ s a t, Inv s → guard s a → next s a = some t → measure t < measure s) (s : σ) (start : Inv s) :
    ∃ actions t, Admitted next guard s actions ∧ execute next s actions = some t ∧ Stops next guard t := by
  induction bound : measure s using Nat.strong_induction_on generalizing s with
  | _ n ih =>
    by_cases stops : Stops next guard s
    · exact ⟨[],s,trivial,rfl,stops⟩
    · obtain ⟨a,moves⟩ := not_forall.mp stops
      obtain ⟨meets,moves⟩ := Classical.not_imp.mp moves
      obtain ⟨u,taken⟩ := Option.ne_none_iff_exists'.mp moves
      obtain ⟨actions,t,admitted,ran,ended⟩ := ih (measure u) (bound ▸ less s a u start meets taken) u
        (preserved s a u start meets taken) rfl
      refine ⟨a :: actions,t,⟨meets,fun v same => ?_⟩,by simp [execute,taken,ran],ended⟩
      obtain rfl := Option.some.inj (taken.symm.trans same)
      exact admitted

/-- What every step makes less bounds the number of steps. -/
theorem execute_length (preserved : ∀ s a t, Inv s → next s a = some t → Inv t)
    (less : ∀ s a t, Inv s → next s a = some t → measure t < measure s) (actions : List α)
    (start : Inv s) (ran : execute next s actions = some t) : actions.length + measure t ≤ measure s := by
  have steps (s : σ) (a : α) (t : σ) (inv : Inv s) (_ : True) (taken : next s a = some t) :
      measure t + (if (fun _ => true : α → Bool) a then 1 else 0) ≤ measure s := less s a t inv taken
  have bounded := Admitted.bounded (fun s a t inv _ taken => preserved s a t inv taken) steps actions start
    (Admitted.trivially next s actions) ran
  rwa [List.countP_true] at bounded

/-- Then a run can always be taken on to where it ends. -/
theorem execute_halts (preserved : ∀ s a t, Inv s → next s a = some t → Inv t)
    (less : ∀ s a t, Inv s → next s a = some t → measure t < measure s) (s : σ) (start : Inv s) :
    ∃ actions t, execute next s actions = some t ∧ Halted next t := by
  have kept (s : σ) (a : α) (t : σ) (inv : Inv s) (_ : True) (taken : next s a = some t) : Inv t :=
    preserved s a t inv taken
  obtain ⟨actions,t,_,ran,stops⟩ := stops_reached kept (fun s a t inv _ taken => less s a t inv taken) s start
  exact ⟨actions,t,ran,fun a => stops a trivial⟩

end Bounded
end Transition

namespace Activities
variable {σ φ χ : Type*} {react : σ → φ → χ → Option (Reaction σ φ)} {s t : Pool σ φ}

/-- Every thread after a step is one that did nothing, the one that acted, or one that it has spawned. -/
theorem Pool.step_places {k : Nat} {choice : χ} (taken : s.step react k choice = some t) :
    ∃ f stack r, s.threads[k]? = some (f :: stack) ∧ s.top k = some f ∧ react s.shared f choice = some r ∧
      t.shared = r.shared ∧ ∀ j other, t.threads[j]? = some other →
        (j ≠ k ∧ s.threads[j]? = some other) ∨ (j = k ∧ other = r.calls ++ stack) ∨ ∃ g ∈ r.spawned, other = [g] := by
  obtain ⟨f,stack,r,thread,top,reacted,rfl⟩ := Pool.step_threads taken
  refine ⟨f,stack,r,thread,top,reacted,rfl,fun j other place => ?_⟩
  rw [List.getElem?_append] at place
  split at place
  · rw [List.getElem?_set] at place
    by_cases same : k = j
    · rw [if_pos same] at place
      split at place
      · exact Or.inr (Or.inl ⟨same.symm,(Option.some.inj place).symm⟩)
      · cases place
    · rw [if_neg same] at place
      exact Or.inl ⟨Ne.symm same,place⟩
  · obtain ⟨g,member,rfl⟩ := List.mem_map.mp (List.mem_of_getElem? place)
    exact Or.inr (Or.inr ⟨g,member,rfl⟩)

/-- A frame that waits is alone on its thread. -/
def Pool.Alone (waits : φ → Prop) (s : Pool σ φ) : Prop :=
  ∀ stack ∈ s.threads, ∀ f ∈ stack, waits f → stack = [f]

theorem Pool.top_acts {k : Nat} {f : φ} {choice : χ} {r : Reaction σ φ} (top : s.top k = some f)
    (reacted : react s.shared f choice = some r) : ∃ t, s.step react k choice = some t := by
  obtain ⟨stack,thread,first⟩ := Option.bind_eq_some_iff.mp top
  cases stack with
  | nil => cases first
  | cons g stack =>
    obtain rfl := Option.some.inj first
    refine ⟨⟨r.shared,s.threads.set k (r.calls ++ stack) ++ r.spawned.map fun g => [g]⟩,?_⟩
    simp only [Pool.step,thread,reacted,Option.map_some]

/-- A frame that waits is spawned, or takes the place of one that has waited. -/
theorem Pool.Alone.step {waits : φ → Prop} {k : Nat} {choice : χ} (alone : s.Alone waits)
    (calls : ∀ f r, s.top k = some f → react s.shared f choice = some r →
      ∀ g ∈ r.calls, waits g → waits f ∧ r.calls = [g])
    (taken : s.step react k choice = some t) : t.Alone waits := by
  obtain ⟨f,stack,r,thread,top,reacted,rfl⟩ := Pool.step_threads taken
  have here := alone _ (List.mem_of_getElem? thread)
  intro other member g inside waiting
  rcases List.mem_append.mp member with old | new
  · rcases List.mem_or_eq_of_mem_set old with old | rfl
    · exact alone other old g inside waiting
    · rcases List.mem_append.mp inside with called | below
      · obtain ⟨waited,only⟩ := calls f r top reacted g called waiting
        obtain ⟨_,rfl⟩ := List.cons.inj (here f (List.mem_cons_self ..) waited)
        rw [only,List.append_nil]
      · obtain ⟨_,rfl⟩ := List.cons.inj (here g (List.mem_cons_of_mem f below) waiting)
        cases below
  · obtain ⟨h,_,rfl⟩ := List.mem_map.mp new
    rw [List.mem_singleton.mp inside]

/-- Where only frames that wait are next to act there are no others. -/
theorem Pool.Alone.waiting {waits : φ → Prop} (alone : s.Alone waits)
    (tops : ∀ k f, s.top k = some f → waits f) : ∀ f ∈ s.bag, waits f ∧ ∃ k : Nat, s.threads[k]? = some [f] := by
  intro f member
  obtain ⟨stack,listed,inside⟩ := List.mem_flatten.mp (Multiset.mem_coe.mp member)
  obtain ⟨k,below,place⟩ := List.getElem_of_mem listed
  have thread : s.threads[k]? = some stack := by rw [List.getElem?_eq_getElem below,place]
  cases stack with
  | nil => cases inside
  | cons g stack =>
    have next := tops k g (by simp [Pool.top,thread])
    obtain ⟨_,rfl⟩ := List.cons.inj (alone _ listed g (List.mem_cons_self ..) next)
    obtain rfl := List.mem_singleton.mp inside
    exact ⟨next,k,thread⟩

/-- Where no thread can act, every frame waits for what does not come. -/
theorem Pool.Alone.halted {waits : φ → Prop} (alone : s.Alone waits)
    (halted : ∀ k choice, s.step react k choice = none)
    (lively : ∀ f ∈ s.bag, ¬waits f → ∃ choice r, react s.shared f choice = some r) :
    ∀ f ∈ s.bag, waits f ∧ ∀ choice, react s.shared f choice = none := by
  have still {k : Nat} {f : φ} {stack : List φ} (thread : s.threads[k]? = some (f :: stack)) (choice : χ) :
      react s.shared f choice = none := by
    have none := halted k choice
    simpa only [Pool.step,thread,Option.map_eq_none_iff] using none
  have tops (k : Nat) (f : φ) (top : s.top k = some f) : waits f := by
    by_contra goes
    obtain ⟨choice,r,reacted⟩ := lively f (Pool.top_mem top) goes
    obtain ⟨t,taken⟩ := Pool.top_acts top reacted
    rw [halted] at taken
    cases taken
  intro f member
  obtain ⟨waits,k,thread⟩ := alone.waiting tops f member
  exact ⟨waits,still thread⟩

end Activities
end ToyMtFramework
