import ToyMtFramework.ScheduleRound

/-! No event gets stuck: where a round of a `Schedule` stops, its callback has been released, and
`AllPathsDoneTask` has been executed on the way if there is a path. The tasks may still have an
exception of an earlier round, which says nothing about how often they are released. -/
namespace ToyMtFramework.Schedule
open Activities Transition

variable {L D E : Type} [DecidableEq L] [DecidableEq D]

/-- What the resets, and the end of the round before, have left behind. -/
structure Restarted (sh : Shared L D E) : Prop where
  refCount : ∀ t, sh.refCount t = 0
  waitingTasks : ∀ w, sh.list (.waitingTasks w) = ⟨true,none⟩
  workStarted : ∀ w, sh.workStarted w = false
  released : sh.released = []

omit [DecidableEq L] [DecidableEq D] in
theorem fresh_restarted (eventIndex : Nat) : Restarted (fresh E L D eventIndex) := by
  constructor <;> simp [fresh]

theorem Restarted.round {sh : Shared L D E} (restarted : Restarted sh) (job : Job L D E) :
    Round job (processing sh).shared (processing sh).bag := by
  have bag : (processing sh).bag = {.runPaths} := rfl
  rw [bag]
  refine ⟨?_,?_,?_⟩
  · constructor <;>
      simp [processing,restarted.refCount,restarted.waitingTasks,restarted.workStarted,
        restarted.released,owns,working,starting,waits,pending,acting,ending,Shared.settled,weigh]
  · simp [Sourced]
  · simp [Ranked,processing,restarted.workStarted]

theorem Round.next {job : Job L D E} {s t : State L D E} {a : Action}
    (round : Round job s.shared s.bag) (taken : next job s a = some t) : Round job t.shared t.bag := by
  cases a with
  | act thread seed =>
    exact Pool.step_invariant (fun _ _ _ _ _ round reacted => round.react (react_reacts reacted))
      round taken
  | otherStreamFails =>
    obtain rfl := Option.some.inj taken
    exact round.otherStreamFails

def AllPathsDoneExecuted (job : Job L D E) (start s : State L D E) : Prop :=
  ∃ u thread seed v, Reachable (next job) start u ∧ u.top thread = some (.execute .allPathsDone) ∧
    next job u (.act thread seed) = some v ∧ Reachable (next job) v s

def CallingBack (sh : Shared L D E) (bag : Multiset (Frame L D E)) : Prop :=
  sh.released ≠ [] ∨ ∃ e, .callback e ∈ bag

/-- Only `AllPathsDoneTask` calls back. -/
theorem calling_back {job : Job L D E} {sh : Shared L D E} {f : Frame L D E} {rest : Multiset (Frame L D E)}
    {r : Reaction (Shared L D E) (Frame L D E)} (nonempty : job.paths ≠ [])
    (reacts : Reacts job sh f r) (after : CallingBack r.shared (r.frames + rest)) :
    f = .execute .allPathsDone ∨ CallingBack sh (f ::ₘ rest) := by
  have old {e : Option E} (member : .callback e ∈ rest) : CallingBack sh (f ::ₘ rest) :=
    Or.inr ⟨e,Multiset.mem_cons_of_mem member⟩
  cases reacts with
  | runNoPaths empty => exact absurd empty nonempty
  | executeFailed e failed => exact Or.inl rfl
  | executeDone succeeded => exact Or.inl rfl
  | callback e => exact Or.inr (Or.inr ⟨e,Multiset.mem_cons_self _ _⟩)
  | decrementLast t last =>
    rcases after with released | ⟨e,member⟩
    · exact Or.inr (Or.inl released)
    · exact Or.inr (old (by simpa using member))
  | _ =>
    rcases after with released | ⟨e,member⟩
    · exact Or.inr (Or.inl released)
    · exact Or.inr (old (by simpa using member))

theorem called_back {job : Job L D E} {start s : State L D E} (nonempty : job.paths ≠ [])
    (early : ¬CallingBack start.shared start.bag) (run : Reachable (next job) start s)
    (calling : CallingBack s.shared s.bag) : AllPathsDoneExecuted job start s := by
  induction run with
  | refl => exact absurd calling early
  | @tail s t before step ih =>
    have run : Reachable (next job) start s := before
    obtain ⟨a,_,taken⟩ := step
    have extend (executed : AllPathsDoneExecuted job start s) : AllPathsDoneExecuted job start t := by
      obtain ⟨u,thread,seed,v,reached,top,executes,after⟩ := executed
      exact ⟨u,thread,seed,v,reached,top,executes,after.step a trivial taken⟩
    cases a with
    | otherStreamFails =>
      obtain rfl := Option.some.inj taken
      exact extend (ih calling)
    | act thread seed =>
      obtain ⟨f,r,rest,reacted,shared,bag,after,top⟩ := Pool.step_bag taken
      rw [shared,after] at calling
      rcases calling_back nonempty (react_reacts reacted) calling with rfl | calling
      · exact ⟨s,thread,seed,t,run,top,taken,Reaches.refl t⟩
      · rw [← bag] at calling
        exact extend (ih calling)

/-- Where a round with an acyclic configuration stops, its callback has been released, once, and
`AllPathsDoneTask` has been executed if there is a path. -/
theorem quiescent_processed (job : Job L D E) (acyclic : job.Acyclic) (sh : Shared L D E)
    (restarted : Restarted sh) (s : State L D E) (run : Reachable (next job) (processing sh) s)
    (quiescent : Quiescent s.shared s.bag) :
    s.shared.released.length = 1 ∧
      (job.paths ≠ [] → AllPathsDoneExecuted job (processing sh) s) := by
  have preserved (s : State L D E) (a : Action) (t : State L D E) (round : Round job s.shared s.bag)
      (_ : True) (taken : next job s a = some t) : Round job t.shared t.bag :=
    round.next taken
  have round := Reaches.invariant preserved run (restarted.round job)
  have released := round.quiescent_released acyclic quiescent
  refine ⟨released,fun nonempty => ?_⟩
  apply called_back nonempty ?_ run
  · left
    intro none
    simp [none] at released
  · have bag : (processing sh).bag = {.runPaths} := rfl
    rw [CallingBack,bag]
    simp [processing,restarted.released]

def throwingFilter : Job Nat Unit Unit where
  filters := [⟨0,.threadSafeBetweenInstances,[],[],fun _ _ _ => ⟨[],false,some ()⟩⟩]
  producers := []
  paths := [[0]]

theorem throwingFilter_acyclic : throwingFilter.Acyclic :=
  acyclic_of_sources (by simp [throwingFilter])

def throwingFilterRun : List Action :=
  turns [(10,0),(4,3),(3,2),(3,4),(3,1),(2,5)]

theorem quiescent_processed_throwingFilter : ∃ s,
    execute (next throwingFilter) (processing (fresh Unit Nat Unit 0)) throwingFilterRun = some s ∧
      s.shared.released = [some ()] ∧
      AllPathsDoneExecuted throwingFilter (processing (fresh Unit Nat Unit 0)) s := by
  have ran : (execute (next throwingFilter) (processing (fresh Unit Nat Unit 0)) throwingFilterRun).map
      (fun s => (s.shared.released,s.threads.flatten.length)) = some ([some ()],0) := by decide
  obtain ⟨s,ran,outcome⟩ := Option.map_eq_some_iff.mp ran
  obtain ⟨released,frames⟩ := Prod.mk.inj outcome
  have empty : s.bag = 0 := by rw [Pool.bag,List.length_eq_zero_iff.mp frames,Multiset.coe_nil]
  have quiescent : Quiescent s.shared s.bag := by simp [Quiescent,empty]
  exact ⟨s,ran,released,(quiescent_processed throwingFilter throwingFilter_acyclic _ (fresh_restarted 0) s
    (execute_reachable _ ran) quiescent).2 (by simp [throwingFilter])⟩

def noPaths : Job Nat Unit Unit :=
  ⟨[],[],[]⟩

/-- Without paths nothing but the callback is ever in progress. -/
theorem noPaths_frames {s : State Nat Unit Unit}
    (run : Reachable (next noPaths) (processing (fresh Unit Nat Unit 0)) s) :
    ∀ f ∈ s.bag, f = .runPaths ∨ ∃ e, f = .callback e := by
  have preserved (s : State Nat Unit Unit) (a : Action) (t : State Nat Unit Unit)
      (few : ∀ f ∈ s.bag, f = .runPaths ∨ ∃ e, f = .callback e) (_ : True)
      (taken : next noPaths s a = some t) : ∀ f ∈ t.bag, f = .runPaths ∨ ∃ e, f = .callback e := by
    cases a with
    | otherStreamFails =>
      obtain rfl := Option.some.inj taken
      exact few
    | act thread seed =>
      obtain ⟨f,r,rest,reacted,_,bag,after,_⟩ := Pool.step_bag taken
      rw [bag] at few
      rw [after]
      intro g member
      rcases Multiset.mem_add.mp member with new | old
      · rcases few f (Multiset.mem_cons_self f rest) with rfl | ⟨e,rfl⟩
        · simp only [react,noPaths,if_true,Option.some.injEq] at reacted
          subst r
          exact Or.inr ⟨none,by simpa using new⟩
        · simp only [react,Option.some.injEq] at reacted
          subst r
          simp at new
      · exact few g (Multiset.mem_cons_of_mem old)
  exact Reaches.invariant preserved run fun f member => Or.inl (by
    simpa [Pool.bag,processing] using member)

/-- Without paths the callback is released although `AllPathsDoneTask` is never executed. -/
theorem noPaths_not_executed : ∃ s,
    Reachable (next noPaths) (processing (fresh Unit Nat Unit 0)) s ∧ Quiescent s.shared s.bag ∧
      s.shared.released = [none] ∧ ¬AllPathsDoneExecuted noPaths (processing (fresh Unit Nat Unit 0)) s := by
  have ran : (execute (next noPaths) (processing (fresh Unit Nat Unit 0)) (turns [(2,0)])).map
      (fun s => (s.shared.released,s.threads.flatten.length)) = some ([none],0) := by decide
  obtain ⟨s,ran,outcome⟩ := Option.map_eq_some_iff.mp ran
  obtain ⟨released,frames⟩ := Prod.mk.inj outcome
  have empty : s.bag = 0 := by rw [Pool.bag,List.length_eq_zero_iff.mp frames,Multiset.coe_nil]
  refine ⟨s,execute_reachable _ ran,by simp [Quiescent,empty],released,?_⟩
  intro executed
  obtain ⟨u,thread,seed,v,reached,top,executes,_⟩ := executed
  obtain ⟨f,_,rest,_,_,bag,_,acts⟩ := Pool.step_bag executes
  obtain rfl : f = .execute .allPathsDone := Option.some.inj (acts.symm.trans top)
  have few := noPaths_frames reached (.execute .allPathsDone) (by rw [bag]; exact Multiset.mem_cons_self _ _)
  simp at few

end ToyMtFramework.Schedule
