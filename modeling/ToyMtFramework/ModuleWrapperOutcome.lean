import ToyMtFramework.ModuleWrapperRound

/-! What the callers of a `ModuleWrapper` are told. The first exception in the run task decides
whether the body is executed and what every task of the round is released with. `reset` leaves
the run task of TBB alone, so that a failure of one round decides about all later rounds. -/
namespace ToyMtFramework.ModuleWrapper
open Activities Transition
open SerialTaskQueue (Framework)

variable {E : Type}

section Outcome
variable {framework : Framework} {sh : Shared E} {bag : Multiset (Frame E)}

/-- What earlier rounds have left in the run task is also an exception of an item that fails now. -/
def Untainted (framework : Framework) (sh : Shared E) : Prop :=
  ∀ e, sh.carried framework = some e → e ∈ sh.failures

structure Answering (sh : Shared E) : Prop where
  prefetches : sh.prefetches ≤ 1
  once : sh.ran.length ≤ 1
  body : sh.ran ≠ [] → sh.failures = []
  released : ∀ t, (sh.released.map Prod.fst).count t ≤ sh.calls.count t
  after : sh.released ≠ [] → sh.ran ≠ [] ∨ sh.failures ≠ []
  outcome : ∃ e, (∀ x ∈ sh.released, x.2 = e) ∧ (sh.released ≠ [] →
    if sh.failures = [] then sh.ran = [e] else ∃ y ∈ sh.failures, e = some y)

structure Answered (sh : Shared E) : Prop where
  prefetches : sh.prefetches = 1
  body : sh.ran.length = if sh.failures = [] then 1 else 0
  released : ∀ t, (sh.released.map Prod.fst).count t = sh.calls.count t
  outcome : ∃ e, (∀ x ∈ sh.released, x.2 = e) ∧
    if sh.failures = [] then sh.ran = [e] else ∃ y ∈ sh.failures, e = some y

theorem Round.released_eq (round : Round framework sh bag) {x : Nat × Option E} (member : x ∈ sh.released) :
    x.2 = sh.verdict ∧ sh.Finished ∧ sh.workStarted = true := by
  obtain ⟨closed,same⟩ := round.released x member
  have place := round.place
  obtain ⟨told,finished⟩ := round.closed closed
  refine ⟨same.trans told,finished,?_⟩
  by_contra unstarted
  rw [closed,if_neg unstarted] at place
  simp at place

/-- A body that has been executed leaves nothing but the release of the tasks. -/
theorem Round.ran_finished (round : Round framework sh bag) (ran : sh.ran ≠ []) :
    sh.exceptionPtr = none ∧ sh.workStarted = true := by
  have positive := List.length_pos_of_ne_nil ran
  have bound := round.ran
  have place := round.place
  have started : sh.workStarted = true := by
    by_contra unstarted
    rw [if_neg unstarted] at bound
    omega
  rw [if_pos started] at bound place
  have finished : sh.Finished := by
    cases waiting : sh.waiting with
    | false => exact (round.closed waiting).2
    | true =>
      rw [waiting] at place
      simp only [if_true] at place
      have heavy : 0 < weigh finishing bag := by omega
      obtain ⟨f,member,heavy⟩ := (weigh_pos_iff _ _).mp heavy
      cases f with
      | doneWaiting e => exact (round.carries _ member).2
      | _ => simp [finishing] at heavy
  refine ⟨?_,started⟩
  by_contra failed
  rw [Shared.Finished,if_neg failed] at finished
  omega

theorem Round.exceptionPtr_none (round : Round framework sh bag) (started : sh.workStarted = true)
    (empty : sh.exceptionPtr = none) : sh.failures = [] ∧ sh.carried framework = none := by
  have slot := round.exceptionPtr started
  rw [empty] at slot
  obtain ⟨carried,failures⟩ := Option.or_eq_none_iff.mp slot.symm
  exact ⟨List.head?_eq_none_iff.mp failures,carried⟩

/-- The exception in the run task is that of an item which fails now, or an earlier one. -/
theorem Round.exceptionPtr_some (round : Round framework sh bag) (started : sh.workStarted = true)
    (untainted : Untainted framework sh) {e : E} (failed : sh.exceptionPtr = some e) : e ∈ sh.failures := by
  have slot := round.exceptionPtr started
  cases carried : sh.carried framework with
  | none =>
    rw [failed,carried,Option.none_or] at slot
    exact List.mem_of_head? slot.symm
  | some x =>
    rw [failed,carried,Option.some_or] at slot
    cases slot
    exact untainted e carried

/-- The outcome of a round whose run task has learned of no earlier failure. -/
theorem Round.verdict_eq (round : Round framework sh bag) (started : sh.workStarted = true)
    (finished : sh.Finished) (untainted : Untainted framework sh) :
    if sh.failures = [] then sh.ran = [sh.verdict] else ∃ y ∈ sh.failures, sh.verdict = some y := by
  cases slot : sh.exceptionPtr with
  | none =>
    obtain ⟨failures,_⟩ := round.exceptionPtr_none started slot
    rw [Shared.Finished,if_pos slot] at finished
    obtain ⟨thrown,ran⟩ := List.length_eq_one_iff.mp finished
    rw [if_pos failures,Shared.verdict,slot,ran]
    rfl
  | some e =>
    have member := round.exceptionPtr_some started untainted slot
    rw [if_neg (List.ne_nil_of_mem member)]
    exact ⟨e,member,by rw [Shared.verdict,slot,Option.some_or]⟩

theorem Round.answering (round : Round framework sh bag) (untainted : Untainted framework sh) :
    Answering sh := by
  have started := round.prefetches
  have ran := round.ran
  refine ⟨?_,?_,?_,?_,?_,sh.verdict,fun x member => (round.released_eq member).1,?_⟩
  · split at started <;> omega
  · split at ran <;> omega
  · intro executed
    obtain ⟨slot,started⟩ := round.ran_finished executed
    exact (round.exceptionPtr_none started slot).1
  · intro t
    have tasks := round.tasks t
    omega
  · intro released
    obtain ⟨x,member⟩ := List.exists_mem_of_ne_nil _ released
    obtain ⟨_,finished,started⟩ := round.released_eq member
    cases slot : sh.exceptionPtr with
    | none =>
      rw [Shared.Finished,if_pos slot] at finished
      exact Or.inl (List.ne_nil_of_length_pos (by omega))
    | some e => exact Or.inr (List.ne_nil_of_mem (round.exceptionPtr_some started untainted slot))
  · intro released
    obtain ⟨x,member⟩ := List.exists_mem_of_ne_nil _ released
    obtain ⟨_,finished,started⟩ := round.released_eq member
    exact round.verdict_eq started finished untainted

/-- No task is left in the list of a wrapper that has nothing more to do. -/
theorem Round.rest_empty (round : Round framework sh bag)
    (quiescent : ∀ f ∈ bag, ∃ t, f = .node t ∧ sh.waiting = true) : bag = 0 := by
  have light (weight : Frame E → Nat) (nodes : ∀ t, weight (.node t) = 0) : weigh weight bag = 0 := by
    apply weigh_light
    intro f member
    obtain ⟨t,rfl,_⟩ := quiescent f member
    exact nodes t
  refine Multiset.eq_zero_of_forall_notMem fun f member => ?_
  obtain ⟨t,rfl,waiting⟩ := quiescent f member
  have idle := light starting fun _ => rfl
  have started : sh.workStarted = true := by
    rcases round.requested (weigh_pos member (by simp [waits])) with started | starts
    · exact started
    · omega
  have owners := round.owners
  have place := round.place
  rw [light owns fun _ => rfl] at owners
  rw [light unfinished fun _ => rfl,light finishing fun _ => rfl,owners,waiting,started] at place
  simp at place

/-- A round that has been called and has come to rest has told its waiting tasks. -/
theorem Round.finished (round : Round framework sh 0) (called : sh.calls ≠ []) :
    sh.workStarted = true ∧ sh.Finished ∧ sh.released ≠ [] := by
  have owners := round.owners
  have place := round.place
  have started : sh.workStarted = true := by
    have requested := round.called called
    simpa using requested
  simp only [weigh_zero] at owners place
  have closed : sh.waiting = false := by
    by_contra waiting
    rw [Bool.not_eq_false] at waiting
    simp [owners,waiting,started] at place
  refine ⟨started,(round.closed closed).2,?_⟩
  intro nothing
  obtain ⟨t,member⟩ := List.exists_mem_of_ne_nil _ called
  have tasks := round.tasks t
  have positive := List.count_pos_iff.mpr member
  rw [nothing,weigh_zero] at tasks
  simp only [List.map_nil,List.count_nil] at tasks
  omega

theorem Round.answered (round : Round framework sh 0) (called : sh.calls ≠ [])
    (untainted : Untainted framework sh) : Answered sh := by
  obtain ⟨started,finished,released⟩ := round.finished called
  have outcome := round.verdict_eq started finished untainted
  refine ⟨?_,?_,?_,sh.verdict,fun x member => (round.released_eq member).1,outcome⟩
  · rw [round.prefetches,if_pos started]
  · by_cases failures : sh.failures = []
    · rw [if_pos failures] at outcome ⊢
      rw [outcome,List.length_singleton]
    · rw [if_neg failures] at outcome ⊢
      rw [List.length_eq_zero_iff]
      by_contra ran
      exact failures ((round.answering untainted).body ran)
  · intro t
    have tasks := round.tasks t
    rw [weigh_zero,zero_add] at tasks
    exact tasks

/-- A carried exception keeps the body from being executed and reaches every task. -/
theorem Round.untainted (round : Round framework sh 0) (called : sh.calls ≠ [])
    (answered : Answered sh) : Untainted framework sh := by
  intro e carried
  obtain ⟨started,finished,released⟩ := round.finished called
  have slot := round.exceptionPtr started
  rw [carried,Option.some_or] at slot
  rw [Shared.Finished,slot,if_neg (Option.some_ne_none e)] at finished
  have failures : sh.failures ≠ [] := by
    intro nothing
    have body := answered.body
    rw [if_pos nothing] at body
    omega
  obtain ⟨outcome,same,origin⟩ := answered.outcome
  rw [if_neg failures] at origin
  obtain ⟨y,member,rfl⟩ := origin
  obtain ⟨x,inside⟩ := List.exists_mem_of_ne_nil _ released
  have told := (round.released_eq inside).1
  rw [same x inside,Shared.verdict,slot,Option.some_or] at told
  obtain rfl := Option.some.inj told
  exact member

end Outcome

/-- A wrapper does what its callers expect, in every round whose run task does not begin with the
exception of an earlier round; in the end it does so only then. -/
theorem round_answered (kind : Kind) (s : State E) (run : Reachable (next kind) (initial E) s) :
    (Untainted kind.framework s.shared → Answering s.shared) ∧
    (Quiescent s → s.shared.calls ≠ [] →
      (Answered s.shared ↔ Untainted kind.framework s.shared)) := by
  have round := reachable_round run
  refine ⟨round.answering,fun quiescent called => ?_⟩
  rw [round.rest_empty quiescent] at round
  exact ⟨round.untainted called,round.answered called⟩

def oneCall (outcome : Option Nat) (steps : Nat) : List (Action Nat) :=
  [.call 0,.act 0 none,.act 0 none,.act 0 none,.act 0 none,.act 0 none,.act 2 outcome,.act 2 none,
    .act 2 none] ++ List.replicate steps (.act 3 none) ++ [.act 1 none]

def acts (threads : List (Nat × Nat)) : List (Action Nat) :=
  threads.flatMap fun turn => List.replicate turn.1 (.act turn.2 (some 7))

/-- The item fails with 7 in both rounds, and in the second one there are two calls at once. -/
def failsTwice : List (Action Nat) :=
  .call 0 :: acts [(5,0),(3,2),(1,3),(3,4),(1,1)] ++
    .reset :: .call 0 :: .call 1 :: acts [(5,0),(2,1),(3,3),(1,5),(3,6),(1,2),(1,4)]

theorem round_answered_failsTwice : ∃ s,
    execute (next ⟨.tbb,true,1⟩) (initial Nat) failsTwice = some s ∧
      s.shared.released = [(0,some 7),(1,some 7)] ∧ Answered s.shared := by
  have ran : (execute (next ⟨.tbb,true,1⟩) (initial Nat) failsTwice).map (fun s => decide
      (s.threads.flatten.length = 0 ∧ s.shared.calls ≠ [] ∧ s.shared.earlier = [7] ∧ s.shared.failures = [7] ∧
        s.shared.released = [(0,some 7),(1,some 7)])) = some true := by decide
  obtain ⟨s,ran,told⟩ := Option.map_eq_some_iff.mp ran
  obtain ⟨length,calls,earlier,failures,released⟩ := of_decide_eq_true told
  have quiescent : Quiescent s := by simp [Quiescent,Pool.bag,List.eq_nil_of_length_eq_zero length]
  have untainted : Untainted .tbb s.shared := by simp [Untainted,Shared.carried,earlier,failures]
  exact ⟨s,ran,released,((round_answered ⟨.tbb,true,1⟩ s (execute_reachable _ ran)).2 quiescent calls).mpr untainted⟩

/-- An item fails in the first round. In the second all goes well with the items, yet the body is
not executed and the task is released with the exception of the first round. -/
theorem staleException_told : ∃ s, Reachable (next ⟨.tbb,false,1⟩) (initial Nat) s ∧ Quiescent s ∧
    s.shared.calls = [0] ∧ s.shared.failures = [] ∧ s.shared.ran = [] ∧
      s.shared.released = [(0,some 7)] ∧ ¬Answered s.shared := by
  have ran : (execute (next ⟨.tbb,false,1⟩) (initial Nat)
      (oneCall (some 7) 3 ++ .reset :: oneCall none 3)).map (fun s => decide
        (s.threads.flatten.length = 0 ∧ s.shared.calls = [0] ∧ s.shared.failures = [] ∧ s.shared.ran = [] ∧
          s.shared.released = [(0,some 7)])) = some true := by decide
  obtain ⟨s,ran,told⟩ := Option.map_eq_some_iff.mp ran
  obtain ⟨length,calls,failures,body,released⟩ := of_decide_eq_true told
  have quiescent : Quiescent s := by simp [Quiescent,Pool.bag,List.eq_nil_of_length_eq_zero length]
  refine ⟨s,execute_reachable _ ran,quiescent,calls,failures,body,released,fun answered => ?_⟩
  have executed := answered.body
  rw [failures,body] at executed
  cases executed

/-- An exception that a waiting task is told is that of an item or of the body of this round. -/
def Shared.Told (sh : Shared E) : Prop :=
  ∀ x ∈ sh.released, ∀ e, x.2 = some e → e ∈ sh.failures ∨ some e ∈ sh.ran

theorem Round.told {framework : Framework} {sh : Shared E} {bag : Multiset (Frame E)}
    (round : Round framework sh bag) (untainted : Untainted framework sh) : sh.Told := by
  intro x member e failed
  obtain ⟨same,_,started⟩ := round.released_eq member
  rw [same,Shared.verdict] at failed
  cases slot : sh.exceptionPtr with
  | none =>
    right
    rw [slot,Option.none_or,Option.join_eq_some_iff] at failed
    exact List.mem_of_head? failed
  | some y =>
    left
    rw [slot,Option.some_or] at failed
    cases failed
    exact round.exceptionPtr_some started untainted slot

/-- Tasks that are told a carried exception are told it for no reason of their round. -/
theorem Round.untainted_of_told {framework : Framework} {sh : Shared E} (round : Round framework sh 0)
    (called : sh.calls ≠ []) (told : sh.Told) : Untainted framework sh := by
  intro e carried
  obtain ⟨started,finished,released⟩ := round.finished called
  have slot := round.exceptionPtr started
  rw [carried,Option.some_or] at slot
  rw [Shared.Finished,slot,if_neg (Option.some_ne_none e),List.length_eq_zero_iff] at finished
  obtain ⟨x,member⟩ := List.exists_mem_of_ne_nil _ released
  have same := (round.released_eq member).1
  rw [Shared.verdict,slot,Option.some_or] at same
  rcases told x member e same with failed | thrown
  · exact failed
  · rw [finished] at thrown
    cases thrown

/-- In TBB an item that fails in an earlier round has an effect on this round unless an item fails
with the same exception now. -/
theorem round_independent (hasQueue : Bool) (items : Nat) (s : State E)
    (run : Reachable (next ⟨.tbb,hasQueue,items⟩) (initial E) s) :
    ((∀ e, s.shared.earlier.head? = some e → e ∈ s.shared.failures) →
      (s.shared.ran ≠ [] → s.shared.failures = []) ∧ s.shared.Told) ∧
    (Quiescent s → s.shared.calls ≠ [] →
      ((s.shared.ran ≠ [] ↔ s.shared.failures = []) ∧ s.shared.Told ↔
        ∀ e, s.shared.earlier.head? = some e → e ∈ s.shared.failures)) := by
  have round : Round .tbb s.shared s.bag := reachable_round run
  refine ⟨fun untainted => ⟨(round.answering untainted).body,round.told untainted⟩,fun quiescent called => ?_⟩
  rw [round.rest_empty quiescent] at round
  constructor
  · intro independent
    exact round.untainted_of_told called independent.2
  · intro untainted
    have body := (round.answered called untainted).body
    refine ⟨⟨(round.answering untainted).body,fun failures => ?_⟩,round.told untainted⟩
    rw [if_pos failures] at body
    exact List.ne_nil_of_length_pos (by omega)

theorem round_independent_failsTwice : ∃ s,
    execute (next ⟨.tbb,true,1⟩) (initial Nat) failsTwice = some s ∧ s.shared.earlier = [7] ∧
      (s.shared.ran ≠ [] ↔ s.shared.failures = []) ∧ s.shared.Told := by
  have ran : (execute (next ⟨.tbb,true,1⟩) (initial Nat) failsTwice).map (fun s => decide
      (s.threads.flatten.length = 0 ∧ s.shared.calls ≠ [] ∧ s.shared.earlier = [7] ∧ s.shared.failures = [7])) =
        some true := by decide
  obtain ⟨s,ran,told⟩ := Option.map_eq_some_iff.mp ran
  obtain ⟨length,calls,earlier,failures⟩ := of_decide_eq_true told
  have quiescent : Quiescent s := by simp [Quiescent,Pool.bag,List.eq_nil_of_length_eq_zero length]
  exact ⟨s,ran,earlier,((round_independent true 1 s (execute_reachable _ ran)).2 quiescent
    calls).mpr (by simp [earlier,failures])⟩

/-- All items of the second round succeed, and its body is not executed. -/
theorem staleException_notRun : ∃ s, Reachable (next ⟨.tbb,false,1⟩) (initial Nat) s ∧ Quiescent s ∧
    s.shared.earlier = [7] ∧ s.shared.failures = [] ∧ s.shared.ran = [] ∧ s.shared.released = [(0,some 7)] ∧
      ¬((s.shared.ran ≠ [] ↔ s.shared.failures = []) ∧ s.shared.Told) := by
  have ran : (execute (next ⟨.tbb,false,1⟩) (initial Nat)
      (oneCall (some 7) 3 ++ .reset :: oneCall none 3)).map (fun s => decide
        (s.threads.flatten.length = 0 ∧ s.shared.earlier = [7] ∧ s.shared.failures = [] ∧ s.shared.ran = [] ∧
          s.shared.released = [(0,some 7)])) = some true := by decide
  obtain ⟨s,ran,stale⟩ := Option.map_eq_some_iff.mp ran
  obtain ⟨length,earlier,failures,body,released⟩ := of_decide_eq_true stale
  have quiescent : Quiescent s := by simp [Quiescent,Pool.bag,List.eq_nil_of_length_eq_zero length]
  refine ⟨s,execute_reachable _ ran,quiescent,earlier,failures,body,released,fun independent => ?_⟩
  exact independent.1.mpr failures body

end ToyMtFramework.ModuleWrapper
