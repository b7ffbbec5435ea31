import ToyMtFramework.WaitingTaskListNodes

/-! Every task given to a `WaitingTaskList` in a round is released exactly once,
as long as the 32-bit index of the node cache has not come round. -/
namespace ToyMtFramework.WaitingTaskList
open Transition DetachStack

variable {ι ε : Type} [DecidableEq ι]

/-- Whenever there is an exception, a release comes after the failure of its task. -/
def FailsFirst (e : Option ε) (log : List (Event ι ε)) : Prop :=
  ∀ before task after, log = before ++ .released task :: after →
    ∀ x, e = some x → .failed task x ∈ before

omit [DecidableEq ι] in
theorem FailsFirst.append {e : Option ε} {log : List (Event ι ε)} (first : FailsFirst e log)
    (events : List (Event ι ε)) (informed : ∀ task, .released task ∈ events →
      ∀ x, e = some x → .failed task x ∈ log) : FailsFirst e (log ++ events) := by
  intro before task after split x given
  rcases List.append_eq_append_iff.mp split with ⟨between,rfl,rest⟩ | ⟨between,rfl,rest⟩
  · have member : .released task ∈ events := by simp [rest]
    exact List.mem_append_left _ (informed task member x given)
  · cases between with
    | nil =>
      have listed : events = .released task :: after := rest.symm
      simpa using informed task (by simp [listed]) x given
    | cons event between =>
      obtain ⟨rfl,rfl⟩ := List.cons.inj rest
      exact first before task between rfl x given

def Pc.due : Option ι → Pc ι → Option (Option ι)
  | k, .lateRelease => some k
  | _, .release _ _ task => some task
  | _, _ => none

structure Reports (e : Option ε) (s : State ι ε) : Prop where
  due : ∀ k task, (s.call k).due k = some task → ∀ x, e = some x → .failed task x ∈ s.log
  order : FailsFirst e s.log

theorem Reports.move {e : Option ε} {s t : State ι ε} {k : Option ι} {pc : Pc ι}
    (reports : Reports e s) (call : t.call = Function.update s.call k pc)
    (events : List (Event ι ε)) (log : t.log = s.log ++ events)
    (due : ∀ task, pc.due k = some task → ∀ x, e = some x → .failed task x ∈ t.log)
    (released : ∀ task, .released task ∈ events → (s.call k).due k = some task) : Reports e t := by
  constructor
  · intro j task next x given
    rw [call] at next
    by_cases self : j = k
    · subst j
      rw [Function.update_self] at next
      exact due task next x given
    · rw [Function.update_of_ne self] at next
      rw [log]
      exact List.mem_append_left _ (reports.due j task next x given)
  · rw [log]
    exact reports.order.append events fun task member => reports.due k task (released task member)

omit [DecidableEq ι] in
theorem due_continueAt (k : Option ι) (next : Option NodeId) :
    (continueAt next : Pc ι).due k = none := by
  cases next <;> rfl

theorem Reports.next {e : Option ε} {s t : State ι ε} {k : Option ι} (reports : Reports e s)
    (flags : Flags e s) (moves : Moves e s k t) : Reports e t := by
  have told {k : Option ι} {pc : Pc ι} (at_pc : s.call k = pc) (informed : pc.informed = true) :
      s.waiting = false := flags.informed k (by rw [at_pc,informed])
  cases moves with
  | late c pc =>
    have unset := told pc rfl
    have log := flags.applyFailure_log unset (some c)
    refine reports.move rfl _ log ?_ (by simp)
    rintro task next x rfl
    cases next
    rw [goto_log,log]
    simp
  | fail k n next pc =>
    have unset := told pc rfl
    have log : ({s with taken := s.taken ++ [n]}.applyFailure (s.node n).task).log =
      s.log ++ e.toList.map (.failed (s.node n).task) := flags.applyFailure_log unset _
    refine reports.move rfl _ log ?_ (by simp)
    rintro task next x rfl
    cases next
    rw [goto_log,log]
    simp
  | lateRelease c pc =>
    refine reports.move rfl [.released (some c)] rfl (by simp [Pc.due]) ?_
    intro task member
    obtain rfl : task = some c := by simpa using member
    rw [pc]
    rfl
  | release k n next task pc =>
    refine reports.move rfl [.released task] rfl (by simp [Pc.due]) ?_
    intro other member
    obtain rfl : other = task := by simpa using member
    rw [pc]
    rfl
  | spin k n pc => exact reports
  | ready c pc | link c n old pc | recheck c pc =>
    refine reports.move rfl [] (List.append_nil _).symm ?_ (by simp)
    intro task
    split <;> simp [Pc.due]
  | take k pc | delete k n next pc =>
    refine reports.move rfl [] (List.append_nil _).symm ?_ (by simp)
    intro task
    simp [due_continueAt]
  | create c pc | initialise c n pc | push c n pc | setException pc | clearWaiting pc
  | follow k n pc =>
    exact reports.move rfl [] (List.append_nil _).symm (by simp [Pc.due]) (by simp)

def Settled (s : State ι ε) : Prop :=
  s.call none = .returned ∧ ∀ c, s.call (some c) = .ready ∨ s.call (some c) = .returned

/-- What a waiting list owes the tasks it is given. -/
structure Delivers (e : Option ε) (s : State ι ε) : Prop where
  given : none ∉ releasedTasks s.log
  once : ∀ c, (releasedTasks s.log).count (some c) ≤ 1
  cleared : ∀ task ∈ releasedTasks s.log, s.waiting = false
  taken : ∀ n, s.taken.count n ≤ 1
  failsFirst : FailsFirst e s.log
  failure : ∀ task x, .failed task x ∈ s.log → e = some x
  awaited : ∀ k n, s.call k = .follow n → (s.node n).nextNode = some n →
    ∃ c old, s.call (some c) = .link n old
  empty : Settled s → s.head = none
  worked : Settled s → ∀ c n, (c,n) ∈ s.handed → s.taken.count n = 1
  released : Settled s → ∀ c, s.call (some c) = .returned → (releasedTasks s.log).count (some c) = 1

structure Round (e : Option ε) (s : State ι ε) : Prop where
  flags : Flags e s
  allocation : Allocation s
  attended : Attended s
  reports : Reports e s
  tracks : ∃ L, Tracks s L

omit [DecidableEq ι] in
/-- A list whose calls have all still to be made. -/
theorem begun_round (e : Option ε) {s : State ι ε} (waiting : s.waiting = true) (head : s.head = none)
    (index : s.lastAssignedCacheIndex = 0) (call : ∀ k, s.call k = .ready) (handed : s.handed = [])
    (taken : s.taken = []) (log : s.log = []) : Round e s := by
  refine ⟨?_,?_,fun nonempty => absurd head nonempty,?_,Ledger.empty,?_,?_,?_⟩
  · constructor <;> simp [waiting,call,log,Pc.informed]
  · constructor <;> simp [handed,index,call,Registered]
  · constructor
    · simp [call,Pc.due]
    · simp [log,FailsFirst]
  · constructor <;> simp [call,handed,taken,Ledger.empty,Pc.owning,Pc.working,Pc.Walks]
  · constructor <;> simp [call,head,Ledger.empty,Pc.pushing,Chain]
  · constructor <;> simp [log,call,handed,Ledger.empty,releasedTasks]

omit [DecidableEq ι] in
theorem initial_round (e : Option ε) (nodeCacheSize : Nat) : Round e (initial ι ε nodeCacheSize) :=
  begun_round e rfl rfl rfl (fun _ => rfl) rfl rfl rfl

theorem Round.next {e : Option ε} {s t : State ι ε} {k : Option ι} (round : Round e s)
    (guarded : DrawsFreshIndex s k) (taken : next e s k = some t) : Round e t := by
  have moves := next_moves taken
  obtain ⟨L,tracks⟩ := round.tracks
  exact ⟨round.flags.next moves,round.allocation.next guarded moves,
    round.attended.next round.flags moves,round.reports.next round.flags moves,
    tracks.next round.allocation guarded moves⟩

omit [DecidableEq ι] in
/-- A settled round has left no node anywhere but at the end of its way. -/
theorem Tracks.settled {s : State ι ε} {L : Ledger NodeId (Option ι)} (tracks : Tracks s L)
    (settled : Settled s) (empty : s.head = none) {c : ι} {n : NodeId} (owned : (c,n) ∈ s.handed) :
    L.place n = .gone := by
  have idle (k : Option ι) : s.call k = .ready ∨ s.call k = .returned := by
    cases k with
    | none => exact Or.inr settled.1
    | some c => exact settled.2 c
  cases place : L.place n with
  | gone => rfl
  | apart =>
    have owning := (tracks.placed.apart c n owned).mp place
    rcases idle (some c) with pc | pc <;> simp [pc,Pc.owning] at owning
  | stacked =>
    have nothing : L.stack = [] := List.head?_eq_none_iff.mp (tracks.linked.head.symm.trans empty)
    have member := (L.mem_stack n).mpr place
    simp [nothing] at member
  | held k =>
    have member := (L.mem_held k n).mpr place
    have walks := tracks.placed.walks k
    rcases idle k with pc | pc <;>
    · have nothing : L.held k = [] := by simpa [pc,Pc.Walks] using walks
      simp [nothing] at member
  | releasing k =>
    obtain ⟨task,working⟩ := (tracks.placed.releasing k n).mp place
    rcases idle k with pc | pc <;> simp [pc,Pc.working] at working

theorem Round.delivers {e : Option ε} {s : State ι ε} (round : Round e s) : Delivers e s := by
  obtain ⟨L,tracks⟩ := round.tracks
  have empty (settled : Settled s) : s.head = none := by
    by_contra nonempty
    obtain ⟨k,attends⟩ := round.attended nonempty
    cases k with
    | none => simp [settled.1,Pc.attends] at attends
    | some c => rcases settled.2 c with pc | pc <;> simp [pc,Pc.attends] at attends
  constructor
  · exact tracks.accounts.given
  · exact fun c => List.nodup_iff_count_le_one.mp tracks.accounts.distinct (some c)
  · intro task member
    obtain ⟨event,inside,equal⟩ := List.mem_filterMap.mp member
    cases event with
    | failed task x => simp at equal
    | released task => exact round.flags.released task inside
  · exact List.nodup_iff_count_le_one.mp tracks.placed.once
  · exact round.reports.order
  · exact round.flags.failed
  · intro k n pc unset
    have walks := tracks.placed.walks k
    have chain := tracks.linked.held k
    rw [pc] at walks
    obtain ⟨rest,top⟩ := List.head?_eq_some_iff.mp walks
    rw [top] at chain
    obtain ⟨⟨proper,c,_,_,linked | ⟨linking,_⟩⟩,_⟩ := chain
    · exact absurd (linked.2.symm.trans unset) proper
    · refine ⟨c,rest.head?,?_⟩
      cases at_link : s.call (some c) <;> simp [at_link,Pc.linking] at linking
      rw [linking.1,linking.2]
  · exact empty
  · intro settled c n owned
    rw [List.count_eq_one_of_mem tracks.placed.once]
    exact (tracks.placed.taken n).mpr (Or.inl (tracks.settled settled (empty settled) owned))
  · intro settled c returned
    rw [List.count_eq_one_of_mem tracks.accounts.distinct]
    rw [tracks.accounts.released]
    by_cases handed : ∃ n, (c,n) ∈ s.handed
    · obtain ⟨n,owned⟩ := handed
      exact Or.inl ⟨n,owned,tracks.settled settled (empty settled) owned⟩
    · exact Or.inr ⟨fun n owned => handed ⟨n,owned⟩,returned⟩

/-- In every run that draws each index once, the list delivers. -/
theorem round_delivers (e : Option ε) (nodeCacheSize : Nat) (s : State ι ε)
    (run : Reaches (next e) DrawsFreshIndex (initial ι ε nodeCacheSize) s) : Delivers e s :=
  (run.invariant (fun _ _ _ round guarded taken => round.next guarded taken)
    (initial_round e nodeCacheSize)).delivers

instance (s : State ι ε) : ∀ k, Decidable (DrawsFreshIndex s k) := fun k =>
  inferInstanceAs (Decidable (s.call k = .create → s.nodeCacheSize = 0 ∨ s.handed.length ≤ maxIndex))

/-- Both calls have pushed and neither has linked its node when `doneWaiting` takes the list: it waits for
each link in turn. -/
def twoCalls : List (Option (Fin 2)) :=
  [some 0,some 0,some 0,some 0,some 1,some 1,some 1,some 1,none,none,none,none,none,some 1,none,none,none,none,
    none,some 0,some 0,some 0,none,none,none,none]

theorem round_delivers_twoCalls :
    ∃ s, execute (next (some ())) (initial (Fin 2) Unit 2) twoCalls = some s ∧
      releasedTasks s.log = [some 1,some 0] ∧ Delivers (some ()) s := by
  refine ⟨_,rfl,rfl,round_delivers (some ()) 2 _ ?_⟩
  exact execute_reaches twoCalls (by decide) rfl

section Wrap

structure Drained (s : State ι ε) : Prop where
  waiting : s.waiting = false
  exceptionPtr : s.exceptionPtr = none
  head : s.head = none

/-- A call that pushes alone onto a drained list releases what its node names. -/
theorem Drained.push {s : State ι ε} (drained : Drained s) {c : ι} {n : NodeId}
    (pc : s.call (some c) = .push n) : ∃ t, Reachable (next none) s t ∧ Drained t ∧
      t.call = Function.update s.call (some c) .returned ∧
      t.node = Function.update s.node n ⟨(s.node n).task,none⟩ ∧
      t.nodeCacheSize = s.nodeCacheSize ∧ t.lastAssignedCacheIndex = s.lastAssignedCacheIndex ∧
      t.log = s.log ++ [.released (s.node n).task] := by
  obtain ⟨waiting,exceptionPtr,head⟩ := drained
  have ran : ∃ t, execute (next none) s (List.replicate 8 (some c)) = some t ∧ Drained t ∧
      t.call = Function.update s.call (some c) .returned ∧
      t.node = Function.update s.node n ⟨(s.node n).task,none⟩ ∧
      t.nodeCacheSize = s.nodeCacheSize ∧ t.lastAssignedCacheIndex = s.lastAssignedCacheIndex ∧
      t.log = s.log ++ [.released (s.node n).task] := by
    simp [List.replicate,execute,next,add,announce,State.goto,State.setNode,State.applyFailure,
      State.released,continueAt,pc,waiting,exceptionPtr,head]
    exact ⟨rfl,rfl,rfl⟩
  obtain ⟨t,ran,after⟩ := ran
  exact ⟨t,execute_reachable _ ran,after⟩

/-- A call that makes all its accesses on a drained list releases its own task. -/
theorem Drained.cycle {s : State ι ε} (drained : Drained s) {c : ι}
    (pc : s.call (some c) = .create) : ∃ t, Reachable (next none) s t ∧ Drained t ∧
      t.call = Function.update s.call (some c) .returned ∧
      t.node = Function.update s.node s.place ⟨some c,none⟩ ∧
      t.nodeCacheSize = s.nodeCacheSize ∧
      t.lastAssignedCacheIndex = bump s.lastAssignedCacheIndex ∧
      t.log = s.log ++ [.released (some c)] := by
  have ran : ∃ t, execute (next none) s [some c,some c] = some t ∧ Drained t ∧
      t.call = Function.update s.call (some c) (.push s.place) ∧
      t.node = Function.update s.node s.place ⟨some c,some s.place⟩ ∧
      t.nodeCacheSize = s.nodeCacheSize ∧
      t.lastAssignedCacheIndex = bump s.lastAssignedCacheIndex ∧ t.log = s.log := by
    simp [execute,next,add,createNode,State.goto,State.setNode,pc]
    exact ⟨drained.waiting,drained.exceptionPtr,drained.head⟩
  obtain ⟨t,first,drained,call,node,size,index,log⟩ := ran
  have at_push : t.call (some c) = .push s.place := by rw [call,Function.update_self]
  obtain ⟨u,second,drained,call',node',size',index',log'⟩ := drained.push at_push
  refine ⟨u,(execute_reachable _ first).trans second,drained,?_,?_,?_,?_,?_⟩
  · rw [call',call,Function.update_idem]
  · rw [node',node,Function.update_self,Function.update_idem]
  · rw [size',size]
  · rw [index',index]
  · rw [log',log,node,Function.update_self]

def entered (n : Nat) : State Nat Unit :=
  {initial Nat Unit 2 with
    call
      | none => .ready
      | some c => if c < n then .create else .ready}

theorem entered_reachable (n : Nat) : Reachable (next none) (initial Nat Unit 2) (entered n) := by
  induction n with
  | zero =>
    have start : entered 0 = initial Nat Unit 2 := by
      simp only [entered,initial,Nat.not_lt_zero,if_false]
      congr
      funext k
      cases k <;> rfl
    rw [start]
    exact Reaches.refl _
  | succ n ih =>
    refine ih.step (some n) trivial ?_
    have waiting : (entered n).waiting = true := rfl
    simp only [next,add,entered,Nat.lt_irrefl,if_false,Option.some.injEq]
    simp only [State.goto,initial,if_true]
    congr
    funext k
    cases k with
    | none => rfl
    | some c =>
      by_cases same : c = n
      · simp [same]
      · have shifted : c < n + 1 ↔ c < n := by omega
        simp [same,shifted]

/-- Call 0 holds the node `cached 0` and has still to push it; calls 1 to `n` have
come and gone, and every other call up to the wrap is about to draw an index. -/
structure Lagging (n : Nat) (s : State Nat Unit) : Prop where
  drained : Drained s
  lagging : s.call (some 0) = .push (.cached 0)
  entered : ∀ c, n < c → c ≤ maxIndex + 1 → s.call (some c) = .create
  size : s.nodeCacheSize = 2
  index : s.lastAssignedCacheIndex = if n = maxIndex then 0 else n + 1

theorem lagging_zero : ∃ s, Reachable (next none) (initial Nat Unit 2) s ∧ Lagging 0 s := by
  have ran : ∃ s, execute (next none) (entered (maxIndex + 2)) [some 0,some 0,none,none,none] = some s ∧
      Lagging 0 s := by
    simp [execute,next,add,doneWaiting,announce,createNode,State.goto,State.setNode,State.place,entered,
      initial,continueAt]
    refine ⟨⟨rfl,rfl,rfl⟩,by simp,?_,rfl,rfl⟩
    intro c positive bound
    have inside : c < maxIndex + 2 := by omega
    have later : c ≠ 0 := by omega
    simp [later,inside]
  obtain ⟨s,ran,lagging⟩ := ran
  exact ⟨s,(entered_reachable _).trans (execute_reachable _ ran),lagging⟩

theorem Lagging.next {n : Nat} {s : State Nat Unit} (lagging : Lagging n s) (below : n < maxIndex) :
    ∃ t, Reachable (next none) s t ∧ Lagging (n + 1) t := by
  have pc : s.call (some (n + 1)) = .create := lagging.entered _ (by omega) (by omega)
  obtain ⟨t,run,drained,call,_,size,index,_⟩ := lagging.drained.cycle pc
  refine ⟨t,run,drained,?_,?_,?_,?_⟩
  · rw [call,Function.update_of_ne (by simp),lagging.lagging]
  · intro c after bound
    have other : c ≠ n + 1 := by omega
    rw [call,Function.update_of_ne (by simpa using other)]
    exact lagging.entered c (by omega) bound
  · rw [size,lagging.size]
  · rw [index,lagging.index,if_neg (by omega),bump]

theorem lagging_reachable (n : Nat) (bound : n ≤ maxIndex) :
    ∃ s, Reachable (next none) (initial Nat Unit 2) s ∧ Lagging n s := by
  induction n with
  | zero => exact lagging_zero
  | succ n ih =>
    obtain ⟨s,run,lagging⟩ := ih (by omega)
    obtain ⟨t,step,lagging⟩ := lagging.next (by omega)
    exact ⟨t,run.trans step,lagging⟩

/-- After 2^32 calls the index is back at 0: the next call overwrites the node that
call 0 has not pushed yet, and its task is released twice. -/
theorem index_wrap_releases_twice :
    ¬∀ s, Reachable (next none) (initial Nat Unit 2) s → Delivers none s := by
  intro all
  obtain ⟨s,run,lagging⟩ := lagging_reachable maxIndex (Nat.le_refl _)
  have place : s.place = .cached 0 := by simp [State.place,lagging.index,lagging.size]
  have pc := lagging.entered (maxIndex + 1) (by omega) (Nat.le_refl _)
  obtain ⟨t,second,drained,call,node,_,_,log⟩ := lagging.drained.cycle pc
  have at_push : t.call (some 0) = .push (.cached 0) := by
    rw [call,Function.update_of_ne (by simp),lagging.lagging]
  obtain ⟨u,third,_,_,_,_,_,log'⟩ := drained.push at_push
  have once := (all u ((run.trans second).trans third)).once (maxIndex + 1)
  rw [log',log,node,place,Function.update_self] at once
  simp only [releasedTasks_append,releasedTasks_released,List.count_append,
    List.count_singleton_self] at once
  omega

end Wrap
end ToyMtFramework.WaitingTaskList
