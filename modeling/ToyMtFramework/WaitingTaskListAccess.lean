import ToyMtFramework.WaitingTaskList

/-! What one access of a `WaitingTaskList` call can do, and the invariants that
need no picture of the chain: the flags of the round, the nodes `createNode` has
handed out and the calls that still attend to a stack that is not empty. -/
namespace ToyMtFramework.WaitingTaskList
open Transition

variable {ι ε : Type} [DecidableEq ι]

inductive Moves (e : Option ε) (s : State ι ε) : Option ι → State ι ε → Prop
  | ready (c : ι) (pc : s.call (some c) = .ready) :
      Moves e s (some c) (s.goto (some c) (if s.waiting then .create else .late))
  | late (c : ι) (pc : s.call (some c) = .late) :
      Moves e s (some c) ((s.applyFailure (some c)).goto (some c) .lateRelease)
  | lateRelease (c : ι) (pc : s.call (some c) = .lateRelease) :
      Moves e s (some c) ((s.released (some c)).goto (some c) .returned)
  | create (c : ι) (pc : s.call (some c) = .create) : Moves e s (some c) (createNode s c)
  | initialise (c : ι) (n : NodeId) (pc : s.call (some c) = .initialise n) :
      Moves e s (some c) ((s.setNode n ⟨some c,some n⟩).goto (some c) (.push n))
  | push (c : ι) (n : NodeId) (pc : s.call (some c) = .push n) :
      Moves e s (some c) ({s with head := some n}.goto (some c) (.link n s.head))
  | link (c : ι) (n : NodeId) (old : Option NodeId) (pc : s.call (some c) = .link n old) :
      Moves e s (some c) ((s.setNode n {s.node n with nextNode := old}).goto (some c)
        (if old = none then .recheck else .returned))
  | recheck (c : ι) (pc : s.call (some c) = .recheck) :
      Moves e s (some c) (s.goto (some c) (if s.waiting then .returned else .take))
  | setException (pc : s.call none = .ready) :
      Moves e s none ({s with exceptionPtr := e}.goto none .clearWaiting)
  | clearWaiting (pc : s.call none = .clearWaiting) :
      Moves e s none ({s with waiting := false}.goto none .take)
  | take (k : Option ι) (pc : s.call k = .take) :
      Moves e s k ({s with head := none}.goto k (continueAt s.head))
  | spin (k : Option ι) (n : NodeId) (pc : s.call k = .follow n)
      (unset : (s.node n).nextNode = some n) : Moves e s k s
  | follow (k : Option ι) (n : NodeId) (pc : s.call k = .follow n)
      (set : (s.node n).nextNode ≠ some n) : Moves e s k (s.goto k (.fail n (s.node n).nextNode))
  | fail (k : Option ι) (n : NodeId) (next : Option NodeId) (pc : s.call k = .fail n next) :
      Moves e s k (({s with taken := s.taken ++ [n]}.applyFailure (s.node n).task).goto k
        (.release n next (s.node n).task))
  | release (k : Option ι) (n : NodeId) (next : Option NodeId) (task : Option ι)
      (pc : s.call k = .release n next task) :
      Moves e s k ((s.released task).goto k (.delete n next))
  | delete (k : Option ι) (n : NodeId) (next : Option NodeId) (pc : s.call k = .delete n next) :
      Moves e s k ({s with deleted := if n.fromCache then s.deleted else s.deleted ++ [n]}.goto k
        (continueAt next))

theorem announce_moves {e : Option ε} {s t : State ι ε} {k : Option ι}
    (taken : announce s k (s.call k) = some t) : Moves e s k t := by
  cases pc : s.call k with
  | take =>
    rw [pc] at taken
    obtain rfl := Option.some.inj taken
    exact .take k pc
  | follow n =>
    simp only [announce,pc,Option.some.injEq] at taken
    subst t
    split
    · rename_i unset
      exact .spin k n pc unset
    · rename_i set
      exact .follow k n pc set
  | fail n next =>
    rw [pc] at taken
    obtain rfl := Option.some.inj taken
    exact .fail k n next pc
  | release n next task =>
    rw [pc] at taken
    obtain rfl := Option.some.inj taken
    exact .release k n next task pc
  | delete n next =>
    rw [pc] at taken
    obtain rfl := Option.some.inj taken
    exact .delete k n next pc
  | _ => simp [announce,pc] at taken

theorem next_moves {e : Option ε} {s t : State ι ε} {k : Option ι}
    (taken : next e s k = some t) : Moves e s k t := by
  cases k with
  | none =>
    simp only [next] at taken
    unfold doneWaiting at taken
    split at taken
    · rename_i pc
      obtain rfl := Option.some.inj taken
      exact .setException pc
    · rename_i pc
      obtain rfl := Option.some.inj taken
      exact .clearWaiting pc
    · exact announce_moves taken
  | some c =>
    simp only [next] at taken
    unfold add at taken
    split at taken
    · rename_i pc
      obtain rfl := Option.some.inj taken
      exact .ready c pc
    · rename_i pc
      obtain rfl := Option.some.inj taken
      exact .late c pc
    · rename_i pc
      obtain rfl := Option.some.inj taken
      exact .lateRelease c pc
    · rename_i pc
      obtain rfl := Option.some.inj taken
      exact .create c pc
    · rename_i n pc
      obtain rfl := Option.some.inj taken
      exact .initialise c n pc
    · rename_i n pc
      obtain rfl := Option.some.inj taken
      exact .push c n pc
    · rename_i n old pc
      obtain rfl := Option.some.inj taken
      exact .link c n old pc
    · rename_i pc
      obtain rfl := Option.some.inj taken
      exact .recheck c pc
    · exact announce_moves taken

section Calls
variable (s : State ι ε) (k : Option ι) (pc : Pc ι)

@[simp] theorem goto_call : (s.goto k pc).call = Function.update s.call k pc := rfl
@[simp] theorem goto_waiting : (s.goto k pc).waiting = s.waiting := rfl
@[simp] theorem goto_exceptionPtr : (s.goto k pc).exceptionPtr = s.exceptionPtr := rfl
@[simp] theorem goto_head : (s.goto k pc).head = s.head := rfl
@[simp] theorem goto_node : (s.goto k pc).node = s.node := rfl
@[simp] theorem goto_handed : (s.goto k pc).handed = s.handed := rfl
@[simp] theorem goto_taken : (s.goto k pc).taken = s.taken := rfl
@[simp] theorem goto_log : (s.goto k pc).log = s.log := rfl

end Calls

def Pc.informed : Pc ι → Bool
  | .late | .lateRelease | .take | .follow _ | .fail _ _ | .release _ _ _ | .delete _ _ => true
  | _ => false

structure Flags (e : Option ε) (s : State ι ε) : Prop where
  waiting : s.waiting = true ↔ s.call none = .ready ∨ s.call none = .clearWaiting
  exception : s.call none ≠ .ready → s.exceptionPtr = e
  informed : ∀ k, (s.call k).informed = true → s.waiting = false
  released : ∀ task, .released task ∈ s.log → s.waiting = false
  failed : ∀ task x, .failed task x ∈ s.log → e = some x

/-- The steps of `doneWaiting` before its own `announce`. -/
def Pc.opening : Pc ι → Bool
  | .ready | .clearWaiting => true
  | _ => false

theorem Flags.move {e : Option ε} {s t : State ι ε} {k : Option ι} {pc : Pc ι} (flags : Flags e s)
    (call : t.call = Function.update s.call k pc) (waiting : t.waiting = s.waiting)
    (exception : t.exceptionPtr = s.exceptionPtr) (before : k = none → (s.call k).opening = false)
    (after : pc.opening = false) (informed : pc.informed = true → s.waiting = false)
    (log : ∀ event ∈ t.log, event ∈ s.log ∨ s.waiting = false ∧
      ∀ task x, event = .failed task x → e = some x) : Flags e t := by
  have entry : (t.call none).opening = (s.call none).opening := by
    rw [call]
    by_cases same : none = k
    · subst k
      rw [Function.update_self,before rfl,after]
    · rw [Function.update_of_ne same]
  have opens (pc : Pc ι) : pc.opening = true ↔ pc = .ready ∨ pc = .clearWaiting := by
    cases pc <;> simp [Pc.opening]
  constructor
  · rw [waiting,flags.waiting,← opens,← opens,entry]
  · intro begun
    rw [exception]
    apply flags.exception
    intro unbegun
    by_cases same : none = k
    · subst k
      simp [unbegun,Pc.opening] at before
    · rw [call,Function.update_of_ne same] at begun
      exact begun unbegun
  · intro j told
    rw [waiting]
    by_cases same : j = k
    · subst j
      rw [call,Function.update_self] at told
      exact informed told
    · rw [call,Function.update_of_ne same] at told
      exact flags.informed j told
  · intro task member
    rw [waiting]
    rcases log _ member with old | new
    · exact flags.released task old
    · exact new.1
  · intro task x member
    rcases log _ member with old | new
    · exact flags.failed task x old
    · exact new.2 task x rfl

omit [DecidableEq ι] in
/-- `m_exceptionPtr` is the argument of `doneWaiting` once `m_waiting` is false. -/
theorem Flags.exceptionPtr {e : Option ε} {s : State ι ε} (flags : Flags e s)
    (unset : s.waiting = false) : s.exceptionPtr = e := by
  apply flags.exception
  intro unbegun
  simp [flags.waiting.mpr (Or.inl unbegun)] at unset

omit [DecidableEq ι] in
theorem Flags.applyFailure_log {e : Option ε} {s : State ι ε} (flags : Flags e s)
    (unset : s.waiting = false) (task : Option ι) :
    (s.applyFailure task).log = s.log ++ e.toList.map (.failed task) := by
  simp only [State.applyFailure,flags.exceptionPtr unset]

theorem Flags.next {e : Option ε} {s t : State ι ε} {k : Option ι} (flags : Flags e s)
    (moves : Moves e s k t) : Flags e t := by
  have same (event : Event ι ε) (member : event ∈ s.log) : event ∈ s.log ∨ s.waiting = false ∧
      ∀ task x, event = .failed task x → e = some x := Or.inl member
  have failing (unset : s.waiting = false) (task : Option ι) :
      ∀ event ∈ (s.applyFailure task).log, event ∈ s.log ∨ s.waiting = false ∧
        ∀ task x, event = .failed task x → e = some x := by
    intro event member
    rw [flags.applyFailure_log unset,List.mem_append] at member
    rcases member with old | new
    · exact Or.inl old
    · obtain ⟨y,given,rfl⟩ := List.mem_map.mp new
      refine Or.inr ⟨unset,fun task x equal => ?_⟩
      cases equal
      exact Option.mem_toList.mp given
  have releasing (unset : s.waiting = false) (task : Option ι) :
      ∀ event ∈ (s.released task).log, event ∈ s.log ∨ s.waiting = false ∧
        ∀ task x, event = .failed task x → e = some x := by
    intro event member
    rcases List.mem_append.mp member with old | new
    · exact Or.inl old
    · refine Or.inr ⟨unset,?_⟩
      rintro task x rfl
      simp at new
  have told {k : Option ι} {pc : Pc ι} (at_pc : s.call k = pc) (informed : pc.informed = true) :
      s.waiting = false := flags.informed k (by rw [at_pc,informed])
  cases moves with
  | ready c pc =>
    refine flags.move rfl rfl rfl (by simp) ?_ ?_ same
    · split <;> rfl
    · split
      · simp [Pc.informed]
      · rename_i unset
        intro _
        simpa using unset
  | late c pc =>
    have unset := told pc rfl
    exact flags.move rfl rfl rfl (by simp) rfl (fun _ => unset) (failing unset (some c))
  | lateRelease c pc =>
    have unset := told pc rfl
    exact flags.move rfl rfl rfl (by simp) rfl (fun _ => unset) (releasing unset (some c))
  | create c pc => exact flags.move rfl rfl rfl (by simp) rfl (by simp [Pc.informed]) same
  | initialise c n pc => exact flags.move rfl rfl rfl (by simp) rfl (by simp [Pc.informed]) same
  | push c n pc => exact flags.move rfl rfl rfl (by simp) rfl (by simp [Pc.informed]) same
  | link c n old pc =>
    refine flags.move rfl rfl rfl (by simp) ?_ ?_ same
    · split <;> rfl
    · split <;> simp [Pc.informed]
  | recheck c pc =>
    refine flags.move rfl rfl rfl (by simp) ?_ ?_ same
    · split <;> rfl
    · split
      · simp [Pc.informed]
      · rename_i unset
        intro _
        simpa using unset
  | setException pc =>
    have waiting := flags.waiting.mpr (Or.inl pc)
    constructor
    · simp [waiting]
    · simp
    · intro j informed
      by_cases self : j = none
      · subst j
        simp [Pc.informed] at informed
      · rw [goto_call,Function.update_of_ne self] at informed
        exact flags.informed j informed
    · exact flags.released
    · exact flags.failed
  | clearWaiting pc =>
    constructor
    · simp
    · intro _
      exact flags.exception (by simp [pc])
    · simp
    · simp
    · exact flags.failed
  | take k pc =>
    have unset := told pc rfl
    refine flags.move rfl rfl rfl (by simp [pc,Pc.opening]) ?_ (fun _ => unset) same
    cases s.head <;> rfl
  | spin k n pc => exact flags
  | follow k n pc =>
    exact flags.move rfl rfl rfl (by simp [pc,Pc.opening]) rfl (fun _ => told pc rfl) same
  | fail k n next pc =>
    have unset := told pc rfl
    exact flags.move rfl rfl rfl (by simp [pc,Pc.opening]) rfl (fun _ => unset)
      (failing unset (s.node n).task)
  | release k n next task pc =>
    have unset := told pc rfl
    exact flags.move rfl rfl rfl (by simp [pc,Pc.opening]) rfl (fun _ => unset) (releasing unset task)
  | delete k n next pc =>
    refine flags.move rfl rfl rfl (by simp [pc,Pc.opening]) ?_ (fun _ => told pc rfl) same
    cases next <;> rfl

/-- The index drawn next has not been drawn before, or there is no cache to share. -/
def DrawsFreshIndex (s : State ι ε) (k : Option ι) : Prop :=
  s.call k = .create → s.nodeCacheSize = 0 ∨ s.handed.length ≤ maxIndex

/-- What the point of a call of `add` says about the node it was handed. -/
def Registered (s : State ι ε) (c : ι) : Pc ι → Prop
  | .ready | .late | .lateRelease | .create => ∀ n, (c,n) ∉ s.handed
  | .initialise n | .push n | .link n _ => (c,n) ∈ s.handed
  | .returned => True
  | _ => ∃ n, (c,n) ∈ s.handed

structure Allocation (s : State ι ε) : Prop where
  owner : ∀ c n d m, (c,n) ∈ s.handed → (d,m) ∈ s.handed → (c = d ↔ n = m)
  cached : ∀ c i, (c,.cached i) ∈ s.handed → i < s.handed.length ∧ i < s.nodeCacheSize
  heap : ∀ c i, (c,.heap i) ∈ s.handed → i < s.heapNodes
  index : s.handed.length ≤ maxIndex → s.lastAssignedCacheIndex = s.handed.length
  registered : ∀ c, Registered s c (s.call (some c))

omit [DecidableEq ι] in
theorem Allocation.place_fresh {s : State ι ε} (allocation : Allocation s)
    (guarded : s.nodeCacheSize = 0 ∨ s.handed.length ≤ maxIndex) (c : ι) :
    (c,s.place) ∉ s.handed := by
  unfold State.place
  split
  · rename_i inside
    rcases guarded with empty | below
    · omega
    · intro member
      have bound := (allocation.cached c _ member).1
      rw [allocation.index below] at bound
      omega
  · intro member
    exact Nat.lt_irrefl _ (allocation.heap c _ member)

theorem Allocation.move {s t : State ι ε} {k : Option ι} {pc : Pc ι} (allocation : Allocation s)
    (call : t.call = Function.update s.call k pc) (handed : t.handed = s.handed)
    (size : t.nodeCacheSize = s.nodeCacheSize)
    (index : t.lastAssignedCacheIndex = s.lastAssignedCacheIndex)
    (heap : t.heapNodes = s.heapNodes)
    (registered : ∀ c, k = some c → Registered s c (s.call k) → Registered s c pc) :
    Allocation t := by
  constructor
  · rw [handed]
    exact allocation.owner
  · rw [handed,size]
    exact allocation.cached
  · rw [handed,heap]
    exact allocation.heap
  · rw [handed,index]
    exact allocation.index
  · intro c
    have carried (pc : Pc ι) : Registered t c pc = Registered s c pc := by
      cases pc <;> simp only [Registered,handed]
    rw [carried,call]
    by_cases same : some c = k
    · subst k
      rw [Function.update_self]
      exact registered c rfl (allocation.registered c)
    · rw [Function.update_of_ne same]
      exact allocation.registered c

theorem Allocation.create {s : State ι ε} (allocation : Allocation s) (c : ι)
    (pc : s.call (some c) = .create) (guarded : DrawsFreshIndex s (some c)) :
    Allocation (createNode s c) := by
  have counted := guarded pc
  have unhanded : ∀ n, (c,n) ∉ s.handed := by simpa [pc,Registered] using allocation.registered c
  have handed : (createNode s c).handed = s.handed ++ [(c,s.place)] := rfl
  have size : (createNode s c).nodeCacheSize = s.nodeCacheSize := rfl
  constructor
  · intro d n f m first second
    rw [handed,List.mem_append,List.mem_singleton] at first second
    rcases first with first | first <;> rcases second with second | second
    · exact allocation.owner d n f m first second
    · cases second
      refine ⟨?_,?_⟩
      · rintro rfl
        exact absurd first (unhanded n)
      · rintro rfl
        exact absurd first (allocation.place_fresh counted d)
    · cases first
      refine ⟨?_,?_⟩
      · rintro rfl
        exact absurd second (unhanded m)
      · rintro rfl
        exact absurd second (allocation.place_fresh counted f)
    · cases first
      cases second
      simp
  · intro d i member
    rw [handed,List.mem_append,List.mem_singleton] at member
    rw [handed,List.length_append,List.length_singleton,size]
    rcases member with old | new
    · have bounds := allocation.cached d i old
      omega
    · simp only [Prod.mk.injEq,State.place] at new
      obtain ⟨rfl,place⟩ := new
      split at place
      · rename_i inside
        cases place
        rcases counted with empty | below
        · omega
        · have index := allocation.index below
          omega
      · cases place
  · intro d i member
    rw [handed,List.mem_append,List.mem_singleton] at member
    simp only [createNode,State.goto]
    rcases member with old | new
    · have bound := allocation.heap d i old
      split <;> omega
    · simp only [Prod.mk.injEq,State.place] at new
      obtain ⟨rfl,place⟩ := new
      split at place
      · cases place
      · rename_i outside
        cases place
        rw [if_neg outside]
        omega
  · intro below
    rw [handed,List.length_append,List.length_singleton] at below ⊢
    have index := allocation.index (by omega)
    simp only [createNode,State.goto,bump,index]
    rw [if_neg (by omega)]
  · intro d
    by_cases same : d = c
    · subst d
      simp [createNode,Registered]
    · have other : (createNode s c).call (some d) = s.call (some d) := by
        simp [createNode,same]
      rw [other]
      have registered := allocation.registered d
      cases at_pc : s.call (some d) <;>
        simp only [at_pc,Registered,handed,List.mem_append,List.mem_singleton,Prod.mk.injEq,
          same,false_and,or_false] at registered ⊢ <;>
        exact registered

omit [DecidableEq ι] in
theorem registered_continueAt {s : State ι ε} {c : ι} (next : Option NodeId)
    (registered : ∃ n, (c,n) ∈ s.handed) : Registered s c (continueAt next) := by
  cases next with
  | none => trivial
  | some n => exact registered

theorem Allocation.next {e : Option ε} {s t : State ι ε} {k : Option ι}
    (allocation : Allocation s) (guarded : DrawsFreshIndex s k) (moves : Moves e s k t) :
    Allocation t := by
  cases moves with
  | create c pc => exact allocation.create c pc guarded
  | spin k n pc => exact allocation
  | ready c pc =>
    refine allocation.move rfl rfl rfl rfl rfl ?_
    intro d _ unhanded
    rw [pc] at unhanded
    split <;> exact unhanded
  | link c n old pc =>
    refine allocation.move rfl rfl rfl rfl rfl ?_
    intro d _ handed
    rw [pc] at handed
    split
    · exact ⟨n,handed⟩
    · trivial
  | recheck c pc =>
    refine allocation.move rfl rfl rfl rfl rfl ?_
    intro d _ handed
    rw [pc] at handed
    split
    · trivial
    · exact handed
  | setException pc | clearWaiting pc =>
    exact allocation.move rfl rfl rfl rfl rfl (by simp)
  | take k pc | delete k n next pc =>
    refine allocation.move rfl rfl rfl rfl rfl ?_
    intro d _ handed
    rw [pc] at handed
    exact registered_continueAt _ handed
  | late c pc | lateRelease c pc | initialise c n pc | push c n pc | follow k n pc
  | fail k n next pc | release k n next task pc =>
    refine allocation.move rfl rfl rfl rfl rfl ?_
    intro d _ handed
    rw [pc] at handed
    first | exact handed | trivial

/-- The calls that will still exchange `m_head` with null or find out that
`doneWaiting` has to. -/
def Pc.attends : Option ι → Pc ι → Bool
  | none, .ready | none, .clearWaiting | _, .take | _, .link _ none | _, .recheck => true
  | _, _ => false

def Attended (s : State ι ε) : Prop :=
  s.head ≠ none → ∃ k, (s.call k).attends k = true

theorem Attended.move {s t : State ι ε} {k : Option ι} {pc : Pc ι} (attended : Attended s)
    (call : t.call = Function.update s.call k pc) (head : t.head = s.head)
    (kept : (s.call k).attends k = true → pc.attends k = true) : Attended t := by
  intro nonempty
  obtain ⟨j,attends⟩ := attended (by rwa [head] at nonempty)
  refine ⟨j,?_⟩
  rw [call]
  by_cases same : j = k
  · subst j
    rw [Function.update_self]
    exact kept attends
  · rwa [Function.update_of_ne same]

theorem Attended.next {e : Option ε} {s t : State ι ε} {k : Option ι} (attended : Attended s)
    (flags : Flags e s) (moves : Moves e s k t) : Attended t := by
  cases moves with
  | push c n pc =>
    intro _
    cases head : s.head with
    | none => exact ⟨some c,by simp [Pc.attends]⟩
    | some m =>
      -- whoever attends to the nodes below attends to the new one
      obtain ⟨j,attends⟩ := attended (by simp [head])
      refine ⟨j,?_⟩
      have other : j ≠ some c := by
        rintro rfl
        simp [pc,Pc.attends] at attends
      simpa [Function.update_of_ne other] using attends
  | take k pc => exact fun nonempty => absurd rfl nonempty
  | recheck c pc =>
    cases waiting : s.waiting with
    | false => exact attended.move rfl rfl (by simp [Pc.attends])
    | true =>
      refine fun _ => ⟨none,?_⟩
      rcases flags.waiting.mp waiting with unbegun | clearing
      · simp [unbegun,Pc.attends]
      · simp [clearing,Pc.attends]
  | link c n old pc =>
    refine attended.move rfl rfl ?_
    cases old <;> simp [pc,Pc.attends]
  | spin k n pc => exact attended
  | _ => exact attended.move rfl rfl (by simp [*,Pc.attends])

end ToyMtFramework.WaitingTaskList
