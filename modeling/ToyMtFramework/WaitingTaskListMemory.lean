import ToyMtFramework.WaitingTaskListRound

/-! The nodes of a `WaitingTaskList` from one `reset` to the next. Each node stores whether it belongs to
the array `m_nodeCache`, and `announce` deletes a node by what is stored. A round in between is a round
as before. -/
namespace ToyMtFramework.WaitingTaskList
open Transition

variable {ι ε : Type} [DecidableEq ι]

structure Usage where
  nodeCacheSize : Nat
  nodes : Nat
  allocated : Nat
  deriving DecidableEq

/-- A list with the flags `m_fromCache` of its nodes, which are unset in a new node. `exception` is the
argument that `doneWaiting` is given in this round. -/
structure Memory (ι ε : Type) where
  exception : Option ε
  list : State ι ε
  fromCache : NodeId → Option Bool
  /-- The nodes that were deleted in all rounds, the nodes made by `new` in the earlier ones, and
  what those have used. -/
  deleted : List NodeId
  heapBefore : Nat
  past : List Usage

def markCached (nodeCacheSize : Nat) (fromCache : NodeId → Option Bool) : NodeId → Option Bool :=
  (List.range nodeCacheSize).foldl (fun flags i => Function.update flags (.cached i) (some true)) fromCache

def construct (ι : Type) {ε : Type} (e : Option ε) (iInitialSize : Nat) : Memory ι ε where
  exception := e
  list := initial ι ε iInitialSize
  fromCache := markCached iInitialSize fun _ => none
  deleted := []
  heapBefore := 0
  past := []

def Memory.flags (m : Memory ι ε) (k : Option ι) : NodeId → Option Bool :=
  match m.list.call k with
  | .create =>
    if m.list.lastAssignedCacheIndex < m.list.nodeCacheSize then m.fromCache
    else Function.update m.fromCache m.list.place (some false)
  | _ => m.fromCache

def Memory.deletes (m : Memory ι ε) (k : Option ι) : List NodeId :=
  match m.list.call k with
  | .delete n _ => if m.fromCache n = some true then [] else [n]
  | _ => []

def access (m : Memory ι ε) (k : Option ι) : Option (Memory ι ε) :=
  (next m.exception m.list k).map fun list =>
    {m with list := list, fromCache := m.flags k, deleted := m.deleted ++ m.deletes k}

/-- The array is deleted and a new one allocated. -/
def Memory.expand (m : Memory ι ε) (nSeenTasks : Nat) : Memory ι ε :=
  {m with
    list := {m.list with
      nodeCacheSize := nSeenTasks
      node := fun n => if n.fromCache then ⟨none,none⟩ else m.list.node n}
    fromCache := markCached nSeenTasks fun n => if n.fromCache then none else m.fromCache n}

/-- It stops at the assertion if there is a head. -/
def reset (m : Memory ι ε) : Option (Memory ι ε) :=
  let nSeenTasks := m.list.lastAssignedCacheIndex
  let cleared := {m with
    list := {m.list with exceptionPtr := none, waiting := true, lastAssignedCacheIndex := 0}}
  if m.list.head = none then
    some (if nSeenTasks > m.list.nodeCacheSize then cleared.expand nSeenTasks else cleared)
  else none

def Memory.usage (m : Memory ι ε) : Usage where
  nodeCacheSize := m.list.nodeCacheSize
  nodes := m.list.handed.length
  allocated := m.list.heapNodes - m.heapBefore

/-- New calls can be made, the next `doneWaiting` with `e`. -/
def Memory.beginRound (m : Memory ι ε) (usage : Usage) (e : Option ε) : Memory ι ε :=
  {m with
    exception := e
    list := {m.list with call := fun _ => .ready, handed := [], taken := [], deleted := [], log := []}
    heapBefore := m.list.heapNodes
    past := m.past ++ [usage]}

inductive Action (ι ε : Type) where
  | access (k : Option ι)
  | reset (e : Option ε)

def step (m : Memory ι ε) : Action ι ε → Option (Memory ι ε)
  | .access k => access m k
  | .reset e => (reset m).map fun t => t.beginRound m.usage e

omit [DecidableEq ι] in
theorem markCached_cached {nodeCacheSize i : Nat} (fromCache : NodeId → Option Bool) (inside : i < nodeCacheSize) :
    markCached nodeCacheSize fromCache (.cached i) = some true := by
  induction nodeCacheSize with
  | zero => cases inside
  | succ size ih =>
    rw [markCached,List.range_succ,List.foldl_append]
    by_cases last : i = size
    · subst last
      exact Function.update_self ..
    · change Function.update (markCached size fromCache) _ _ _ = _
      rw [Function.update_of_ne (by simpa using last)]
      exact ih (by omega)

/-- The nodes that the local variables of a call refer to and whose contents have been written. -/
def Pc.refers : Pc ι → List NodeId
  | .push n | .follow n => [n]
  | .link n next | .fail n next | .release n next _ | .delete n next => n :: next.toList
  | _ => []

/-- The nodes that `m_head` and the calls lead to: those that are linked or being announced. -/
inductive InUse (s : State ι ε) : NodeId → Prop
  | head {n : NodeId} (head : s.head = some n) : InUse s n
  | call {k : Option ι} {n : NodeId} (refers : n ∈ (s.call k).refers) : InUse s n
  | next {n m : NodeId} (use : InUse s n) (link : (s.node n).nextNode = some m) : InUse s m

def Written (s : State ι ε) (n : NodeId) : Prop :=
  ∃ c, (c,n) ∈ s.handed ∧ s.call (some c) ≠ .initialise n

/-- No pointer leads out of the nodes of this round. -/
structure Closed (s : State ι ε) : Prop where
  head : ∀ n, s.head = some n → Written s n
  calls : ∀ k n, n ∈ (s.call k).refers → Written s n
  links : ∀ n m, Written s n → (s.node n).nextNode = some m → Written s m

omit [DecidableEq ι] in
theorem Closed.inUse {s : State ι ε} (closed : Closed s) {n : NodeId} (use : InUse s n) : Written s n := by
  induction use with
  | head head => exact closed.head _ head
  | call refers => exact closed.calls _ _ refers
  | next use link ih => exact closed.links _ _ ih link

/-- Writing a node is the only access that adds one to those written. -/
theorem written_iff {s t : State ι ε} {k : Option ι} {pc : Pc ι} (call : t.call = Function.update s.call k pc)
    (handed : t.handed = s.handed) (before : ∀ n, s.call k ≠ .initialise n) (after : ∀ n, pc ≠ .initialise n)
    (n : NodeId) : Written t n ↔ Written s n := by
  refine exists_congr fun c => ?_
  rw [handed,call]
  by_cases self : some c = k
  · subst k
    simp [before n,after n]
  · rw [Function.update_of_ne self]

theorem Closed.move {s t : State ι ε} {k : Option ι} {pc : Pc ι} (closed : Closed s)
    (call : t.call = Function.update s.call k pc) (written : ∀ n, Written t n ↔ Written s n)
    (head : ∀ n, t.head = some n → Written s n) (refers : ∀ n ∈ pc.refers, Written s n)
    (links : ∀ n m, Written s n → (t.node n).nextNode = some m → Written s m) : Closed t := by
  simp only [← written] at head refers links
  refine ⟨head,fun j n member => ?_,links⟩
  rw [call] at member
  by_cases self : j = k
  · rw [self,Function.update_self] at member
    exact refers n member
  · rw [Function.update_of_ne self] at member
    exact (written n).mpr (closed.calls j n member)

omit [DecidableEq ι] in
theorem refers_continueAt (next : Option NodeId) : (continueAt next : Pc ι).refers = next.toList := by
  cases next <;> rfl

theorem Closed.create {s : State ι ε} {c : ι} (closed : Closed s) (allocation : Allocation s)
    (pc : s.call (some c) = .create) : Closed (createNode s c) := by
  have unhanded : ∀ n, (c,n) ∉ s.handed := by simpa [pc,Registered] using allocation.registered c
  refine closed.move rfl (fun n => ?_) closed.head (by simp [Pc.refers]) closed.links
  constructor
  · rintro ⟨d,owned,past⟩
    rcases List.mem_append.mp owned with old | new
    · refine ⟨d,old,?_⟩
      have other : some d ≠ some c := by
        rintro ⟨⟩
        exact unhanded n old
      rwa [createNode,goto_call,Function.update_of_ne other] at past
    · obtain ⟨rfl,rfl⟩ := Prod.mk.inj (List.mem_singleton.mp new)
      simp [createNode] at past
  · rintro ⟨d,owned,past⟩
    have other : some d ≠ some c := by
      rintro ⟨⟩
      exact unhanded n owned
    refine ⟨d,List.mem_append_left _ owned,?_⟩
    rwa [createNode,goto_call,Function.update_of_ne other]

theorem Closed.initialise {s : State ι ε} {c : ι} {n : NodeId} (closed : Closed s) (allocation : Allocation s)
    (pc : s.call (some c) = .initialise n) :
    Closed ((s.setNode n ⟨some c,some n⟩).goto (some c) (.push n)) := by
  have owned : (c,n) ∈ s.handed := by simpa [pc,Registered] using allocation.registered c
  have now : Written ((s.setNode n ⟨some c,some n⟩).goto (some c) (.push n)) n := ⟨c,owned,by simp⟩
  have kept {m : NodeId} (written : Written s m) :
      Written ((s.setNode n ⟨some c,some n⟩).goto (some c) (.push n)) m := by
    obtain ⟨d,owned,past⟩ := written
    refine ⟨d,owned,?_⟩
    by_cases self : some d = some c
    · rw [self,goto_call,Function.update_self]
      simp
    · rwa [goto_call,Function.update_of_ne self]
  have back {m : NodeId} (written : Written ((s.setNode n ⟨some c,some n⟩).goto (some c) (.push n)) m)
      (other : m ≠ n) : Written s m := by
    obtain ⟨d,member,past⟩ := written
    refine ⟨d,member,?_⟩
    by_cases self : d = c
    · subst d
      rw [pc]
      simpa using Ne.symm other
    · rwa [goto_call,Function.update_of_ne (by simpa using self)] at past
  constructor
  · exact fun m top => kept (closed.head m top)
  · intro j m member
    by_cases self : j = some c
    · subst j
      obtain rfl : m = n := by simpa [Pc.refers] using member
      exact now
    · rw [goto_call,Function.update_of_ne self] at member
      exact kept (closed.calls j m member)
  · intro m next written link
    by_cases same : m = n
    · subst m
      obtain rfl : n = next := by simpa [State.setNode] using link
      exact now
    · simp only [goto_node,State.setNode,Function.update_of_ne same] at link
      exact kept (closed.links m next (back written same) link)

theorem Closed.next {e : Option ε} {s t : State ι ε} {k : Option ι} (closed : Closed s)
    (allocation : Allocation s) (moves : Moves e s k t) : Closed t := by
  have calls {k : Option ι} {pc : Pc ι} (at_pc : s.call k = pc) : ∀ n ∈ pc.refers, Written s n := by
    rw [← at_pc]
    exact closed.calls k
  cases moves with
  | create c pc => exact closed.create allocation pc
  | initialise c n pc => exact closed.initialise allocation pc
  | spin k n pc => exact closed
  | push c n pc =>
    have written := calls pc n List.mem_cons_self
    refine closed.move rfl (written_iff rfl rfl (by simp [pc]) (by simp)) ?_ ?_ closed.links
    · rintro m ⟨⟩
      exact written
    · intro m member
      rcases List.mem_cons.mp member with rfl | below
      · exact written
      · exact closed.head m (Option.mem_toList.mp below)
  | link c n old pc =>
    refine closed.move rfl (written_iff rfl rfl (by simp [pc]) ?_) closed.head ?_ ?_
    · split <;> simp
    · split <;> simp [Pc.refers]
    · intro m next written link
      by_cases same : m = n
      · subst m
        simp only [goto_node,State.setNode,Function.update_self] at link
        exact calls pc next (by simp [Pc.refers,link])
      · simp only [goto_node,State.setNode,Function.update_of_ne same] at link
        exact closed.links m next written link
  | take k pc =>
    refine closed.move rfl (written_iff rfl rfl (by simp [pc]) ?_) (by simp) ?_ closed.links
    · cases s.head <;> simp [continueAt]
    · rw [refers_continueAt]
      exact fun m member => closed.head m (Option.mem_toList.mp member)
  | follow k n pc =>
    have written := calls pc n List.mem_cons_self
    refine closed.move rfl (written_iff rfl rfl (by simp [pc]) (by simp)) closed.head ?_ closed.links
    intro m member
    rcases List.mem_cons.mp member with rfl | next
    · exact written
    · exact closed.links n m written (Option.mem_toList.mp next)
  | delete k n next pc =>
    refine closed.move rfl (written_iff rfl rfl (by simp [pc]) ?_) closed.head ?_ closed.links
    · cases next <;> simp [continueAt]
    · rw [refers_continueAt]
      exact fun m member => calls pc m (List.mem_cons_of_mem _ member)
  | fail k n next pc | release k n next task pc =>
    exact closed.move rfl (written_iff rfl rfl (by simp [pc]) (by simp)) closed.head
      (by simpa [Pc.refers] using calls pc) closed.links
  | ready c pc | recheck c pc =>
    refine closed.move rfl (written_iff rfl rfl (by simp [pc]) ?_) closed.head ?_ closed.links
    · split <;> simp
    · split <;> simp [Pc.refers]
  | late c pc | lateRelease c pc | setException pc | clearWaiting pc =>
    exact closed.move rfl (written_iff rfl rfl (by simp [pc]) (by simp)) closed.head (by simp [Pc.refers])
      closed.links

/-- The node that a call has taken and not finished with. -/
def Pc.finishing : Pc ι → Option NodeId
  | .release n _ _ | .delete n _ => some n
  | _ => none

/-- The nodes taken that no call is working on any more are those `announce` has finished with. -/
structure Finishing (s : State ι ε) : Prop where
  taken : ∀ k n, (s.call k).finishing = some n → n ∈ s.taken
  one : ∀ j k n, (s.call j).finishing = some n → (s.call k).finishing = some n → j = k

def Finished (s : State ι ε) (n : NodeId) : Prop :=
  n ∈ s.taken ∧ ∀ k, (s.call k).finishing ≠ some n

omit [DecidableEq ι] in
theorem finishing_continueAt (next : Option NodeId) : (continueAt next : Pc ι).finishing = none := by
  cases next <;> rfl

theorem finishing_cases {e : Option ε} {s t : State ι ε} {k : Option ι} (moves : Moves e s k t) :
    (t.taken = s.taken ∧ (∀ j, (t.call j).finishing = (s.call j).finishing) ∧
      ∀ n next, s.call k ≠ .delete n next) ∨
    (∃ n next, s.call k = .fail n next ∧ t.taken = s.taken ++ [n] ∧
      t.call = Function.update s.call k (.release n next (s.node n).task)) ∨
    ∃ n next, s.call k = .delete n next ∧ t.taken = s.taken ∧
      t.call = Function.update s.call k (continueAt next) := by
  cases moves with
  | fail k n next pc => exact Or.inr (Or.inl ⟨n,next,pc,rfl,rfl⟩)
  | delete k n next pc => exact Or.inr (Or.inr ⟨n,next,pc,rfl,rfl⟩)
  | spin k n pc => exact Or.inl ⟨rfl,fun _ => rfl,by simp [pc]⟩
  | ready c pc | link c n old pc | recheck c pc =>
    refine Or.inl ⟨rfl,observe Pc.finishing rfl ?_,by simp [pc]⟩
    rw [pc]
    split <;> rfl
  | take k pc =>
    refine Or.inl ⟨rfl,observe Pc.finishing rfl ?_,by simp [pc]⟩
    rw [pc,finishing_continueAt]
    rfl
  | late c pc | lateRelease c pc | create c pc | initialise c n pc | push c n pc | setException pc
  | clearWaiting pc | follow k n pc | release k n next task pc =>
    refine Or.inl ⟨rfl,observe Pc.finishing rfl ?_,by simp [pc]⟩
    rw [pc]
    rfl

theorem Finishing.next {e : Option ε} {s t : State ι ε} {k : Option ι} (finishing : Finishing s)
    (once : t.taken.Nodup) (moves : Moves e s k t) : Finishing t := by
  rcases finishing_cases moves with ⟨taken,same,_⟩ | ⟨n,next,pc,taken,call⟩ | ⟨n,next,pc,taken,call⟩
  · constructor
    · rw [taken]
      exact fun j n working => finishing.taken j n ((same j).symm.trans working)
    · exact fun i j n first second =>
        finishing.one i j n ((same i).symm.trans first) ((same j).symm.trans second)
  · have fresh : n ∉ s.taken := by
      rw [taken,List.nodup_append] at once
      exact fun member => once.2.2 n member n List.mem_cons_self rfl
    have others {j : Option ι} {m : NodeId} (working : (t.call j).finishing = some m) :
        j = k ∧ m = n ∨ (s.call j).finishing = some m := by
      rw [call] at working
      by_cases self : j = k
      · rw [self,Function.update_self] at working
        exact Or.inl ⟨self,(Option.some.inj working).symm⟩
      · rw [Function.update_of_ne self] at working
        exact Or.inr working
    constructor
    · intro j m working
      rw [taken]
      rcases others working with ⟨_,rfl⟩ | old
      · simp
      · exact List.mem_append_left _ (finishing.taken j m old)
    · intro i j m first second
      rcases others first with ⟨rfl,rfl⟩ | first <;> rcases others second with ⟨rfl,same⟩ | second
      · rfl
      · exact absurd (finishing.taken j _ second) fresh
      · subst same
        exact absurd (finishing.taken i _ first) fresh
      · exact finishing.one i j m first second
  · have others {j : Option ι} {m : NodeId} (working : (t.call j).finishing = some m) :
        (s.call j).finishing = some m := by
      rw [call] at working
      by_cases self : j = k
      · rw [self,Function.update_self,finishing_continueAt] at working
        cases working
      · rwa [Function.update_of_ne self] at working
    constructor
    · rw [taken]
      exact fun j m working => finishing.taken j m (others working)
    · exact fun i j m first second => finishing.one i j m (others first) (others second)

theorem finished_iff {e : Option ε} {s t : State ι ε} {k : Option ι} (moves : Moves e s k t)
    (other : ∀ n next, s.call k ≠ .delete n next) (once : t.taken.Nodup) (m : NodeId) :
    Finished t m ↔ Finished s m := by
  rcases finishing_cases moves with ⟨taken,same,_⟩ | ⟨n,next,pc,taken,call⟩ | ⟨n,next,pc,_⟩
  · simp only [Finished,taken,same]
  · have fresh : n ∉ s.taken := by
      rw [taken,List.nodup_append] at once
      exact fun member => once.2.2 n member n List.mem_cons_self rfl
    by_cases same : m = n
    · subst m
      refine iff_of_false (fun finished => finished.2 k ?_) fun finished => fresh finished.1
      rw [call,Function.update_self]
      rfl
    · have working (j : Option ι) : (t.call j).finishing = some m ↔ (s.call j).finishing = some m := by
        rw [call]
        by_cases self : j = k
        · subst j
          rw [Function.update_self,pc]
          simpa [Pc.finishing] using Ne.symm same
        · rw [Function.update_of_ne self]
      simp [Finished,taken,same,working]
  · exact absurd pc (other n next)

theorem finished_delete {e : Option ε} {s t : State ι ε} {k : Option ι} {n : NodeId} {next : Option NodeId}
    (finishing : Finishing s) (moves : Moves e s k t) (pc : s.call k = .delete n next) (m : NodeId) :
    Finished t m ↔ Finished s m ∨ m = n := by
  have working : (s.call k).finishing = some n := by rw [pc]; rfl
  rcases finishing_cases moves with ⟨_,_,other⟩ | ⟨n',next',pc',_⟩ | ⟨n',next',pc',taken,call⟩
  · exact absurd pc (other n next)
  · rw [pc] at pc'
    cases pc'
  · rw [pc] at pc'
    cases pc'
    have after (j : Option ι) : (t.call j).finishing = some m ↔ j ≠ k ∧ (s.call j).finishing = some m := by
      rw [call]
      by_cases self : j = k
      · simp [self,finishing_continueAt]
      · simp [self]
    by_cases same : m = n
    · subst m
      refine iff_of_true ⟨?_,fun j busy => ?_⟩ (Or.inr rfl)
      · rw [taken]
        exact finishing.taken k n working
      · exact ((after j).mp busy).1 (finishing.one j k n ((after j).mp busy).2 working)
    · have still (j : Option ι) : (t.call j).finishing = some m ↔ (s.call j).finishing = some m := by
        rw [after,and_iff_right_iff_imp]
        rintro busy rfl
        exact same (Option.some.inj (busy.symm.trans working))
      simp only [Finished,taken,ne_eq,still,same,or_false]

end ToyMtFramework.WaitingTaskList
