import ToyMtFramework.WaitingTaskListMemory

/-! Over any number of rounds a `WaitingTaskList` hands out each node once, deletes the nodes it has made
and no others, and grows its array to the largest round, as long as the 32-bit index of a round has not
come round. -/
namespace ToyMtFramework.WaitingTaskList
open Transition

variable {ι ε : Type} [DecidableEq ι]

/-- In a round at most 2^32 - 1 calls are given a node, and `reset` is called between the rounds. -/
def Counted (m : Memory ι ε) : Action ι ε → Prop
  | .access k => m.list.call k = .create → m.list.handed.length < maxIndex
  | .reset _ => Settled m.list

structure Flagged (m : Memory ι ε) : Prop where
  count : m.list.handed.length ≤ maxIndex
  allocated : m.list.heapNodes = m.heapBefore + (m.list.handed.length - m.list.nodeCacheSize)
  marked : ∀ i < m.list.nodeCacheSize, m.fromCache (.cached i) = some true
  heap : ∀ i, (∃ c, (c,.heap i) ∈ m.list.handed) ↔ m.heapBefore ≤ i ∧ i < m.list.heapNodes
  unmarked : ∀ c i, (c,.heap i) ∈ m.list.handed → m.fromCache (.heap i) = some false

structure Deletes (m : Memory ι ε) : Prop where
  once : m.deleted.Nodup
  cached : ∀ i, .cached i ∉ m.deleted
  heap : ∀ i, .heap i ∈ m.deleted ↔ i < m.heapBefore ∨ Finished m.list (.heap i)

structure Accounted (m : Memory ι ε) : Prop where
  round : Round m.exception m.list
  closed : Closed m.list
  finishing : Finishing m.list
  flagged : Flagged m
  deletes : Deletes m
  past : ∀ u ∈ m.past, u.allocated = u.nodes - u.nodeCacheSize ∧ u.nodes ≤ m.list.nodeCacheSize

omit [DecidableEq ι] in
theorem Round.taken_nodup {e : Option ε} {s : State ι ε} (round : Round e s) : s.taken.Nodup := by
  obtain ⟨L,tracks⟩ := round.tracks
  exact tracks.placed.once

omit [DecidableEq ι] in
theorem Round.taken_handed {e : Option ε} {s : State ι ε} (round : Round e s) {n : NodeId}
    (taken : n ∈ s.taken) : ∃ c, (c,n) ∈ s.handed := by
  obtain ⟨L,tracks⟩ := round.tracks
  apply tracks.placed.handed n
  rcases (tracks.placed.taken n).mp taken with gone | ⟨k,releasing⟩
  · simp [gone]
  · simp [releasing]

omit [DecidableEq ι] in
theorem Round.fromCache {m : Memory ι ε} (round : Round m.exception m.list) (flagged : Flagged m) {c : ι}
    {n : NodeId} (owned : (c,n) ∈ m.list.handed) : m.fromCache n = some n.fromCache := by
  cases n with
  | cached i => exact flagged.marked i (round.allocation.cached c i owned).2
  | heap i => exact flagged.unmarked c i owned

theorem moves_handed {e : Option ε} {s t : State ι ε} {k : Option ι} (moves : Moves e s k t)
    (other : s.call k ≠ .create) : t.handed = s.handed ∧ t.nodeCacheSize = s.nodeCacheSize ∧
      t.heapNodes = s.heapNodes := by
  cases moves with
  | create c pc => exact absurd pc other
  | _ => exact ⟨rfl,rfl,rfl⟩

theorem moves_create {e : Option ε} {s t : State ι ε} {k : Option ι} (moves : Moves e s k t)
    (pc : s.call k = .create) : ∃ c, k = some c ∧ t = createNode s c := by
  cases moves with
  | create c _ => exact ⟨c,rfl,rfl⟩
  | _ => simp_all

theorem Flagged.create {m t : Memory ι ε} {c : ι} (flagged : Flagged m) (allocation : Allocation m.list)
    (below : m.list.handed.length < maxIndex) (pc : m.list.call (some c) = .create)
    (list : t.list = createNode m.list c) (flags : t.fromCache = m.flags (some c))
    (before : t.heapBefore = m.heapBefore) : Flagged t := by
  have index := allocation.index flagged.count
  have handed : t.list.handed = m.list.handed ++ [(c,m.list.place)] := by rw [list]; rfl
  have size : t.list.nodeCacheSize = m.list.nodeCacheSize := by rw [list]; rfl
  have length : t.list.handed.length = m.list.handed.length + 1 := by
    rw [handed,List.length_append,List.length_singleton]
  have member (d : ι) (n : NodeId) :
      (d,n) ∈ t.list.handed ↔ (d,n) ∈ m.list.handed ∨ d = c ∧ n = m.list.place := by
    rw [handed,List.mem_append,List.mem_singleton,Prod.mk.injEq]
  have allocated := flagged.allocated
  by_cases inside : m.list.lastAssignedCacheIndex < m.list.nodeCacheSize
  · have place : m.list.place = .cached m.list.lastAssignedCacheIndex := if_pos inside
    have nodes : t.list.heapNodes = m.list.heapNodes := by rw [list]; exact if_pos inside
    have heaps (d : ι) (i : Nat) : (d,.heap i) ∈ t.list.handed ↔ (d,.heap i) ∈ m.list.handed := by
      simp [member,place]
    simp only [Memory.flags,pc,if_pos inside] at flags
    constructor
    · omega
    · omega
    · rw [flags,size]
      exact flagged.marked
    · intro i
      rw [nodes,before]
      simp only [heaps]
      exact flagged.heap i
    · intro d i owned
      rw [flags]
      exact flagged.unmarked d i ((heaps d i).mp owned)
  · have place : m.list.place = .heap m.list.heapNodes := if_neg inside
    have nodes : t.list.heapNodes = m.list.heapNodes + 1 := by rw [list]; exact if_neg inside
    simp only [Memory.flags,pc,if_neg inside,place] at flags
    constructor
    · omega
    · omega
    · rw [flags,size]
      intro i small
      rw [Function.update_of_ne (by simp)]
      exact flagged.marked i small
    · intro i
      have numbered := flagged.heap i
      simp only [member,place,NodeId.heap.injEq,exists_or,numbered,exists_eq_left,nodes,before]
      omega
    · intro d i owned
      rw [flags]
      rcases (member d _).mp owned with old | ⟨_,new⟩
      · have other : i ≠ m.list.heapNodes := Nat.ne_of_lt ((flagged.heap i).mp ⟨d,old⟩).2
        rw [Function.update_of_ne (by simpa using other)]
        exact flagged.unmarked d i old
      · rw [new,place,Function.update_self]

theorem Flagged.access {m t : Memory ι ε} {k : Option ι} (flagged : Flagged m) (round : Round m.exception m.list)
    (counted : Counted m (.access k)) (moves : Moves m.exception m.list k t.list)
    (flags : t.fromCache = m.flags k) (before : t.heapBefore = m.heapBefore) : Flagged t := by
  by_cases pc : m.list.call k = .create
  · obtain ⟨c,rfl,list⟩ := moves_create moves pc
    exact flagged.create round.allocation (counted pc) pc list flags before
  · obtain ⟨handed,size,nodes⟩ := moves_handed moves pc
    have same : t.fromCache = m.fromCache := by
      rw [flags,Memory.flags]
      split
      · rename_i create
        exact absurd create pc
      · rfl
    obtain ⟨count,allocated,marked,heap,unmarked⟩ := flagged
    constructor <;> simp only [handed,size,nodes,same,before] <;> assumption

theorem Deletes.access {m t : Memory ι ε} {k : Option ι} (deletes : Deletes m) (flagged : Flagged m)
    (round : Round m.exception m.list) (finishing : Finishing m.list) (once : t.list.taken.Nodup)
    (moves : Moves m.exception m.list k t.list) (deleted : t.deleted = m.deleted ++ m.deletes k)
    (before : t.heapBefore = m.heapBefore) : Deletes t := by
  by_cases deleting : ∃ n next, m.list.call k = .delete n next
  · obtain ⟨n,next,pc⟩ := deleting
    have working : (m.list.call k).finishing = some n := by rw [pc]; rfl
    have taken := finishing.taken k n working
    obtain ⟨c,owned⟩ := round.taken_handed taken
    have flag := round.fromCache flagged owned
    have finished := finished_delete finishing moves pc
    simp only [Memory.deletes,pc,flag,Option.some.injEq] at deleted
    cases n with
    | cached i =>
      have same : t.deleted = m.deleted := by
        rw [deleted]
        exact List.append_nil _
      obtain ⟨once,cached,heap⟩ := deletes
      constructor
      · rwa [same]
      · rwa [same]
      · simpa [same,before,finished] using heap
    | heap i =>
      have grown : t.deleted = m.deleted ++ [.heap i] := by
        rw [deleted]
        rfl
      have fresh : .heap i ∉ m.deleted := by
        rw [deletes.heap]
        rintro (old | finished)
        · exact absurd ((flagged.heap i).mp ⟨c,owned⟩).1 (by omega)
        · exact finished.2 k working
      constructor
      · rw [grown,← List.concat_eq_append]
        exact deletes.once.concat fresh
      · simpa [grown] using deletes.cached
      · intro j
        rw [grown,List.mem_append,List.mem_singleton,deletes.heap,finished,before,or_assoc]
  · have other : ∀ n next, m.list.call k ≠ .delete n next := fun n next pc => deleting ⟨n,next,pc⟩
    have same : t.deleted = m.deleted := by
      rw [deleted,Memory.deletes]
      split
      · rename_i n next pc
        exact absurd pc (other n next)
      · exact List.append_nil _
    obtain ⟨_,cached,heap⟩ := deletes
    constructor
    · rwa [same]
    · rwa [same]
    · intro i
      rw [same,before,finished_iff moves other once]
      exact heap i

theorem Accounted.access {m t : Memory ι ε} {k : Option ι} (accounted : Accounted m)
    (counted : Counted m (.access k)) (taken : access m k = some t) : Accounted t := by
  obtain ⟨list,moved,rfl⟩ := Option.map_eq_some_iff.mp taken
  obtain ⟨round,closed,finishing,flagged,deletes,past⟩ := accounted
  have moves := next_moves moved
  have fresh : DrawsFreshIndex m.list k := fun _ => Or.inr flagged.count
  have after := round.next fresh moved
  have once := after.taken_nodup
  refine ⟨after,closed.next round.allocation moves,finishing.next once moves,?_,?_,?_⟩
  · exact flagged.access round counted moves rfl rfl
  · exact deletes.access flagged round finishing once moves rfl rfl
  · intro u member
    have size : list.nodeCacheSize = m.list.nodeCacheSize := by
      by_cases pc : m.list.call k = .create
      · obtain ⟨c,_,rfl⟩ := moves_create moves pc
        rfl
      · exact (moves_handed moves pc).2.1
    rw [size]
    exact past u member

theorem Accounted.finished {m : Memory ι ε} (accounted : Accounted m) (settled : Settled m.list) {c : ι}
    {n : NodeId} (owned : (c,n) ∈ m.list.handed) : Finished m.list n := by
  have worked := accounted.round.delivers.worked settled c n owned
  refine ⟨List.one_le_count_iff.mp (Nat.le_of_eq worked.symm),fun k => ?_⟩
  have idle : m.list.call k = .ready ∨ m.list.call k = .returned := by
    cases k with
    | none => exact Or.inr settled.1
    | some c => exact settled.2 c
  rcases idle with pc | pc <;> simp [pc,Pc.finishing]

theorem Accounted.deleted_iff {m : Memory ι ε} (accounted : Accounted m) (settled : Settled m.list) (i : Nat) :
    .heap i ∈ m.deleted ↔ i < m.list.heapNodes := by
  have allocated := accounted.flagged.allocated
  rw [accounted.deletes.heap]
  constructor
  · rintro (old | finished)
    · omega
    · exact ((accounted.flagged.heap i).mp (accounted.round.taken_handed finished.1)).2
  · intro below
    by_cases old : i < m.heapBefore
    · exact Or.inl old
    · obtain ⟨c,owned⟩ := (accounted.flagged.heap i).mpr ⟨by omega,below⟩
      exact Or.inr (accounted.finished settled owned)

/-- The assertion holds and the array is large enough for the nodes of the round. -/
theorem Accounted.resets {m : Memory ι ε} (accounted : Accounted m) (settled : Settled m.list) :
    ∃ t, reset m = some t ∧ t.list.waiting = true ∧ t.list.head = none ∧ t.list.lastAssignedCacheIndex = 0 ∧
      t.list.nodeCacheSize = max m.list.nodeCacheSize m.list.handed.length ∧
      t.list.heapNodes = m.list.heapNodes ∧ t.deleted = m.deleted ∧ t.past = m.past ∧
      ∀ i < t.list.nodeCacheSize, t.fromCache (.cached i) = some true := by
  have head := accounted.round.delivers.empty settled
  have index := accounted.round.allocation.index accounted.flagged.count
  by_cases larger : m.list.handed.length > m.list.nodeCacheSize
  · simp only [reset,head,index,if_true,if_pos larger]
    exact ⟨_,rfl,rfl,rfl,rfl,(Nat.max_eq_right (Nat.le_of_lt larger)).symm,rfl,rfl,rfl,fun i => markCached_cached _⟩
  · simp only [reset,head,index,if_true,if_neg larger]
    have room := Nat.le_of_not_lt larger
    exact ⟨_,rfl,rfl,rfl,rfl,(Nat.max_eq_left room).symm,rfl,rfl,rfl,accounted.flagged.marked⟩

theorem Accounted.reset {m t : Memory ι ε} {e : Option ε} (accounted : Accounted m) (settled : Settled m.list)
    (taken : step m (.reset e) = some t) : Accounted t := by
  obtain ⟨r,ran,waiting,head,index,size,nodes,deleted,past,marked⟩ := accounted.resets settled
  rw [step,ran] at taken
  obtain rfl := Option.some.inj taken
  have all := accounted.deleted_iff settled
  have allocated := accounted.flagged.allocated
  refine ⟨?_,?_,?_,?_,?_,?_⟩
  · exact begun_round e waiting head index (fun _ => rfl) rfl rfl rfl
  · refine ⟨fun n top => ?_,by simp [Memory.beginRound,Pc.refers],by simp [Memory.beginRound,Written]⟩
    rw [show (r.beginRound m.usage e).list.head = none from head] at top
    cases top
  · constructor <;> simp [Memory.beginRound,Pc.finishing]
  · constructor
    · exact Nat.zero_le _
    · simp [Memory.beginRound]
    · exact marked
    · simp [Memory.beginRound]
    · simp [Memory.beginRound]
  · constructor
    · simpa [Memory.beginRound,deleted] using accounted.deletes.once
    · simpa [Memory.beginRound,deleted] using accounted.deletes.cached
    · simp [Memory.beginRound,deleted,nodes,all,Finished]
  · intro u member
    simp only [Memory.beginRound,past,List.mem_append,List.mem_singleton] at member ⊢
    rw [size]
    rcases member with old | rfl
    · have before := accounted.past u old
      exact ⟨before.1,Nat.le_trans before.2 (Nat.le_max_left _ _)⟩
    · refine ⟨?_,Nat.le_max_right _ _⟩
      simp only [Memory.usage]
      omega

theorem Accounted.step {m t : Memory ι ε} {a : Action ι ε} (accounted : Accounted m) (counted : Counted m a)
    (taken : step m a = some t) : Accounted t := by
  cases a with
  | access k => exact accounted.access counted taken
  | reset e => exact accounted.reset counted taken

omit [DecidableEq ι] in
theorem construct_accounted (e : Option ε) (iInitialSize : Nat) : Accounted (construct ι e iInitialSize) := by
  refine ⟨initial_round e iInitialSize,?_,?_,?_,?_,?_⟩
  · constructor <;> simp [construct,initial,Pc.refers,Written]
  · constructor <;> simp [construct,initial,Pc.finishing]
  · constructor
    · exact Nat.zero_le _
    · simp [construct,initial]
    · exact fun i inside => markCached_cached _ inside
    · simp [construct,initial]
    · simp [construct,initial]
  · constructor <;> simp [construct,initial,Finished]
  · simp [construct]

/-- What a list owes the nodes that it hands out. -/
structure NodesAccounted (m : Memory ι ε) : Prop where
  apart : ∀ c d n, (c,n) ∈ m.list.handed → (d,n) ∈ m.list.handed → c = d
  unused : ∀ c, m.list.call (some c) = .create → ¬InUse m.list m.list.place
  deletedOnce : ∀ n, m.deleted.count n ≤ 1
  deletedHeap : ∀ i, .cached i ∉ m.deleted
  deletedAll : Settled m.list → ∀ i, .heap i ∈ m.deleted ↔ i < m.list.heapNodes
  allocated : m.list.heapNodes = m.heapBefore + (m.list.handed.length - m.list.nodeCacheSize)
  marked : ∀ i < m.list.nodeCacheSize, m.fromCache (.cached i) = some true
  past : ∀ u ∈ m.past, u.allocated = u.nodes - u.nodeCacheSize ∧ u.nodes ≤ m.list.nodeCacheSize
  resets : Settled m.list → (reset m).isSome

theorem Accounted.nodes {m : Memory ι ε} (accounted : Accounted m) : NodesAccounted m := by
  have allocation := accounted.round.allocation
  constructor
  · exact fun c d n first second => (allocation.owner c n d n first second).mpr rfl
  · intro c pc use
    obtain ⟨d,owned,_⟩ := accounted.closed.inUse use
    exact allocation.place_fresh (Or.inr accounted.flagged.count) d owned
  · exact fun n => List.nodup_iff_count_le_one.mp accounted.deletes.once n
  · exact accounted.deletes.cached
  · exact accounted.deleted_iff
  · exact accounted.flagged.allocated
  · exact accounted.flagged.marked
  · exact accounted.past
  · intro settled
    obtain ⟨t,ran,_⟩ := accounted.resets settled
    rw [ran]
    rfl

/-- In all rounds together. -/
theorem nodes_accounted (e : Option ε) (iInitialSize : Nat) (m : Memory ι ε)
    (run : Reaches step Counted (construct ι e iInitialSize) m) : NodesAccounted m :=
  (run.invariant (fun _ _ _ accounted counted taken => accounted.step counted taken)
    (construct_accounted e iInitialSize)).nodes

instance {n : Nat} (s : State (Fin n) ε) : Decidable (Settled s) :=
  inferInstanceAs (Decidable (s.call none = .returned ∧
    ∀ c, s.call (some c) = .ready ∨ s.call (some c) = .returned))

instance {n : Nat} (m : Memory (Fin n) ε) : ∀ a, Decidable (Counted m a)
  | .access k => inferInstanceAs (Decidable (m.list.call k = .create → m.list.handed.length < maxIndex))
  | .reset _ => inferInstanceAs (Decidable (Settled m.list))

/-- Two rounds of two calls at once: the first needs a node from `new`, the second finds both in the array. -/
def twoRounds : List (Action (Fin 2) Unit) :=
  twoCalls.map .access ++ .reset none :: twoCalls.map .access

theorem nodes_accounted_twoRounds : ∃ m, execute step (construct (Fin 2) (some ()) 1) twoRounds = some m ∧
    m.past = [⟨1,2,1⟩] ∧ m.deleted = [.heap 0] ∧ m.list.taken = [.cached 1,.cached 0] ∧ NodesAccounted m := by
  have ends : (execute step (construct (Fin 2) (some ()) 1) twoRounds).map
      (fun m => (m.past,m.deleted,m.list.taken)) = some ([⟨1,2,1⟩],[.heap 0],[.cached 1,.cached 0]) := by
    decide +kernel
  obtain ⟨m,ran,records⟩ := Option.map_eq_some_iff.mp ends
  simp only [Prod.mk.injEq] at records
  obtain ⟨past,deleted,taken⟩ := records
  refine ⟨m,ran,past,deleted,taken,nodes_accounted (some ()) 1 m ?_⟩
  exact execute_reaches twoRounds (by decide +kernel) ran

section Wrap

def Between (m : Memory ι ε) : Action ι ε → Prop
  | .access _ => True
  | .reset _ => Settled m.list

theorem access_reaches {e : Option ε} {s t : State ι ε} (run : Reachable (next e) s t) {m : Memory ι ε}
    (exception : m.exception = e) (list : m.list = s) :
    ∃ u, Reaches step Between m u ∧ u.exception = e ∧ u.list = t := by
  induction run with
  | refl => exact ⟨m,Reaches.refl m,exception,list⟩
  | @tail s t _ taken ih =>
    obtain ⟨u,run,same,rfl⟩ := ih
    obtain ⟨k,_,moved⟩ := taken
    rw [← same] at moved
    refine ⟨{u with list := t, fromCache := u.flags k, deleted := u.deleted ++ u.deletes k},?_,same,rfl⟩
    refine run.step (.access k) trivial ?_
    simp only [step,access,moved,Option.map_some]

theorem moves_call {e : Option ε} {s t : State ι ε} {k j : Option ι} (moves : Moves e s k t) (other : j ≠ k) :
    t.call j = s.call j := by
  cases moves with
  | spin k n pc unset => rfl
  | _ => exact Function.update_of_ne other _ _

omit [DecidableEq ι] in
theorem owning_continueAt (next : Option NodeId) : (continueAt next : Pc ι).owning = none := by
  cases next <;> rfl

theorem owning_handed {e : Option ε} {s t : State ι ε} {k : Option ι} (moves : Moves e s k t)
    (owned : ∀ c n, (s.call (some c)).owning = some n → (c,n) ∈ s.handed) :
    ∀ c n, (t.call (some c)).owning = some n → (c,n) ∈ t.handed := by
  intro d m owning
  by_cases pc : s.call k = .create
  · obtain ⟨c,rfl,rfl⟩ := moves_create moves pc
    by_cases self : some d = some c
    · obtain rfl := Option.some.inj self
      rw [createNode,goto_call,Function.update_self] at owning
      obtain rfl := Option.some.inj owning
      exact List.mem_append_right _ List.mem_cons_self
    · rw [createNode,goto_call,Function.update_of_ne self] at owning
      exact List.mem_append_left _ (owned d m owning)
  · rw [(moves_handed moves pc).1]
    by_cases self : some d = k
    · subst k
      cases moves with
      | create c at_create => exact absurd at_create pc
      | initialise c n at_initialise =>
        obtain rfl : n = m := by simpa [Pc.owning] using owning
        exact owned d n (by rw [at_initialise]; rfl)
      | ready c _ | link c n old _ | recheck c _ =>
        rw [goto_call,Function.update_self] at owning
        split at owning <;> simp [Pc.owning] at owning
      | take _ _ | delete _ n next _ =>
        rw [goto_call,Function.update_self] at owning
        simp [owning_continueAt] at owning
      | spin _ n _ _ => exact owned d m owning
      | _ => simp [Pc.owning] at owning
    · rw [moves_call moves self] at owning
      exact owned d m owning

/-- After 2^32 calls the index is back at 0, and a call is given the node of another one that has still
to push it. -/
theorem index_wrap_hands_out_twice :
    ¬∀ m, Reaches step Between (construct Nat (none : Option Unit) 2) m → NodesAccounted m := by
  intro all
  obtain ⟨s,run,lagging⟩ := lagging_reachable maxIndex (Nat.le_refl _)
  have owned : ∀ c n, (s.call (some c)).owning = some n → (c,n) ∈ s.handed :=
    run.invariant (fun _ _ _ owned _ taken => owning_handed (next_moves taken) owned) (by simp [initial,Pc.owning])
  have first := owned 0 (.cached 0) (by rw [lagging.lagging]; rfl)
  have place : s.place = .cached 0 := by simp [State.place,lagging.index,lagging.size]
  have pc := lagging.entered (maxIndex + 1) (by omega) (Nat.le_refl _)
  have drawn : next none s (some (maxIndex + 1)) = some (createNode s (maxIndex + 1)) := by
    rw [next,pc]
    rfl
  obtain ⟨m,run,_,list⟩ := access_reaches (run.step (some (maxIndex + 1)) trivial drawn)
    (m := construct Nat none 2) rfl rfl
  have apart := (all m run).apart 0 (maxIndex + 1) (.cached 0)
  rw [list] at apart
  have same := apart (List.mem_append_left _ first) (List.mem_append_right _ (by simp [place]))
  simp [maxIndex] at same

end Wrap
end ToyMtFramework.WaitingTaskList
