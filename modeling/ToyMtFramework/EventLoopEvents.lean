import ToyMtFramework.EventLoopOrder

/-! Which events the streams process. All streams count with the source, which accepts the first
events and refuses each stream once; no stream is refused before the source has given all it has. -/
namespace ToyMtFramework.EventLoop
open Activities Transition
open SerialTaskQueue (Framework)

def Entry.acceptedIndex : Entry → Option Nat
  | .accepted n => some n
  | _ => none

def accepted (log : List (Nat × Entry)) : List Nat :=
  log.filterMap fun x => x.2.acceptedIndex

def refusedStreams (log : List (Nat × Entry)) : List Nat :=
  (log.filter fun x => x.2 = .refused).map Prod.fst

theorem accepted_append (log : List (Nat × Entry)) (i : Nat) (e : Entry) :
    accepted (log ++ [(i,e)]) = accepted log ++ e.acceptedIndex.toList := by
  cases e <;> simp [accepted,Entry.acceptedIndex]

theorem refusedStreams_append (log : List (Nat × Entry)) (i : Nat) (e : Entry) :
    refusedStreams (log ++ [(i,e)]) = refusedStreams log ++ if e = .refused then [i] else [] := by
  by_cases same : e = .refused <;> simp [refusedStreams,same]

structure Counted (c : Config) (sh : Shared) : Prop where
  total : sh.seenEvents = (accepted sh.log).length + (refusedStreams sh.log).length
  indices : accepted sh.log = List.range (min sh.seenEvents c.nEvents)

theorem count_refusedStreams (log : List (Nat × Entry)) (i : Nat) :
    (refusedStreams log).count i = refusals log i := by
  induction log with
  | nil => rfl
  | cons x log ih =>
    obtain ⟨j,e⟩ := x
    unfold refusals at ih ⊢
    rw [List.count_cons,← ih]
    by_cases same : e = .refused
    · subst same
      by_cases own : j = i <;> simp [refusedStreams,own]
    · simp [refusedStreams,same]

theorem length_le_of_bounded {l : List Nat} {n : Nat} (distinct : l.Nodup) (bounded : ∀ i ∈ l, i < n) :
    l.length ≤ n := by
  have inside : l ⊆ List.range n := fun i member => List.mem_range.mpr (bounded i member)
  simpa using (distinct.subperm inside).length_le

section Streams
variable {c : Config} {sh : Shared} {bag : Multiset Frame}

theorem Streams.refused_once (streams : Streams c sh bag) :
    (refusedStreams sh.log).Nodup ∧ ∀ i ∈ refusedStreams sh.log, i < c.numConcurrentEvents := by
  constructor
  · rw [List.nodup_iff_count_le_one]
    intro i
    have place := streams.place i
    rw [count_refusedStreams]
    split at place <;> omega
  · intro i member
    have place := streams.place i
    have positive := List.count_pos_iff.mpr member
    rw [count_refusedStreams] at positive
    by_contra outside
    rw [if_neg outside] at place
    omega

/-- The source has been asked less often than its counter can count. -/
theorem Streams.seen_lt (streams : Streams c sh bag) (counted : Counted c sh)
    (bound : c.nEvents + c.numConcurrentEvents < sizeBound) {i : Nat} (asks : .setEventInfo i ∈ bag) :
    sh.seenEvents + 1 < sizeBound := by
  obtain ⟨distinct,bounded⟩ := streams.refused_once
  have place := streams.place i
  have has : 0 < weigh (control i) bag := weigh_pos asks (by simp [control])
  have own : i ∉ refusedStreams sh.log := by
    intro member
    have positive := List.count_pos_iff.mpr member
    rw [count_refusedStreams] at positive
    split at place <;> omega
  have inside : i < c.numConcurrentEvents := by
    by_contra outside
    rw [if_neg outside] at place
    omega
  have others : (i :: refusedStreams sh.log).length ≤ c.numConcurrentEvents := by
    apply length_le_of_bounded (List.nodup_cons.mpr ⟨own,distinct⟩)
    intro j member
    rcases List.mem_cons.mp member with rfl | other
    · exact inside
    · exact bounded j other
  have total := counted.total
  rw [counted.indices,List.length_range] at total
  rw [List.length_cons] at others
  omega

theorem Counted.record (counted : Counted c sh) (i : Nat) {e : Entry} (other : e.acceptedIndex = none)
    (asked : e ≠ .refused) : Counted c (sh.record i e) := by
  obtain ⟨total,indices⟩ := counted
  constructor
  · rw [Shared.record,accepted_append,refusedStreams_append,other,if_neg asked]
    simpa using total
  · rw [Shared.record,accepted_append,other]
    simpa using indices

theorem counted_react {f : Frame} {r : Reaction Shared Frame} {rest : Multiset Frame}
    (streams : Streams c sh (f ::ₘ rest)) (counted : Counted c sh)
    (bound : c.nEvents + c.numConcurrentEvents < sizeBound) (reacts : Reacts c sh f r) :
    Counted c r.shared := by
  obtain ⟨total,indices⟩ := counted
  cases reacts with
  | accepted i more =>
    have small := streams.seen_lt ⟨total,indices⟩ bound (Multiset.mem_cons_self _ _)
    rw [Nat.mod_eq_of_lt small] at more
    constructor
    · simp only [Shared.record,Shared.setEventInfo,accepted_append,refusedStreams_append,Entry.acceptedIndex,
        Nat.mod_eq_of_lt small,Option.toList_some,List.length_append,List.length_singleton]
      simp
      omega
    · simp only [Shared.record,Shared.setEventInfo,accepted_append,Nat.mod_eq_of_lt small,Entry.acceptedIndex]
      rw [indices,Nat.min_eq_left more,Nat.min_eq_left (by omega),List.range_succ]
      rfl
  | refused i none =>
    have small := streams.seen_lt ⟨total,indices⟩ bound (Multiset.mem_cons_self _ _)
    rw [Nat.mod_eq_of_lt small] at none
    constructor
    · simp only [Shared.record,Shared.setEventInfo,accepted_append,refusedStreams_append,Entry.acceptedIndex,
        Nat.mod_eq_of_lt small,if_true,List.length_append,List.length_singleton]
      simp
      omega
    · simp only [Shared.record,Shared.setEventInfo,accepted_append,Nat.mod_eq_of_lt small,Entry.acceptedIndex]
      rw [indices,Nat.min_eq_right (by omega),Nat.min_eq_right (by omega)]
      simp
  | eventReset i | processAsync i | scheduleReset i | callback i =>
    exact Counted.record ⟨total,indices⟩ i rfl (by simp)
  | _ => exact ⟨total,indices⟩

end Streams

theorem count_entries (log : List (Nat × Entry)) (i : Nat) (e : Entry) :
    (entries log i).count e = log.count (i,e) := by
  induction log with
  | nil => rfl
  | cons x log ih =>
    obtain ⟨j,d⟩ := x
    rw [List.count_cons,← ih]
    by_cases own : j = i
    · subst own
      simp [entries,List.count_cons]
    · simp [entries,own]

/-- In the order that a stream keeps, each accepted event is handed over next, and nothing follows a
refusal. -/
theorem ordered_counts (done : List Entry) (p : Phase) (word : done.foldl advance (some .between) = some p)
    (n : Nat) : done.count (.processAsync n) + (if p = .accepted n then 1 else 0) = done.count (.accepted n) ∧
      (.refused ∈ done → p = .refused) := by
  induction done using List.reverseRecOn generalizing p with
  | nil =>
    obtain rfl : Phase.between = p := Option.some.inj word
    simp
  | append_singleton done e ih =>
    rw [List.foldl_append,List.foldl_cons,List.foldl_nil] at word
    cases before : done.foldl advance (some .between) with
    | none =>
      rw [before] at word
      simp [advance] at word
    | some q =>
      obtain ⟨counts,refused⟩ := ih q before
      rw [before] at word
      rw [List.count_append,List.count_append,List.mem_append]
      cases q <;> cases e <;> simp [advance] at word <;> simp_all [List.count_singleton] <;> grind

def acceptedBy (log : List (Nat × Entry)) (i : Nat) : List Nat :=
  (entries log i).filterMap Entry.acceptedIndex

theorem acceptedBy_sublist (log : List (Nat × Entry)) (i : Nat) :
    (acceptedBy log i).Sublist (accepted log) := by
  unfold acceptedBy accepted entries
  rw [List.filterMap_map]
  exact List.Sublist.filterMap _ List.filter_sublist

theorem mem_accepted {log : List (Nat × Entry)} {i n : Nat} (member : (i,.accepted n) ∈ log) :
    n ∈ accepted log :=
  List.mem_filterMap.mpr ⟨_,member,rfl⟩

theorem count_accepted_le (log : List (Nat × Entry)) (i n : Nat) :
    log.count (i,.accepted n) ≤ (accepted log).count n := by
  induction log with
  | nil => exact Nat.le_refl 0
  | cons x log ih =>
    have split : accepted (x :: log) = x.2.acceptedIndex.toList ++ accepted log := by
      obtain ⟨k,e⟩ := x
      cases e <;> simp [accepted,Entry.acceptedIndex]
    rw [split,List.count_append,List.count_cons]
    by_cases same : x = (i,.accepted n)
    · subst same
      simp [Entry.acceptedIndex]
      omega
    · simp [same]
      omega

/-- Two streams do not accept one event. -/
theorem accepted_unique {log : List (Nat × Entry)} (distinct : (accepted log).Nodup) {i j n : Nat}
    (first : (i,.accepted n) ∈ log) (second : (j,.accepted n) ∈ log) : i = j := by
  induction log with
  | nil => cases first
  | cons x log ih =>
    have alone (k : Nat) (own : x = (k,.accepted n)) (m : Nat) (later : (m,.accepted n) ∈ log) : False := by
      subst own
      have twice : (n :: accepted log).Nodup := distinct
      exact (List.nodup_cons.mp twice).1 (mem_accepted later)
    rcases List.mem_cons.mp first with here | there <;> rcases List.mem_cons.mp second with same | later
    · rw [← here] at same
      exact (Prod.mk.inj same).1.symm
    · exact (alone i here.symm j later).elim
    · exact (alone j same.symm i there).elim
    · have tail : (accepted log).Nodup :=
        List.Nodup.sublist (List.Sublist.filterMap _ (List.sublist_cons_self x log)) distinct
      exact ih tail there later

def concerns (i : Nat) : Frame → Prop
  | .processAll is => i ∈ is
  | .handleNextEventAsync j | .setEventInfo j | .processAsync j | .scheduleReset j | .runPaths j
  | .launch j _ | .runAsync j _ | .runFilterAsync j _ _ | .filterAsync j _ | .filterFinished j _ _
  | .doneWaiting j _ | .node j _ | .decrement (.nextFilter j _) | .decrement (.allPathsDone j)
  | .execute (.nextFilter j _) | .execute (.allPathsDone j) | .callback j => i = j

/-- What the streams have made of the events of the source. The log of each stream is a word of
`advance`: the event is reset at the start and after the callback of the event before only, the
filters are reset for the event that has been handed over only, and nothing follows a refusal. -/
structure Delivered (c : Config) (s : State) : Prop where
  indices : ∃ k ≤ c.nEvents, accepted s.shared.log = List.range k
  handed : ∀ i n, (i,.processAsync n) ∈ s.shared.log → (i,.accepted n) ∈ s.shared.log ∧
    s.shared.log.count (i,.processAsync n) = 1 ∧ ∀ j, (j,.processAsync n) ∈ s.shared.log → j = i
  pending : ∀ i n, (i,.accepted n) ∈ s.shared.log →
    (i,.processAsync n) ∈ s.shared.log ∨ .processAsync i ∈ s.bag ∧ s.shared.index i = n
  increasing : ∀ i, (acceptedBy s.shared.log i).Pairwise (· < ·)
  ordered : ∀ i, (phase s.shared.log i).isSome = true
  refused : ∀ i, (i,.refused) ∈ s.shared.log → ∀ f ∈ s.bag, ¬concerns i f
  complete : (∀ i < c.numConcurrentEvents, (i,.refused) ∈ s.shared.log) →
    accepted s.shared.log = List.range c.nEvents

section Delivered
variable {c : Config} {s : State}

theorem accepted_nodup {sh : Shared} (counted : Counted c sh) : (accepted sh.log).Nodup := by
  rw [counted.indices]
  exact List.nodup_range

theorem handed_accepted (streams : Streams c s.shared s.bag) (counted : Counted c s.shared) {i n : Nat}
    (handed : (i,.processAsync n) ∈ s.shared.log) : (i,.accepted n) ∈ s.shared.log ∧
      s.shared.log.count (i,.processAsync n) = 1 := by
  obtain ⟨p,word⟩ := Option.isSome_iff_exists.mp (streams.ordered i)
  obtain ⟨counts,_⟩ := ordered_counts _ p word n
  rw [count_entries,count_entries] at counts
  have positive := List.count_pos_iff.mpr handed
  have single := count_accepted_le s.shared.log i n
  have distinct := List.nodup_iff_count_le_one.mp (accepted_nodup counted) n
  exact ⟨List.count_pos_iff.mp (by omega),by omega⟩

/-- A stream that was refused has nothing left to do. -/
theorem refused_idle (streams : Streams c s.shared s.bag) {i : Nat} (refused : (i,.refused) ∈ s.shared.log)
    {f : Frame} (member : f ∈ s.bag) : ¬concerns i f := by
  have place := streams.place i
  have owners := streams.owners (.allPathsDone i)
  have positive : 0 < refusals s.shared.log i := List.count_pos_iff.mpr refused
  have light : weigh (control i) s.bag = 0 ∧ s.shared.refCount (.allPathsDone i) = 0 := by
    split at place <;> omega
  rw [light.2] at owners
  have stopped (p : Nat) : weigh (runs i p) s.bag = 0 := by
    have waits : weigh (waits i p) s.bag = 0 :=
      weigh_light fun g inside => (unowned (weigh_eq_zero owners.symm inside) p).2
    have busy := streams.busy i p
    omega
  have uncontrolled := weigh_eq_zero light.1 member
  have unowned := weigh_eq_zero owners.symm member
  have idle (p : Nat) := weigh_eq_zero (stopped p) member
  clear place owners light stopped positive streams refused
  cases f with
  | processAll is => exact List.count_eq_zero.mp uncontrolled
  | decrement t =>
    cases t with
    | nextFilter j p => simpa [runs,concerns] using idle p
    | allPathsDone j => simpa [owns,concerns] using unowned
  | execute t =>
    cases t with
    | nextFilter j p => simpa [runs,concerns] using idle p
    | allPathsDone j => simpa [control,concerns] using uncontrolled
  | runFilterAsync j p k | filterAsync j p | filterFinished j p k | doneWaiting j p =>
    simpa [runs,concerns] using idle p
  | launch j ps | runAsync j p | node j p => simpa [owns,concerns] using unowned
  | _ => simpa [control,concerns] using uncontrolled

/-- An accepted event has been handed over, or is about to be by its stream. -/
theorem accepted_pending (streams : Streams c s.shared s.bag) {i n : Nat}
    (member : (i,.accepted n) ∈ s.shared.log) :
    (i,.processAsync n) ∈ s.shared.log ∨ .processAsync i ∈ s.bag ∧ s.shared.index i = n := by
  obtain ⟨p,word⟩ := Option.isSome_iff_exists.mp (streams.ordered i)
  obtain ⟨counts,refused⟩ := ordered_counts _ p word n
  rw [count_entries,count_entries] at counts
  have positive := List.count_pos_iff.mpr member
  by_cases waiting : p = .accepted n
  · right
    subst waiting
    have place := streams.place i
    have inside : i < c.numConcurrentEvents := streams.known _ member
    have held : s.shared.refCount (.allPathsDone i) = 0 := by
      by_contra held
      have processing := streams.processing i (Nat.pos_of_ne_zero held)
      rw [word] at processing
      cases processing
    have unrefused : refusals s.shared.log i = 0 := by
      by_contra some
      have asked : .refused ∈ entries s.shared.log i := by
        rw [← List.count_pos_iff,count_entries]
        exact Nat.pos_of_ne_zero some
      cases refused asked
    rw [if_pos inside,held,unrefused] at place
    obtain ⟨f,inBag,has⟩ := (weigh_pos_iff (control i) s.bag).mp (by omega)
    have located := streams.located f inBag i has
    rw [word] at located
    cases f with
    | processAsync j =>
      obtain rfl : i = j := by_contra fun other => by simp [control,other] at has
      simp only [phaseAt,Option.some.injEq,Phase.accepted.injEq] at located
      exact ⟨inBag,located.symm⟩
    | _ => simp [phaseAt] at located
  · left
    rw [if_neg waiting] at counts
    exact List.count_pos_iff.mp (by omega)

theorem delivered (streams : Streams c s.shared s.bag) (counted : Counted c s.shared)
    (positive : 0 < c.numConcurrentEvents) : Delivered c s := by
  refine ⟨⟨_,Nat.min_le_right _ _,counted.indices⟩,?_,?_,?_,streams.ordered,?_,?_⟩
  · intro i n handed
    obtain ⟨member,once⟩ := handed_accepted streams counted handed
    refine ⟨member,once,fun j other => ?_⟩
    exact accepted_unique (accepted_nodup counted) (handed_accepted streams counted other).1 member
  · intro i n member
    exact accepted_pending streams member
  · intro i
    have sorted : (accepted s.shared.log).Pairwise (· < ·) := by
      rw [counted.indices]
      exact List.pairwise_lt_range
    exact sorted.sublist (acceptedBy_sublist _ i)
  · intro i refused f member
    exact refused_idle streams refused member
  · intro all
    have last : 0 < (refusedStreams s.shared.log).length := by
      apply List.length_pos_of_mem (a := 0)
      rw [← List.count_pos_iff,count_refusedStreams]
      exact List.count_pos_iff.mpr (all 0 positive)
    have total := counted.total
    rw [counted.indices,List.length_range] at total
    rw [counted.indices,Nat.min_eq_right (by omega)]

end Delivered

/-- Every event of the source is processed once, by one stream, whatever the order in which the
streams advance. -/
theorem events_processed_once (c : Config) (positive : 0 < c.numConcurrentEvents)
    (bound : c.nEvents + c.numConcurrentEvents < 2 ^ 64) (s : State)
    (run : Reachable (next c) (initial c) s) : Delivered c s := by
  have preserved (s : State) (a : Nat × Bool) (t : State)
      (holds : Streams c s.shared s.bag ∧ Counted c s.shared) (_ : True) (taken : next c s a = some t) :
      Streams c t.shared t.bag ∧ Counted c t.shared := by
    refine ⟨holds.1.next taken,?_⟩
    obtain ⟨f,r,rest,reacted,shared,before,_,_⟩ := Pool.step_bag taken
    rw [shared]
    have streams := holds.1
    rw [before] at streams
    exact counted_react streams holds.2 bound (react_reacts reacted)
  have start : Streams c (initial c).shared (initial c).bag ∧ Counted c (initial c).shared := by
    refine ⟨initial_streams positive,?_⟩
    constructor <;> simp [initial,accepted,refusedStreams]
  obtain ⟨streams,counted⟩ := Reaches.invariant preserved run start
  exact delivered streams counted positive

def oneEvent : Config where
  framework := .tbb
  numConcurrentEvents := 2
  nEvents := 1
  paths := [1]

/-- Stream 1 processes the event and is refused then, as is stream 0. -/
def oneEventRun : List (Nat × Bool) :=
  List.replicate 12 (0,true) ++ [(2,true),(2,true),(3,true),(3,true),(3,true),(1,true),(1,true),(4,true),(4,true),
    (5,true),(5,true)] ++ List.replicate 3 (0,true)

theorem events_processed_once_oneEvent : ∃ s, execute (next oneEvent) (initial oneEvent) oneEventRun = some s ∧
    accepted s.shared.log = [0] ∧ (0,.refused) ∈ s.shared.log ∧ (1,.refused) ∈ s.shared.log ∧
      Delivered oneEvent s := by
  have ran : (execute (next oneEvent) (initial oneEvent) oneEventRun).map (fun s => decide
      (accepted s.shared.log = [0] ∧ (0,Entry.refused) ∈ s.shared.log ∧ (1,Entry.refused) ∈ s.shared.log)) =
        some true := by decide
  obtain ⟨s,ran,told⟩ := Option.map_eq_some_iff.mp ran
  obtain ⟨log,first,second⟩ := of_decide_eq_true told
  exact ⟨s,ran,log,first,second,events_processed_once oneEvent (by decide) (by decide) s (execute_reachable _ ran)⟩

end ToyMtFramework.EventLoop
