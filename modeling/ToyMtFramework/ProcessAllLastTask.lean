import ToyMtFramework.ProcessAll
import ToyMtFramework.ScheduleCounts

/-! How often `lastTask` runs. A stream keeps its holder as long as one of its frames, or a
holder of its `AllPathsDoneTask`, can still bring it to the next event. When no holder is
the last one while streams are left to launch, the count drops to zero once. -/
namespace ToyMtFramework.ProcessAll
open Activities Transition
open Schedule (Job Wrapper owns ending)
open Schedule.Loop (LoopFrame LoopShared)

variable {L D E : Type}

def keeps (sh : Shared L D E) : Frame L D E → Bool
  | .processAll =>
    match sh.main with
    | .destroyHolder _ (_ :: _) => !sh.holding.isEmpty
    | _ => true
  | .decrement i =>
    match sh.main with
    | .launch (_ :: _) => sh.holding.any fun j => j ≠ i
    | _ => true
  | _ => true

def Kept (s : State L D E) (a : Nat × Nat) : Prop :=
  ∀ f ∈ s.top a.1, keeps s.shared f = true

instance (s : State L D E) (a : Nat × Nat) : Decidable (Kept s a) :=
  inferInstanceAs (Decidable (∀ f ∈ s.top a.1, keeps s.shared f = true))

section Weights
variable [DecidableEq L] [DecidableEq D]

def holds : LoopFrame L D E → Nat
  | .schedule f => owns .allPathsDone f
  | _ => 0

def driving : LoopFrame L D E → Nat
  | .schedule f => ending f
  | _ => 1

omit [DecidableEq L] [DecidableEq D] in
def ofStream (weight : LoopFrame L D E → Nat) (i : Nat) : Frame L D E → Nat
  | .stream j f => if i = j then weight f else 0
  | _ => 0

/-- Stream `i` has got its last answer and is yet to release its holder. -/
def finishing (i : Nat) : Frame L D E → Nat
  | .doneWaiting j _ | .decrement j => if i = j then 1 else 0
  | _ => 0

def executing : Frame L D E → Nat
  | .lastTask _ => 1
  | _ => 0

def recycling : Frame L D E → Nat
  | .recycle _ => 1
  | _ => 0

/-- What stream `i` goes on with, if anything. -/
def streamFrames (i : Nat) (r : Reaction (LoopShared L D E) (LoopFrame L D E))
    (answer : Option (Option E)) : Multiset (Frame L D E) :=
  Multiset.ofList (r.calls.map (.stream i) ++ answer.toList.map (.doneWaiting i) ++
    r.spawned.map (.stream i))

omit [DecidableEq L] [DecidableEq D] in
theorem sum_ofStream (weight : LoopFrame L D E → Nat) (i j : Nat) (frames : List (LoopFrame L D E)) :
    ((frames.map (Frame.stream i)).map (ofStream weight j)).sum =
      if j = i then (frames.map weight).sum else 0 := by
  induction frames with
  | nil => simp
  | cons f frames ih =>
    rw [List.map_cons,List.map_cons,List.sum_cons,ih,List.map_cons,List.sum_cons]
    simp only [ofStream]
    split <;> rfl

omit [DecidableEq L] [DecidableEq D] in
theorem sum_stream {weight : Frame L D E → Nat} {i : Nat} (light : ∀ f, weight (.stream i f) = 0)
    (frames : List (LoopFrame L D E)) : ((frames.map (Frame.stream i)).map weight).sum = 0 := by
  induction frames with
  | nil => rfl
  | cons f frames ih =>
    rw [List.map_cons,List.map_cons,List.sum_cons,ih,light]

omit [DecidableEq L] [DecidableEq D] in
theorem weigh_streamFrames (weight : LoopFrame L D E → Nat) (i j : Nat)
    (r : Reaction (LoopShared L D E) (LoopFrame L D E)) (answer : Option (Option E)) :
    weigh (ofStream weight j) (streamFrames i r answer) = if j = i then weigh weight r.frames else 0 := by
  have none : ((answer.toList.map (Frame.doneWaiting i)).map (ofStream (L := L) (D := D) weight j)).sum = 0 := by
    cases answer <;> rfl
  rw [streamFrames,weigh_coe,List.map_append,List.map_append,List.sum_append,List.sum_append,
    sum_ofStream,sum_ofStream,none,Reaction.frames,weigh_coe,List.map_append,List.sum_append]
  split <;> rfl

omit [DecidableEq L] [DecidableEq D] in
theorem weigh_streamFrames_light {weight : Frame L D E → Nat} {i : Nat} (light : ∀ f, weight (.stream i f) = 0)
    (r : Reaction (LoopShared L D E) (LoopFrame L D E)) (answer : Option (Option E)) :
    weigh weight (streamFrames i r answer) = (answer.toList.map fun e => weight (.doneWaiting i e)).sum := by
  rw [streamFrames,weigh_coe,List.map_append,List.map_append,List.sum_append,List.sum_append,
    sum_stream light,sum_stream light,List.map_map]
  simp [Function.comp_def]

end Weights

section Streams
variable [DecidableEq L] [DecidableEq D] {job : Job L D E} {sh : LoopShared L D E}
  {f : LoopFrame L D E} {seed others : Nat} {r : Reaction (LoopShared L D E) (LoopFrame L D E)}

/-- A stream goes on to its next event until it gets its last answer. -/
theorem stream_react (owners : sh.schedule.refCount .allPathsDone = holds f + others)
    (single : driving f + min 1 (sh.schedule.refCount .allPathsDone) ≤ 1)
    (reacted : Schedule.Loop.react job sh f seed = some r) :
    r.shared.schedule.refCount .allPathsDone = weigh holds r.frames + others ∧
      weigh driving r.frames + (if (answer sh.source f).isSome then 1 else 0) +
        min 1 (r.shared.schedule.refCount .allPathsDone) =
          driving f + min 1 (sh.schedule.refCount .allPathsDone) := by
  cases f with
  | schedule f =>
    obtain ⟨inner,made,after,frames⟩ := Schedule.Loop.react_schedule reacted
    have reacts := Schedule.react_reacts made
    have owned := Schedule.owners_react owners reacts
    have ends := Schedule.ending_react owners single reacts
    have released : inner.shared.released.length =
        sh.schedule.released.length + weigh driving (Multiset.ofList (Schedule.Loop.recursiveTask f)) := by
      cases reacts <;> simp [driving,Schedule.Loop.recursiveTask,Schedule.Shared.hold,
        Schedule.Shared.drop,Schedule.Shared.setList,Schedule.Shared.setIndex,Schedule.Shared.request,
        Schedule.Shared.start,Schedule.Shared.dependentTaskFailed,Schedule.Shared.fail,
        Schedule.Shared.finish]
    have free : weigh holds (Multiset.ofList (Schedule.Loop.recursiveTask f)) = 0 := by
      cases f <;> simp [holds,Schedule.Loop.recursiveTask]
    rw [after,frames,weigh_add,weigh_add,weigh_map,weigh_map,free]
    refine ⟨owned,?_⟩
    change weigh ending inner.frames + _ + 0 + min 1 (inner.shared.refCount .allPathsDone) =
      ending f + min 1 (sh.schedule.refCount .allPathsDone)
    omega
  | handleNextEventAsync e =>
    cases e <;> cases reacted <;> simp_all [holds,driving,answer]
  | eventReset ks step =>
    cases ks with
    | nil =>
      cases source : sh.source <;> simp only [Schedule.Loop.react,source] at reacted <;> cases reacted <;>
        simp_all [holds,driving,answer,Schedule.Loop.setEventInfo,Schedule.Loop.refuseEvent]
    | cons k ks =>
      cases step <;> cases reacted <;> simp_all [holds,driving,answer,Schedule.Loop.resetCache,
        Schedule.Loop.resetWorkStarted,Schedule.Loop.resetWaitingTasks,Schedule.Shared.setList]
  | scheduleReset ls step =>
    cases ls with
    | nil =>
      cases reacted
      simp_all [holds,driving,answer,owns,ending]
    | cons l ls =>
      cases step <;> cases reacted <;> simp_all [holds,driving,answer,Schedule.Loop.resetKeep,
        Schedule.Loop.resetWorkStarted,Schedule.Loop.resetWaitingTasks,Schedule.Shared.setList]

end Streams

section Invariant
variable [DecidableEq L] [DecidableEq D]

structure Held (N : Nat) (sh : Shared L D E) (bag : Multiset (Frame L D E)) : Prop where
  owners : ∀ i, (sh.streams i).refCount .allPathsDone = weigh (ofStream holds i) bag
  streams : ∀ i, weigh (ofStream driving i) bag + min 1 ((sh.streams i).refCount .allPathsDone) +
    weigh (finishing i) bag = sh.holding.count i
  ended : ∀ i ∈ sh.ended, weigh (ofStream driving i) bag +
    min 1 ((sh.streams i).refCount .allPathsDone) = 0
  finished : ∀ i, 0 < weigh (finishing i) bag → i ∈ sh.ended
  launched : ∀ i, sh.main.unlaunched.count i + (if i ∈ sh.holding ∨ i ∈ sh.ended then 1 else 0) =
    if i < N then 1 else 0
  single : ∀ i, sh.holding.count i ≤ 1
  refCount : sh.refCount = sh.holding.length + sh.main.holders
  submitted : sh.submitted = if sh.main.unlaunched = [] ∧ sh.refCount = 0 then 1 else 0
  executed : weigh executing bag + sh.executed = sh.submitted
  deleted : weigh recycling bag + sh.deleted = sh.executed
  late : sh.late = 0

variable {job : Job L D E} {N : Nat} {sh : Shared L D E} {rest : Multiset (Frame L D E)}
  {r : Reaction (Shared L D E) (Frame L D E)}

omit [DecidableEq L] [DecidableEq D] in
theorem run_sum (weight : Frame L D E → Nat) (g : Nat) :
    ((sh.run g).map weight).sum = if sh.refCount = 1 then weight (.lastTask g) else 0 := by
  unfold Shared.run
  split <;> simp

theorem Held.unsubmitted {bag : Multiset (Frame L D E)} (held : Held N sh bag) (some : 0 < sh.refCount) :
    sh.submitted = 0 := by
  rw [held.submitted,if_neg (by omega)]

omit [DecidableEq L] [DecidableEq D] in
/-- The last holder is released when nothing is left to launch. -/
theorem drop_submitted (left : List Nat) (some : 0 < sh.refCount) (unsubmitted : sh.submitted = 0)
    (kept : left ≠ [] → sh.refCount ≠ 1) :
    sh.drop.submitted = if left = [] ∧ sh.drop.refCount = 0 then 1 else 0 := by
  simp only [Shared.drop,unsubmitted]
  by_cases last : sh.refCount = 1
  · have quiet : left = [] := by
      by_contra more
      exact kept more last
    simp [last,quiet]
  · rw [if_neg last,if_neg (by omega)]

/-- The loop copies its holder into the call for the next stream. -/
theorem Held.launch (held : Held N sh (.processAll ::ₘ rest)) {n : Nat} {ns : List Nat}
    (at_main : sh.main = .copyHolder n ns) :
    Held N {sh.hold (.destroyHolder n ns) with holding := n :: sh.holding}
      (Multiset.ofList [.stream n (.handleNextEventAsync none),.processAll] + rest) := by
  obtain ⟨owners,streams,ended,finished,launched,single,refCount,submitted,executed,deleted,late⟩ := held
  have new := launched n
  simp only [at_main,Main.unlaunched,List.count_cons_self] at new
  have outside : n ∉ sh.holding ∧ n ∉ sh.ended := by
    split_ifs at new <;> first | omega | tauto
  constructor
  · simpa [ofStream,holds,Shared.hold] using owners
  · intro i
    have stream := streams i
    simp [ofStream,driving,finishing,Shared.hold,List.count_cons] at stream ⊢
    grind
  · intro i member
    have other : i ≠ n := by
      rintro rfl
      exact outside.2 member
    simpa [ofStream,driving,Shared.hold,other] using ended i member
  · simpa [finishing,Shared.hold] using finished
  · intro i
    have launch := launched i
    simp [at_main,Main.unlaunched,Shared.hold,List.count_cons] at launch ⊢
    grind
  · intro i
    have once := single i
    have absent := List.count_eq_zero.mpr outside.1
    simp [List.count_cons]
    grind
  · simp [refCount,at_main,Main.holders,Shared.hold]
  · simpa [at_main,Main.unlaunched,Shared.hold] using submitted
  · simpa [executing,Shared.hold] using executed
  · simpa [recycling,Shared.hold] using deleted
  · simp_all [Main.unlaunched,Shared.hold]

/-- The loop's own holder goes at the end of an iteration. -/
theorem Held.destroyHolder (held : Held N sh (.processAll ::ₘ rest)) {n : Nat} {ns : List Nat}
    (at_main : sh.main = .destroyHolder n ns) (kept : ns ≠ [] → sh.holding ≠ []) :
    Held N {sh.drop with main := .launch ns} (Multiset.ofList (.processAll :: sh.run n) + rest) := by
  have counted := held.refCount
  simp only [at_main,Main.holders] at counted
  have unsubmitted := held.unsubmitted (by omega)
  have submitted := drop_submitted ns (by omega) unsubmitted fun more last =>
    kept more (List.length_eq_zero_iff.mp (by omega))
  obtain ⟨owners,streams,ended,finished,launched,single,_,_,executed,deleted,late⟩ := held
  constructor
  · simpa [ofStream,run_sum,Shared.drop] using owners
  · simpa [ofStream,finishing,run_sum,Shared.drop] using streams
  · simpa [ofStream,run_sum,Shared.drop] using ended
  · simpa [finishing,run_sum,Shared.drop] using finished
  · simpa [at_main,Main.unlaunched,Shared.drop] using launched
  · exact single
  · simp only [Shared.drop,Main.holders]
    omega
  · exact submitted
  · simp [executing,run_sum,Shared.drop] at executed ⊢
    omega
  · simpa [recycling,run_sum,Shared.drop] using deleted
  · exact late

/-- A stream releases its holder after its last answer. -/
theorem Held.decrement {i : Nat} (held : Held N sh (.decrement i ::ₘ rest))
    (kept : keeps sh (.decrement i) = true) :
    Held N {sh.drop with holding := sh.holding.erase i} (Multiset.ofList (sh.run i) + rest) := by
  have counted := held.refCount
  have holder := held.streams i
  simp only [weigh_cons,finishing,if_true] at holder
  have once := held.single i
  have member : i ∈ sh.holding := List.count_pos_iff.mp (by omega)
  have length := List.length_erase_of_mem member
  have positive := List.length_pos_of_mem member
  have unsubmitted := held.unsubmitted (by omega)
  have submitted := drop_submitted sh.main.unlaunched (by omega) unsubmitted fun more last => by
    obtain ⟨only,alone⟩ := List.length_eq_one_iff.mp (by omega : sh.holding.length = 1)
    obtain rfl : i = only := by simpa [alone] using member
    cases at_main : sh.main with
    | launch ns =>
      cases ns with
      | nil => simp [at_main,Main.unlaunched] at more
      | cons n ns => simp [keeps,at_main,alone] at kept
    | copyHolder n ns | destroyHolder n ns =>
      simp only [at_main,Main.holders] at counted
      omega
    | wait g | testDone | returned e => simp [at_main,Main.unlaunched] at more
  obtain ⟨owners,streams,ended,finished,launched,single,_,_,executed,deleted,late⟩ := held
  constructor
  · simpa [ofStream,run_sum,Shared.drop] using owners
  · intro j
    have stream := streams j
    simp [ofStream,finishing,run_sum,Shared.drop,List.count_erase] at stream ⊢
    grind
  · simpa [ofStream,run_sum,Shared.drop] using ended
  · intro j after
    refine finished j ?_
    simp [finishing,run_sum] at after ⊢
    omega
  · intro j
    have ended : i ∈ sh.ended := finished i (by simp only [weigh_cons,finishing,if_true]; omega)
    have launch := launched j
    have erased : j ∈ sh.holding.erase i ∨ j ∈ sh.ended ↔ j ∈ sh.holding ∨ j ∈ sh.ended := by
      by_cases same : j = i
      · subst same
        tauto
      · rw [List.mem_erase_of_ne same]
    simpa [Shared.drop,erased] using launch
  · intro j
    exact (List.erase_sublist.count_le j).trans (single j)
  · simp only [Shared.drop]
    omega
  · exact submitted
  · simp [executing,run_sum,Shared.drop] at executed ⊢
    omega
  · simpa [recycling,run_sum,Shared.drop] using deleted
  · exact late

/-- A stream goes on, or gets its last answer. -/
theorem Held.stream {i : Nat} {f : LoopFrame L D E} {seed : Nat} (held : Held N sh (.stream i f ::ₘ rest))
    {inner : Reaction (LoopShared L D E) (LoopFrame L D E)}
    (reacted : Schedule.Loop.react job ⟨sh.streams i,sh.source⟩ f seed = some inner) :
    Held N (sh.setStream i inner.shared (answer sh.source f))
      (streamFrames i inner (answer sh.source f) + rest) := by
  obtain ⟨owners,streams,ended,finished,launched,single,refCount,submitted,executed,deleted,late⟩ := held
  have stream := streams i
  have once := single i
  have owned := owners i
  simp only [weigh_cons,ofStream,finishing,if_true] at stream owned
  obtain ⟨holders,drives⟩ := stream_react owned (by dsimp only; omega) reacted
  dsimp only at drives
  have finishes (j : Nat) : weigh (finishing j) (streamFrames i inner (answer sh.source f)) =
      if j = i ∧ (answer sh.source f).isSome then 1 else 0 := by
    rw [weigh_streamFrames_light fun _ => rfl]
    cases answer sh.source f <;> simp [finishing]
  have still {weight : Frame L D E → Nat} (light : ∀ f, weight (.stream i f) = 0)
      (done : ∀ e, weight (.doneWaiting i e) = 0) :
      weigh weight (streamFrames i inner (answer sh.source f) + rest) = weigh weight (.stream i f ::ₘ rest) := by
    rw [weigh_add,weigh_streamFrames_light light,weigh_cons,light]
    cases answer sh.source f <;> simp [done]
  constructor
  · intro j
    have owner := owners j
    rw [weigh_add,weigh_streamFrames]
    simp [ofStream,Shared.setStream] at owner ⊢
    grind
  · intro j
    have stream := streams j
    rw [weigh_add,weigh_add,weigh_streamFrames,finishes]
    simp [ofStream,finishing,Shared.setStream] at stream ⊢
    grind
  · intro j member
    have before := ended j
    rw [weigh_add,weigh_streamFrames]
    simp [ofStream,Shared.setStream] at before member ⊢
    grind
  · intro j after
    have before := finished j
    rw [weigh_add,finishes] at after
    simp [finishing,Shared.setStream] at before after ⊢
    grind
  · intro j
    have launch := launched j
    have holding (answered : (answer sh.source f).isSome = true) : i ∈ sh.holding := by
      rw [if_pos answered] at drives
      exact List.count_pos_iff.mp (by omega)
    simp [Shared.setStream] at launch ⊢
    grind
  · exact single
  · exact refCount
  · exact submitted
  · rw [still (fun _ => rfl) fun _ => rfl]
    exact executed
  · rw [still (fun _ => rfl) fun _ => rfl]
    exact deleted
  · exact late

structure Light (f : Frame L D E) : Prop where
  streams : ∀ i, ofStream holds i f = 0 ∧ ofStream driving i f = 0 ∧ finishing i f = 0
  lastTask : executing f = 0 ∧ recycling f = 0

theorem light_processAll : Light (.processAll : Frame L D E) :=
  ⟨fun _ => ⟨rfl,rfl,rfl⟩,rfl,rfl⟩

theorem light_serialTask (t : QueuedTask L D E) : Light (.serialTask t) :=
  ⟨fun _ => ⟨rfl,rfl,rfl⟩,rfl,rfl⟩

theorem light_finishedTask (group : Nat) (q : QueueId L D) :
    Light (.finishedTask group q : Frame L D E) :=
  ⟨fun _ => ⟨rfl,rfl,rfl⟩,rfl,rfl⟩

theorem light_runModule (i : Nat) (w : Wrapper L D) (e : Option E) :
    Light (.stream i (.schedule (.runModule w e))) :=
  ⟨fun _ => by simp [ofStream,holds,driving,finishing,owns,ending],rfl,rfl⟩

omit [DecidableEq L] [DecidableEq D] in
theorem weigh_light {weight : Frame L D E → Nat} {frames : Multiset (Frame L D E)}
    (light : ∀ g ∈ frames, weight g = 0) : weigh weight frames = 0 := by
  by_contra heavy
  obtain ⟨g,member,positive⟩ := (weigh_pos_iff _ _).mp (Nat.pos_of_ne_zero heavy)
  rw [light g member] at positive
  exact Nat.lt_irrefl 0 positive

theorem Held.light {f : Frame L D E} {frames : Multiset (Frame L D E)} (held : Held N sh (f ::ₘ rest))
    (light : Light f) (new : ∀ g ∈ frames, Light g) : Held N sh (frames + rest) := by
  have same {weight : Frame L D E → Nat} (before : weight f = 0) (after : ∀ g ∈ frames, weight g = 0) :
      weigh weight (frames + rest) = weigh weight (f ::ₘ rest) := by
    rw [weigh_add,weigh_cons,before,weigh_light after]
  have holders (i : Nat) := same (light.streams i).1 fun g member => ((new g member).streams i).1
  have drivers (i : Nat) := same (light.streams i).2.1 fun g member => ((new g member).streams i).2.1
  have finishers (i : Nat) := same (light.streams i).2.2 fun g member => ((new g member).streams i).2.2
  have executors := same light.lastTask.1 fun g member => (new g member).lastTask.1
  have recyclers := same light.lastTask.2 fun g member => (new g member).lastTask.2
  obtain ⟨owners,streams,ended,finished,launched,single,refCount,submitted,executed,deleted,late⟩ := held
  constructor
  · simpa only [holders] using owners
  · simpa only [drivers,finishers] using streams
  · simpa only [drivers] using ended
  · simpa only [finishers] using finished
  · exact launched
  · exact single
  · exact refCount
  · exact submitted
  · rw [executors]
    exact executed
  · rw [recyclers]
    exact deleted
  · exact late

/-- `processAll` goes from one place to another, with what it has. -/
theorem Held.move {bag : Multiset (Frame L D E)} (held : Held N sh bag) {main : Main E}
    (unlaunched : main.unlaunched = sh.main.unlaunched) (holders : main.holders = sh.main.holders)
    (handedOver : Bool) : Held N {sh with main, handedOver} bag := by
  obtain ⟨owners,streams,ended,finished,launched,single,refCount,submitted,executed,deleted,late⟩ := held
  refine ⟨owners,streams,ended,finished,?_,single,?_,?_,executed,deleted,late⟩
  · rw [unlaunched]
    exact launched
  · rw [holders]
    exact refCount
  · rw [unlaunched]
    exact submitted

/-- The loop makes the holder for the next stream. -/
theorem Held.hold {bag : Multiset (Frame L D E)} (held : Held N sh bag) {n : Nat} {ns : List Nat}
    (at_main : sh.main = .launch (n :: ns)) : Held N (sh.hold (.copyHolder n ns)) bag := by
  have unsubmitted := held.submitted
  rw [if_neg (by simp [at_main,Main.unlaunched])] at unsubmitted
  obtain ⟨owners,streams,ended,finished,launched,single,refCount,_,executed,deleted,late⟩ := held
  refine ⟨owners,streams,ended,finished,?_,single,?_,?_,executed,deleted,?_⟩
  · rw [at_main] at launched
    exact launched
  · simp [refCount,at_main,Main.holders,Shared.hold]
  · simp [unsubmitted,Main.unlaunched,Shared.hold]
  · simp [late,unsubmitted,Shared.hold]

theorem Held.processAll (held : Held N sh (.processAll ::ₘ rest)) (kept : keeps sh .processAll = true)
    (reacted : ProcessAll.processAll N sh = some r) : Held N r.shared (r.frames + rest) := by
  have same : Held N sh (Multiset.ofList [.processAll] + rest) := by
    rwa [Multiset.coe_singleton,Multiset.singleton_add]
  unfold ProcessAll.processAll at reacted
  split at reacted
  · rename_i at_main
    cases reacted
    exact same.move (by rw [at_main]; rfl) (by rw [at_main]; rfl) sh.handedOver
  · rename_i n ns at_main
    cases reacted
    exact same.hold at_main
  · rename_i n ns at_main
    cases reacted
    exact held.launch at_main
  · rename_i n ns at_main
    cases reacted
    apply held.destroyHolder at_main
    intro more
    cases ns with
    | nil => exact absurd rfl more
    | cons m ns => simpa [keeps,at_main] using kept
  · rename_i g at_main
    cases reacted
    exact same.move (by rw [at_main]; split <;> rfl) (by rw [at_main]; split <;> rfl) sh.handedOver
  · rename_i at_main
    split at reacted
    · cases reacted
      apply (held.light light_processAll _).move _ _ sh.handedOver
      · simp
      · rw [at_main]
        rfl
      · rw [at_main]
        rfl
    · cases reacted
      exact same.move (by rw [at_main]; rfl) (by rw [at_main]; rfl) false
  · cases reacted

theorem Held.queues {bag : Multiset (Frame L D E)} (held : Held N sh bag)
    (queues : QueueId L D → SerialQueue L D E) (handedOver : Bool) :
    Held N {sh with queues, handedOver} bag := by
  obtain ⟨owners,streams,ended,finished,launched,single,refCount,submitted,executed,deleted,late⟩ := held
  exact ⟨owners,streams,ended,finished,launched,single,refCount,submitted,executed,deleted,late⟩

theorem Held.pickNextTask {bag : Multiset (Frame L D E)} (held : Held N sh bag) (q : QueueId L D)
    (group : Nat) : Held N (sh.pickNextTask N q group).1 bag := by
  unfold Shared.pickNextTask
  split <;> exact held.queues _ _

theorem pushed_light {i : Nat} {f : LoopFrame L D E} {q : QueueId L D} {t : QueuedTask L D E}
    (pushes : pushed job sh i f = some (q,t)) : Light (.stream i f) := by
  unfold pushed at pushes
  split at pushes
  · exact ⟨fun _ => by simp [ofStream,holds,driving,finishing,owns,ending],rfl,rfl⟩
  · cases pushes

theorem Held.react {f : Frame L D E} {seed : Nat} (held : Held N sh (f ::ₘ rest))
    (kept : keeps sh f = true) (reacted : react job N sh f seed = some r) :
    Held N r.shared (r.frames + rest) := by
  cases f with
  | processAll => exact held.processAll kept reacted
  | stream i f =>
    simp only [ProcessAll.react] at reacted
    split at reacted
    · rename_i q t pushes
      cases reacted
      have light := pushed_light pushes
      unfold push
      split
      · exact (held.light light fun g member => by simp at member).queues _ _
      · refine ((held.light light ?_).queues _ sh.handedOver).pickNextTask q t.group
        simp [light_serialTask]
    · obtain ⟨inner,made,rfl⟩ := Option.map_eq_some_iff.mp reacted
      exact held.stream made
  | doneWaiting i e =>
    cases reacted
    obtain ⟨owners,streams,ended,finished,launched,single,refCount,submitted,executed,deleted,late⟩ := held
    constructor
    · simpa [ofStream] using owners
    · simpa [ofStream,finishing] using streams
    · simpa [ofStream] using ended
    · simpa [finishing] using finished
    · exact launched
    · exact single
    · exact refCount
    · exact submitted
    · simpa [executing] using executed
    · simpa [recycling] using deleted
    · exact late
  | decrement i =>
    cases reacted
    exact held.decrement kept
  | serialTask t =>
    simp only [ProcessAll.react] at reacted
    split at reacted <;> cases reacted
    refine held.light (light_serialTask t) ?_
    simp [light_runModule,light_finishedTask]
  | finishedTask g q =>
    cases seed with
    | zero =>
      cases reacted
      have new : ∀ h ∈ (finishedTask N sh g q).frames, Light h := by
        intro h member
        rcases List.mem_append.mp (Multiset.mem_coe.mp member) with member | member
        · obtain ⟨t,_,rfl⟩ := List.mem_map.mp member
          exact light_serialTask t
        · obtain ⟨t,_,rfl⟩ := List.mem_map.mp member
          exact light_serialTask t
      exact (held.light (light_finishedTask g q) new).pickNextTask q g
    | succ n =>
      cases reacted
      exact (held.light (light_finishedTask g q) fun h member => by simp at member).queues _ sh.handedOver
  | lastTask g =>
    cases reacted
    obtain ⟨owners,streams,ended,finished,launched,single,refCount,submitted,executed,deleted,late⟩ := held
    constructor
    · simpa [ofStream,Shared.lastTask] using owners
    · simpa [ofStream,finishing,Shared.lastTask] using streams
    · simpa [ofStream,Shared.lastTask] using ended
    · simpa [finishing,Shared.lastTask] using finished
    · exact launched
    · exact single
    · exact refCount
    · exact submitted
    · simp [executing,Shared.lastTask] at executed ⊢
      omega
    · simp [recycling,Shared.lastTask] at deleted ⊢
      omega
    · exact late
  | recycle g =>
    cases reacted
    obtain ⟨owners,streams,ended,finished,launched,single,refCount,submitted,executed,deleted,late⟩ := held
    constructor
    · simpa [ofStream] using owners
    · simpa [ofStream,finishing] using streams
    · simpa [ofStream] using ended
    · simpa [finishing] using finished
    · exact launched
    · exact single
    · exact refCount
    · exact submitted
    · simpa [executing] using executed
    · simp [recycling] at deleted ⊢
      omega
    · exact late

theorem Held.next {s t : State L D E} {a : Nat × Nat} (held : Held N s.shared s.bag) (kept : Kept s a)
    (taken : next job N s a = some t) : Held N t.shared t.bag := by
  unfold ProcessAll.next at taken
  split at taken
  · cases taken
  · obtain ⟨f,r,rest,reacted,shared,before,after,top⟩ := Pool.step_bag taken
    rw [before] at held
    rw [shared,after]
    exact held.react (kept f top) reacted

theorem initial_held (some : 0 < N) (source : List Nat) :
    Held N (initial L D E N source).shared (initial L D E N source).bag := by
  constructor
  · simp [initial,Schedule.fresh,Pool.bag,ofStream]
  · simp [initial,Schedule.fresh,Pool.bag,ofStream,finishing]
  · simp [initial]
  · simp [initial,Pool.bag,finishing]
  · intro i
    have once : (List.range' 1 (N - 1) ++ [0]).Nodup := by
      rw [List.nodup_append]
      refine ⟨List.nodup_range',List.nodup_singleton 0,fun a member b zero => ?_⟩
      rw [List.mem_range'_1] at member
      rw [List.mem_singleton] at zero
      omega
    have streams : i ∈ List.range' 1 (N - 1) ++ [0] ↔ i < N := by
      rw [List.mem_append,List.mem_range'_1,List.mem_singleton]
      omega
    simp [initial,Main.unlaunched,once.count,streams]
  · simp [initial]
  · simp [initial,Main.holders]
  · simp [initial,Main.unlaunched]
  · simp [initial,Pool.bag,executing]
  · simp [initial,Pool.bag,recycling]
  · simp [initial]

omit [DecidableEq L] [DecidableEq D] in
theorem idle_light {s : State L D E} (resting : ∀ g, idle s g = true) (weight : Frame L D E → Nat)
    (active : ∀ f, 0 < weight f → f.group.isSome = true ∧ parked s.shared f = false) :
    weigh weight s.bag = 0 := by
  refine weigh_light fun f member => ?_
  by_contra heavy
  obtain ⟨grouped,unparked⟩ := active f (Nat.pos_of_ne_zero heavy)
  obtain ⟨g,group⟩ := Option.isSome_iff_exists.mp grouped
  have rests := List.all_eq_true.mp (resting g) f member
  simp [busy,group,unparked] at rests

/-- In a run in which no holder is the last one while streams are left to launch, `lastTask` runs
at most once, when every stream has got its last answer, and no holder of it is made after its
count has dropped to zero. It has run, and is deleted, when all that is over. -/
theorem lastTask_runs_once (job : Job L D E) (N : Nat) (source : List Nat) (some : 0 < N)
    (s : State L D E) (run : Reaches (next job N) Kept (initial L D E N source) s) :
    (s.shared.executed ≤ 1 ∧ s.shared.deleted ≤ s.shared.executed ∧ s.shared.late = 0) ∧
    (0 < s.shared.executed → ∀ i < N, i ∈ s.shared.ended) ∧
    (s.shared.main.holders = 0 → (∀ i < N, i ∈ s.shared.ended) → (∀ g, idle s g = true) →
      s.shared.executed = 1 ∧ s.shared.deleted = 1) := by
  have preserved (s : State L D E) (a : Nat × Nat) (t : State L D E) (held : Held N s.shared s.bag)
      (kept : Kept s a) (taken : next job N s a = Option.some t) : Held N t.shared t.bag :=
    held.next kept taken
  have held := run.invariant preserved (initial_held some source)
  obtain ⟨owners,streams,ended,finished,launched,single,refCount,submitted,executed,deleted,late⟩ := held
  refine ⟨⟨?_,by omega,late⟩,?_,?_⟩
  · split at submitted <;> omega
  · intro ran i bound
    split at submitted
    · rename_i quiet
      have none : s.shared.holding = [] := List.length_eq_zero_iff.mp (by omega)
      have launch := launched i
      simpa [quiet.1,none,bound] using launch
    · omega
  · intro loop answered resting
    have inside (i : Nat) (out : 0 < s.shared.main.unlaunched.count i ∨ i ∈ s.shared.holding) : i < N := by
      have launch := launched i
      by_contra outside
      rw [if_neg outside] at launch
      rcases out with more | holding
      · omega
      · simp [holding] at launch
    have launches : s.shared.main.unlaunched = [] := by
      refine List.eq_nil_iff_forall_not_mem.mpr fun i member => ?_
      have more := List.count_pos_iff.mpr member
      have launch := launched i
      rw [if_pos (Or.inr (answered i (inside i (Or.inl more)))),if_pos (inside i (Or.inl more))] at launch
      omega
    have released : s.shared.holding = [] := by
      refine List.eq_nil_iff_forall_not_mem.mpr fun i member => ?_
      have more := List.count_pos_iff.mpr member
      have quiet := ended i (answered i (inside i (Or.inr member)))
      have finishes := idle_light resting (finishing i) fun f heavy => by
        cases f <;> simp [finishing,Frame.group,parked] at heavy ⊢
      have stream := streams i
      omega
    have executes := idle_light resting executing fun f heavy => by
      cases f <;> simp [executing,Frame.group,parked] at heavy ⊢
    have recycles := idle_light resting recycling fun f heavy => by
      cases f <;> simp [recycling,Frame.group,parked] at heavy ⊢
    rw [if_pos ⟨launches,by simp [refCount,released,loop]⟩] at submitted
    omega

def onePath : Job Nat Unit Unit where
  filters := [⟨0,.threadSafeBetweenInstances,[],[],fun _ _ _ => ⟨[],true,none⟩⟩]
  producers := []
  paths := [[0]]

/-- Two streams share an event. Stream 0 finds the source empty while stream 1 processes it. -/
theorem lastTask_runs_once_twoStreams : ∃ s,
    execute (next onePath 2) (initial Nat Unit Unit 2 [0])
      (turns [(28,0),(4,3),(3,2),(3,4),(3,1),(2,5),(4,6),(2,7)]) = some s ∧
    s.shared.late = 0 ∧ s.shared.executed = 1 ∧ s.shared.deleted = 1 := by
  have ran : (execute (next onePath 2) (initial Nat Unit Unit 2 [0])
      (turns [(28,0),(4,3),(3,2),(3,4),(3,1),(2,5),(4,6),(2,7)])).map (fun s => decide
        (s.shared.main.holders = 0 ∧ (∀ i : Nat, i < 2 → i ∈ s.shared.ended) ∧
          s.threads.flatten.all fun f => f.group.isNone)) = some true := by decide
  obtain ⟨s,ran,quiet⟩ := Option.map_eq_some_iff.mp ran
  obtain ⟨loop,answered,left⟩ := of_decide_eq_true quiet
  have once := lastTask_runs_once onePath 2 [0] (by decide) s (execute_reaches _ (by decide) ran)
  refine ⟨s,ran,once.1.2.2,once.2.2 loop answered fun g => ?_⟩
  refine List.all_eq_true.mpr fun f member => ?_
  have outside := List.all_eq_true.mp left f member
  simp [busy,Option.isNone_iff_eq_none.mp outside]

/-- Stream 1 finds the source empty before stream 0 is launched: `lastTask` is executed and
deleted, and then used again. -/
theorem emptySource_runs_twice : ∃ s,
    Reachable (next (⟨[],[],[]⟩ : Job Nat Unit Unit) 2) (initial Nat Unit Unit 2 []) s ∧
      0 < s.shared.late ∧ s.shared.executed = 2 ∧ s.shared.deleted = 2 := by
  have ran : (execute (next (⟨[],[],[]⟩ : Job Nat Unit Unit) 2) (initial Nat Unit Unit 2 [])
      (turns [(15,0),(2,1),(2,2)])).map (fun s => decide
        (0 < s.shared.late ∧ s.shared.executed = 2 ∧ s.shared.deleted = 2)) = some true := by decide
  obtain ⟨s,ran,twice⟩ := Option.map_eq_some_iff.mp ran
  exact ⟨s,execute_reachable _ ran,of_decide_eq_true twice⟩

end Invariant
end ToyMtFramework.ProcessAll
