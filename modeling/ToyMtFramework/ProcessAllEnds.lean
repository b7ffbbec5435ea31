import ToyMtFramework.ProcessAllResult
import ToyMtFramework.ProcessAllThreads
import ToyMtFramework.ScheduleLoopEnds
import Mathlib.Algebra.Order.BigOperators.Group.Finset

/-! `processAll` returns, whatever its modules throw and in whatever order the threads act. All that the
threads do besides waiting is bounded, and where only the loop that waits is left it finds `done` set. The
conditions are those without which the code loses a task, or `lastTask` runs early. -/
namespace ToyMtFramework.ProcessAll
open Activities Transition
open Schedule (Job Wrapper Entry)
open Schedule.Loop (LoopFrame LoopShared Reporting reportingRule loopEffort eventEffort)

variable {L D E : Type} [DecidableEq L] [DecidableEq D] {job : Job L D E}

/-- What the loop has yet to do until all streams are launched. -/
def Main.effort : Main E → Nat
  | .launch ns => 6 * ns.length + 1
  | .copyHolder _ ns => 6 * ns.length + 6
  | .destroyHolder _ ns => 6 * ns.length + 5
  | _ => 0

def aside : Frame L D E → Nat
  | .doneWaiting _ _ => 4
  | .decrement _ => 3
  | .lastTask _ => 2
  | .recycle _ | .finishedTask _ _ => 1
  | _ => 0

def polls (sh : Shared L D E) : Frame L D E → Bool
  | .processAll =>
    match sh.main with
    | .wait _ | .testDone => true
    | _ => false
  | _ => false

section Effort
variable (acyclic : job.Acyclic) (N : Nat) (sh : Shared L D E) (bag : Multiset (Frame L D E))
  (waiting : Multiset (QueueId L D × QueuedTask L D E))

noncomputable def streamsEffort : Nat :=
  ∑ i ∈ Finset.range N, weigh (loopEffort acyclic (sh.streams i).index) (streamBag i sh.main bag waiting) +
    sh.source.length * eventEffort acyclic

noncomputable def jobEffort : Nat :=
  5 * streamsEffort acyclic N sh bag waiting + weigh aside bag + sh.main.effort

end Effort

section Steps
variable {N seed : Nat} {sh : Shared L D E} {f : Frame L D E} {rest : Multiset (Frame L D E)}
  {r : Reaction (Shared L D E) (Frame L D E)} {records : Nat → Record L D E}
  {waiting : Multiset (QueueId L D × QueuedTask L D E)}

omit [DecidableEq L] [DecidableEq D] in
theorem run_aside (sh : Shared L D E) (n : Nat) : weigh aside (↑(sh.run n) : Multiset (Frame L D E)) ≤ 2 := by
  unfold Shared.run
  split <;> simp [aside]

/-- What follows a frame of a stream and is not of the stream is less than a step of the stream pays for. -/
theorem aside_stream {own : Nat × LoopFrame L D E} (mine : acts f = some own)
    (reacted : react job N sh f seed = some r) : weigh aside r.frames ≤ 4 := by
  cases f with
  | stream i g =>
    simp only [react] at reacted
    split at reacted
    · rename_i q t pushes
      cases reacted
      have none : weigh aside (push N sh q t).frames = 0 := by
        refine Activities.weigh_light fun h member => ?_
        rw [Reaction.frames,push_calls,List.nil_append] at member
        obtain ⟨u,rfl⟩ := push_spawned (Multiset.mem_coe.mp member)
        rfl
      omega
    · obtain ⟨x,made,rfl⟩ := Option.map_eq_some_iff.mp reacted
      have told : weigh aside (streamFrames i x (answer sh.source g)) ≤ 4 := by
        rw [weigh_streamFrames_light fun _ => rfl]
        cases answer sh.source g <;> simp [aside]
      exact told
  | serialTask t =>
    simp only [react] at reacted
    split at reacted <;> cases reacted
    simp [aside]
  | _ => cases mine

/-- What is not of a stream is made less, unless the loop waits. -/
theorem aside_react (none : acts f = none) (reacted : react job N sh f seed = some r) :
    weigh aside r.frames + r.shared.main.effort + (if polls sh f then 0 else 1) ≤ aside f + sh.main.effort := by
  cases f with
  | stream i g => cases none
  | serialTask t => cases none
  | processAll =>
    have main : processAll N sh = some r := reacted
    unfold ProcessAll.processAll at main
    split at main
    · rename_i here
      cases main
      simp [aside,polls,Main.effort,here]
    · rename_i n ns here
      cases main
      simp [aside,polls,Main.effort,here,Shared.hold]
      omega
    · rename_i n ns here
      cases main
      simp [aside,polls,Main.effort,here,Shared.hold]
    · rename_i n ns here
      cases main
      have after := run_aside sh n
      simp only [weigh_coe] at after
      simp [aside,polls,Main.effort,here]
      omega
    · rename_i g here
      cases main
      simp only [polls,here]
      split <;> simp [aside,Main.effort]
    · rename_i here
      split at main <;> cases main <;> simp [aside,polls,Main.effort,here]
    · cases main
  | decrement i =>
    cases reacted
    have after := run_aside sh i
    simp only [weigh_coe] at after
    simp [aside,polls,Shared.drop]
    omega
  | finishedTask i q =>
    cases seed with
    | zero =>
      cases reacted
      have calm : weigh aside (finishedTask N sh i q).frames = 0 := by
        rw [finishedTask_frames]
        cases (sh.pickNextTask N q i).2 <;> simp [aside]
      have main : (finishedTask N sh i q).shared.main = sh.main := (pickNextTask_picked N sh q i).main
      rw [calm,main]
      simp [aside,polls,Nat.add_comm]
    | succ n =>
      cases reacted
      simp [aside,polls,Shared.setQueue,Nat.add_comm]
  | _ =>
    cases reacted
    simp only [Reaction.frames_mk,List.append_nil,weigh_coe,List.map_cons,List.map_nil,List.sum_cons,
      List.sum_nil,aside,polls,Shared.lastTask,Bool.false_eq_true,if_false]
    omega

/-- Every turn leaves less to do, unless the loop waits. -/
theorem jobEffort_react (acyclic : job.Acyclic)
    (keep : StreamsKeep (Reporting job) N sh (f ::ₘ rest) records waiting)
    (reacted : react job N sh f seed = some r) : ∃ left, Queued r.shared left ∧
      jobEffort acyclic N r.shared (r.frames + rest) left + (if polls sh f then 0 else 1) ≤
        jobEffort acyclic N sh (f ::ₘ rest) waiting := by
  obtain ⟨left,queued,turns⟩ := react_turns keep.queued reacted
  refine ⟨left,queued,?_⟩
  rw [jobEffort,jobEffort,weigh_add,weigh_cons]
  cases turns with
  | silent none streams source bags =>
    have less := aside_react none reacted
    have same : streamsEffort acyclic N r.shared (r.frames + rest) left =
        streamsEffort acyclic N sh (f ::ₘ rest) waiting := by
      simp only [streamsEffort,streams,source,bags,streamBag_cons,Frame.inStream,none,zero_add]
    omega
  | acting i g x mine moved own source others bags =>
    have short := aside_stream mine reacted
    have other : f ≠ .processAll := by
      rintro rfl
      cases mine
    have main := react_main other reacted
    have works : polls sh f = false := by
      cases f with
      | processAll => exact absurd rfl other
      | _ => rfl
    have member : i ∈ Finset.range N := Finset.mem_range.mpr (keep.bound mine)
    have split : streamBag i sh.main (f ::ₘ rest) waiting = g ::ₘ streamBag i sh.main rest waiting := by
      rw [streamBag_cons,Frame.inStream,mine]
      simp
    have own_phase : Schedule.Loop.Phase job _ _ (LoopShared.mk (sh.streams i) sh.source).schedule _ _ :=
      (keep.streams i (keep.bound mine)).phase
    have less := own_phase.less_effort acyclic split moved
    have rest_same (j : Nat) (inside : j ∈ (Finset.range N).erase i) :
        weigh (loopEffort acyclic (r.shared.streams j).index) (streamBag j r.shared.main (r.frames + rest) left) =
          weigh (loopEffort acyclic (sh.streams j).index) (streamBag j sh.main (f ::ₘ rest) waiting) := by
      have apart := Finset.ne_of_mem_erase inside
      have index : (r.shared.streams j).index = (sh.streams j).index := by
        rcases others j apart with still | ⟨_,still⟩ <;> rw [still]
      rw [index,bags,if_neg (Ne.symm apart),zero_add,streamBag_cons,Frame.inStream,mine]
      simp [Ne.symm apart]
    have here : weigh (loopEffort acyclic (r.shared.streams i).index)
        (streamBag i r.shared.main (r.frames + rest) left) =
          weigh (loopEffort acyclic x.shared.schedule.index) (x.frames + streamBag i sh.main rest waiting) := by
      rw [own,bags,if_pos rfl]
    have total : streamsEffort acyclic N r.shared (r.frames + rest) left <
        streamsEffort acyclic N sh (f ::ₘ rest) waiting := by
      rw [streamsEffort,streamsEffort,← Finset.add_sum_erase _ _ member,← Finset.add_sum_erase _ _ member,
        Finset.sum_congr rfl rest_same,here,source]
      rw [Schedule.Loop.streamEffort,Schedule.Loop.streamEffort] at less
      dsimp only at less ⊢
      omega
    rw [main,works]
    simp only [Bool.false_eq_true,if_false]
    omega

end Steps

open Classical in
noncomputable def waitingTasks (sh : Shared L D E) : Multiset (QueueId L D × QueuedTask L D E) :=
  if listed : ∃ waiting, Queued sh waiting then listed.choose else 0

theorem Queued.all {sh : Shared L D E} {waiting : Multiset (QueueId L D × QueuedTask L D E)}
    (queued : Queued sh waiting) : waitingTasks sh = waiting := by
  have listed : ∃ waiting, Queued sh waiting := ⟨waiting,queued⟩
  rw [waitingTasks,dif_pos listed]
  exact members_ext fun q => (listed.choose_spec q).trans (queued q).symm

noncomputable def effort (acyclic : job.Acyclic) (N : Nat) (s : State L D E) : Nat :=
  jobEffort acyclic N s.shared s.bag (waitingTasks s.shared)

/-- No module is reset under a call of `doWorkAsync`, no holder of `lastTask` is the last one while streams
are left to launch, and no pick misses a task. -/
def Sound (s : State L D E) (a : Nat × Nat) : Prop :=
  Quiet s a ∧ Kept s a ∧ Prompt s a

structure Proceeding (job : Job L D E) (N : Nat) (source : List Nat) (s : State L D E × (Nat → Record L D E)) :
    Prop where
  working : Working (Reporting job) N source s
  served : Served job s.1.shared s.1.bag
  threaded : Threaded s.1
  ended : 0 < s.1.shared.executed → s.1.shared.done = true

section Runs
variable {N seed : Nat} {source : List Nat} {sh : Shared L D E} {f : Frame L D E}
  {r : Reaction (Shared L D E) (Frame L D E)} {s t : State L D E × (Nat → Record L D E)} {a : Nat × Nat}

/-- Only `lastTask` sets `done`. -/
theorem react_done (reacted : react job N sh f seed = some r) :
    (r.shared.executed = sh.executed ∧ r.shared.done = sh.done) ∨ r.shared.done = true := by
  have picked (sh : Shared L D E) (q : QueueId L D) (group : Nat) :
      (sh.pickNextTask N q group).1.executed = sh.executed ∧ (sh.pickNextTask N q group).1.done = sh.done := by
    unfold Shared.pickNextTask
    split <;> exact ⟨rfl,rfl⟩
  cases f with
  | processAll =>
    have main : processAll N sh = some r := reacted
    unfold ProcessAll.processAll at main
    split at main
    · cases main
      exact Or.inl ⟨rfl,rfl⟩
    · cases main
      exact Or.inl ⟨rfl,rfl⟩
    · cases main
      exact Or.inl ⟨rfl,rfl⟩
    · cases main
      exact Or.inl ⟨rfl,rfl⟩
    · cases main
      exact Or.inl ⟨rfl,rfl⟩
    · split at main <;> cases main <;> exact Or.inl ⟨rfl,rfl⟩
    · cases main
  | stream i g =>
    simp only [react] at reacted
    split at reacted
    · cases reacted
      unfold push
      split
      · exact Or.inl ⟨rfl,rfl⟩
      · exact Or.inl (picked _ _ _)
    · obtain ⟨x,made,rfl⟩ := Option.map_eq_some_iff.mp reacted
      exact Or.inl ⟨rfl,rfl⟩
  | serialTask t =>
    simp only [react] at reacted
    split at reacted <;> cases reacted
    exact Or.inl ⟨rfl,rfl⟩
  | finishedTask i q =>
    cases seed with
    | zero =>
      cases reacted
      exact Or.inl (picked _ _ _)
    | succ n =>
      cases reacted
      exact Or.inl ⟨rfl,rfl⟩
  | lastTask g =>
    cases reacted
    exact Or.inr rfl
  | _ =>
    cases reacted
    exact Or.inl ⟨rfl,rfl⟩

def pollsNext (s : State L D E) (a : Nat × Nat) : Bool :=
  (s.top a.1).any (polls s.shared)

theorem Proceeding.next (proceeding : Proceeding job N source s) (acyclic : job.Acyclic) (sound : Sound s.1 a)
    (taken : nextRecorded job N s a = some t) : Proceeding job N source t ∧
      effort acyclic N t.1 + (if pollsNext s.1 a then 0 else 1) ≤ effort acyclic N s.1 := by
  obtain ⟨working,served,threaded,ended⟩ := proceeding
  obtain ⟨quiet,kept,prompt⟩ := sound
  have workingAfter := working.next (reportingRule job) quiet kept taken
  obtain ⟨moved,_⟩ := recording_taken taken
  have servedAfter := served.next prompt moved
  have threadedAfter := threaded.next moved
  unfold ProcessAll.next at moved
  split at moved
  · cases moved
  · obtain ⟨f,r,rest,reacted,shared,before,after,top⟩ := Pool.step_bag moved
    refine ⟨⟨workingAfter,servedAfter,threadedAfter,fun executed => ?_⟩,?_⟩
    · rw [shared] at executed ⊢
      rcases react_done reacted with ⟨same,kept⟩ | set
      · rw [kept]
        exact ended (same ▸ executed)
      · exact set
    · obtain ⟨waiting,keep⟩ := working.streams
      rw [before] at keep
      obtain ⟨left,queued,less⟩ := jobEffort_react acyclic keep reacted
      rw [effort,effort,shared,after,before,queued.all,keep.queued.all,pollsNext,top,Option.any_some]
      exact less

theorem Proceeding.initial (job : Job L D E) (some : 0 < N) (source : List Nat) :
    Proceeding job N source (ProcessAll.initial L D E N source,noRecords L D E) :=
  ⟨Working.initial (reportingRule job) some source,Served.initial job N source,Threaded.initial N source,
    fun executed => absurd executed (Nat.lt_irrefl 0)⟩

end Runs

def again (sh : Shared L D E) : Frame L D E → Bool
  | .processAll =>
    match sh.main with
    | .testDone => !sh.done
    | _ => false
  | _ => false

/-- A turn with which `processAll` comes closer to its end. -/
def Goes (s : State L D E) (a : Nat × Nat) : Prop :=
  Sound s a ∧ ∀ f ∈ s.top a.1, again s.shared f = false

section Stops
variable {N : Nat} {source : List Nat} {sh : Shared L D E} {f : Frame L D E} {bag : Multiset (Frame L D E)}
  {s : State L D E × (Nat → Record L D E)} {records : Nat → Record L D E}
  {waiting : Multiset (QueueId L D × QueuedTask L D E)}

/-- Where `processAll` does not come closer to its end no frame can act that may. -/
theorem stopped_still (stops : Stops (nextRecorded job N) (fun t a => Goes t.1 a) s) {k : Nat}
    (top : s.1.top k = some f)
    (quiet : ∀ own ∈ acts f, ∀ w ∈ Schedule.Loop.resetting own.2,
      weigh (ofStream (Schedule.Loop.calling w) own.1) s.1.bag = 0)
    (kept : keeps s.1.shared f = true) (free : (f.isProcessAll && blocked s.1) = false)
    (onward : again s.1.shared f = false) : react job N s.1.shared f 0 = none := by
  by_contra goes
  obtain ⟨r,reacted⟩ := Option.ne_none_iff_exists'.mp goes
  obtain ⟨t,taken⟩ := Pool.top_acts top reacted
  have prompt : picks s.1.shared 0 f = true := by cases f <;> simp [picks]
  have none := stops (k,0) ⟨⟨by simpa [Quiet,top] using quiet,by simpa [Kept,top] using kept,
    by simpa [Prompt,top] using prompt⟩,by simpa [top] using onward⟩
  simp only [nextRecorded,recording,ProcessAll.next,top,Option.any_some,free,Bool.false_eq_true,if_false,taken,
    Option.map_some] at none
  cases none

/-- What calls others can act. -/
theorem plain_goes (closed : job.Closed) (keep : StreamsKeep (Reporting job) N sh bag records waiting)
    (served : Served job sh bag) (member : f ∈ bag) (calm : plain f = true) : react job N sh f 0 ≠ none := by
  cases f with
  | processAll => cases calm
  | stream i g =>
    have inside : g ∈ streamBag i sh.main bag waiting := by
      rw [streamBag,Multiset.mem_add,Multiset.mem_add,mem_inStream]
      exact Or.inl (Or.inl ⟨_,member,rfl⟩)
    have bound : i < N := by
      by_contra outside
      rw [keep.others i (by omega)] at inside
      cases inside
    simp only [react]
    split
    · simp
    · cases g with
      | schedule f =>
        have own : Reporting job (LoopShared.mk (sh.streams i) sh.source).schedule _ _ _ := keep.streams i bound
        have free : ¬Schedule.Parked f := by
          cases f <;> first | exact id | cases calm
        obtain ⟨x,made⟩ := own.goes_on closed inside free
        simp [made]
      | _ => cases calm
  | serialTask t =>
    obtain ⟨q,queue⟩ := Option.isSome_iff_exists.mp (served.tasks t member)
    simp [react,queue]
  | _ => simp [react]

/-- What is between two events can act. -/
theorem control_acts (between : control f = true) : react job N sh f 0 ≠ none := by
  cases f with
  | stream i g =>
    have outside (h : Schedule.Frame L D E) : g ≠ .schedule h := by
      rintro rfl
      cases between
    have unpushed : pushed job sh i g = none := by
      cases g <;> first | rfl | exact absurd rfl (outside _)
    have acts : ∃ x, Schedule.Loop.react job ⟨sh.streams i,sh.source⟩ g 0 = some x :=
      Schedule.Loop.control_goes outside
    obtain ⟨x,made⟩ := acts
    simp [react,unpushed,made]
  | _ => cases between

omit [DecidableEq L] [DecidableEq D] in
/-- The loop goes on until it returns. -/
theorem loop_goes (going : ∀ e, sh.main ≠ .returned e) : processAll N sh ≠ none := by
  unfold processAll
  split
  any_goals simp
  · split <;> simp
  · rename_i e here
    exact going e here

/-- Then the loop has launched all streams, or is about to release the last holder. -/
theorem Proceeding.launched (proceeding : Proceeding job N source s)
    (stops : Stops (nextRecorded job N) (fun t a => Goes t.1 a) s) (going : ∀ e, s.1.shared.main ≠ .returned e) :
    (∃ g, s.1.shared.main = .wait g) ∨ s.1.shared.main = .testDone ∨
      ∃ n ns, s.1.shared.main = .destroyHolder n ns := by
  have busy (away : ∀ n ns, s.1.shared.main ≠ .destroyHolder n ns)
      (launching : keeps s.1.shared .processAll = true ∧ blocked s.1 = false ∧ again s.1.shared .processAll = false) :
      False := by
    obtain ⟨k,top⟩ := proceeding.threaded.loop_top going away
    obtain ⟨kept,free,onward⟩ := launching
    exact loop_goes going (stopped_still stops top (by simp [acts]) kept (by simp [free]) onward)
  cases main : s.1.shared.main with
  | launch ns => exact (busy (by simp [main]) (by simp [keeps,blocked,again,main])).elim
  | copyHolder n ns => exact (busy (by simp [main]) (by simp [keeps,blocked,again,main])).elim
  | destroyHolder n ns => exact Or.inr (Or.inr ⟨n,ns,rfl⟩)
  | wait g => exact Or.inl ⟨g,rfl⟩
  | testDone => exact Or.inr (Or.inl rfl)
  | returned e => exact absurd main (going e)

/-- What the frames are then: the loop, and tasks in lists that are not done. -/
theorem Proceeding.resting (proceeding : Proceeding job N source s) (closed : job.Closed)
    (stops : Stops (nextRecorded job N) (fun t a => Goes t.1 a) s) (going : ∀ e, s.1.shared.main ≠ .returned e) :
    (∀ stack ∈ s.1.threads, stack = [] ∨ ∃ f, stack = [f]) ∧
    ∀ f ∈ s.1.bag, f = .processAll ∨
      ∃ i l t, f = .stream i (.schedule (.node l t)) ∧ ((s.1.shared.streams i).list l).waiting = true := by
  obtain ⟨waiting,keep⟩ := proceeding.working.streams
  have launched := proceeding.launched stops going
  -- The holder of a stream may be released when the loop is not between two of them.
  have released (i : Nat) : keeps s.1.shared (.decrement i) = true := by
    rcases launched with ⟨g,main⟩ | main | ⟨n,ns,main⟩ <;> simp [keeps,main]
  have tops {k : Nat} {f : Frame L D E} (top : s.1.top k = some f) : plain f = false := by
    by_contra calm
    have calm : plain f = true := by simpa using calm
    refine plain_goes closed keep proceeding.served (Pool.top_mem top) calm (stopped_still stops top ?_ ?_ ?_ ?_)
    · rintro ⟨i,g⟩ own w resets
      cases f with
      | stream j h =>
        cases own
        cases g <;> first | cases resets | cases calm
      | serialTask t =>
        cases own
        cases resets
      | _ => cases own
    · cases f <;> first | rfl | exact released _ | cases calm
    · cases f <;> first | rfl | cases calm
    · cases f <;> first | rfl | cases calm
  have shapes (stack : List (Frame L D E)) (listed : stack ∈ s.1.threads) : stack = [] ∨ stack = [.processAll] ∨
      (∃ f, stack = [f] ∧ f ≠ .processAll ∧ plain f = false) ∨ ∃ c, stack = [c,.processAll] ∧ control c = true := by
    obtain ⟨k,place⟩ := List.mem_iff_getElem?.mp listed
    refine (proceeding.threaded.shaped k stack place).idle fun f first => tops (k := k) ?_
    rw [Pool.top,place]
    exact first
  have flat (f : Frame L D E) (member : f ∈ s.1.bag) :
      plain f = false ∧ (f = .processAll ∨ ∃ k, s.1.top k = some f) := by
    obtain ⟨stack,listed,inside⟩ := List.mem_flatten.mp (Multiset.mem_coe.mp member)
    obtain ⟨k,place⟩ := List.mem_iff_getElem?.mp listed
    rcases shapes stack listed with rfl | rfl | ⟨g,rfl,_,calm⟩ | ⟨c,rfl,between⟩
    · cases inside
    · obtain rfl := List.mem_singleton.mp inside
      exact ⟨rfl,Or.inl rfl⟩
    · obtain rfl := List.mem_singleton.mp inside
      exact ⟨calm,Or.inr ⟨k,by rw [Pool.top,place]; rfl⟩⟩
    · have top : s.1.top k = some c := by rw [Pool.top,place]; rfl
      rcases List.mem_cons.mp inside with rfl | inside
      · exact ⟨tops top,Or.inr ⟨k,top⟩⟩
      · obtain rfl := List.mem_singleton.mp inside
        exact ⟨rfl,Or.inl rfl⟩
  have uncalled (w : Wrapper L D) (i : Nat) : weigh (ofStream (Schedule.Loop.calling w) i) s.1.bag = 0 := by
    refine Activities.weigh_light fun f member => ?_
    have calm := (flat f member).1
    cases f with
    | stream j g =>
      cases g with
      | schedule f =>
        cases f with
        | startWork v added => cases calm
        | _ => simp [ofStream,Schedule.Loop.calling]
      | _ => simp [ofStream,Schedule.Loop.calling]
    | _ => rfl
  have calm {f : Frame L D E} (member : f ∈ s.1.bag) (other : f ≠ .processAll) :
      react job N s.1.shared f 0 = none := by
    obtain ⟨still,loop | ⟨k,top⟩⟩ := flat f member
    · exact absurd loop other
    · refine stopped_still stops top (fun own _ w _ => uncalled w own.1) ?_ ?_ ?_
      · cases f <;> first | rfl | exact absurd rfl other | cases still
      · cases f <;> first | rfl | exact absurd rfl other
      · cases f <;> first | rfl | exact absurd rfl other
  refine ⟨fun stack listed => ?_,fun f member => ?_⟩
  · rcases shapes stack listed with rfl | rfl | ⟨g,rfl,_⟩ | ⟨c,rfl,between⟩
    · exact Or.inl rfl
    · exact Or.inr ⟨_,rfl⟩
    · exact Or.inr ⟨g,rfl⟩
    · have member : c ∈ s.1.bag :=
        Multiset.mem_coe.mpr (List.mem_flatten_of_mem listed (List.mem_cons_self ..))
      refine absurd (calm member ?_) (control_acts between)
      rintro rfl
      cases between
  · by_cases loop : f = .processAll
    · exact Or.inl loop
    · have none := calm member loop
      have still := (flat f member).1
      cases f with
      | processAll => exact absurd rfl loop
      | stream i g =>
        by_cases between : control (.stream i g : Frame L D E) = true
        · exact absurd none (control_acts between)
        · cases g with
          | schedule f =>
            cases f with
            | node l t =>
              refine Or.inr ⟨i,l,t,rfl,?_⟩
              by_contra resumed
              simp [react,pushed,Schedule.Loop.react,Schedule.react,resumed] at none
            | _ => cases still
          | _ => exact absurd rfl between
      | _ => cases still

/-- Where `processAll` does not come closer to its end it has returned, or is about to release the last
holder with streams left to launch. -/
theorem Proceeding.stopped (proceeding : Proceeding job N source s) (closed : job.Closed)
    (stops : Stops (nextRecorded job N) (fun t a => Goes t.1 a) s) :
    (∃ e, s.1.shared.main = .returned e) ∨ keeps s.1.shared .processAll = false := by
  by_contra neither
  obtain ⟨running,kept⟩ := not_or.mp neither
  have going (e : Option E) : s.1.shared.main ≠ .returned e := fun returned => running ⟨e,returned⟩
  have kept : keeps s.1.shared .processAll = true := by simpa using kept
  obtain ⟨single,frames⟩ := proceeding.resting closed stops going
  obtain ⟨k,top⟩ : ∃ k, s.1.top k = some .processAll := by
    obtain ⟨stack,listed,inside⟩ := List.mem_flatten.mp (Multiset.mem_coe.mp (proceeding.threaded.present going))
    obtain ⟨k,place⟩ := List.mem_iff_getElem?.mp listed
    rcases single stack listed with rfl | ⟨f,rfl⟩
    · cases inside
    · obtain rfl := List.mem_singleton.mp inside
      exact ⟨k,by rw [Pool.top,place]; rfl⟩
  -- No group has anything to do, so the loop is not blocked.
  have free : blocked s.1 = false := by
    unfold blocked
    split
    · rename_i g here
      rw [Bool.not_eq_false',idle,List.all_eq_true]
      intro f member
      rcases frames f (Multiset.mem_coe.mpr member) with rfl | ⟨i,l,t,rfl,waiting⟩
      · rfl
      · simp [busy,parked,waiting]
    · rfl
  have waits : again s.1.shared .processAll = true := by
    by_contra onward
    exact loop_goes going (stopped_still stops top (by simp [acts]) kept (by simp [free]) (by simpa using onward))
  obtain ⟨main,undone⟩ : s.1.shared.main = .testDone ∧ s.1.shared.done = false := by
    cases main : s.1.shared.main <;> simp [again,main] at waits
    exact ⟨rfl,waits⟩
  have unlaunched : s.1.shared.main.unlaunched = [] := by rw [main]; rfl
  obtain ⟨waiting,keep⟩ := proceeding.working.streams
  have queues : waiting = 0 := members_ext fun q => by
    rw [keep.queued q,proceeding.served.empty (fun f member => ?_) q]
    · rfl
    · rcases frames f member with rfl | ⟨i,l,t,rfl,_⟩ <;> rfl
  have rested (i : Nat) (inside : i < N) : streamBag i s.1.shared.main s.1.bag waiting = 0 ∧
      ∀ t, (s.1.shared.streams i).refCount t = 0 := by
    have own : Reporting job (LoopShared.mk (s.1.shared.streams i) s.1.shared.source).schedule _ _ _ :=
      keep.streams i inside
    refine own.empty closed.acyclic fun g member => ?_
    rw [streamBag,queues,unlaunched] at member
    obtain ⟨f,present,mine⟩ := mem_inStream.mp (by simpa using member)
    rcases frames f present with rfl | ⟨j,l,t,rfl,waits⟩
    · cases mine
    · cases mine
      exact ⟨l,t,rfl,waits⟩
  have held := proceeding.working.held
  have absent (f : Frame L D E) (member : f ∈ s.1.bag) : f = .processAll := by
    rcases frames f member with loop | ⟨i,l,t,rfl,_⟩
    · exact loop
    · have inside : LoopFrame.schedule (.node l t) ∈ streamBag i s.1.shared.main s.1.bag waiting := by
        rw [streamBag,Multiset.mem_add,Multiset.mem_add,mem_inStream]
        exact Or.inl (Or.inl ⟨_,member,rfl⟩)
      by_cases bound : i < N
      · rw [(rested i bound).1] at inside
        cases inside
      · rw [keep.others i (by omega)] at inside
        cases inside
  have light (weight : Frame L D E → Nat) (none : weight .processAll = 0) : weigh weight s.1.bag = 0 :=
    Activities.weigh_light fun f member => by rw [absent f member,none]
  have unheld : s.1.shared.holding = [] := by
    refine List.eq_nil_iff_forall_not_mem.mpr fun i member => ?_
    have counted := List.count_pos_iff.mpr member
    by_cases inside : i < N
    · have streams := held.streams i
      rw [light _ rfl,light _ rfl,(rested i inside).2] at streams
      omega
    · have launched := held.launched i
      rw [if_pos (Or.inl member),if_neg inside] at launched
      omega
  have submitted := held.submitted
  have executed := held.executed
  rw [unlaunched,held.refCount,unheld,main,if_pos ⟨rfl,rfl⟩] at submitted
  rw [light _ rfl,submitted] at executed
  have set := proceeding.ended (by omega)
  rw [undone] at set
  cases set

end Stops

/-- How far the loop has to wait. -/
def Main.rank (N : Nat) : Main E → Nat
  | .wait g => N - g + 2
  | .testDone => 1
  | _ => 0

theorem Main.rank_le (N : Nat) (main : Main E) : main.rank N ≤ N + 2 := by
  cases main <;> simp [Main.rank]

section Ends
variable {N : Nat} {source : List Nat} {s t : State L D E × (Nat → Record L D E)} {a : Nat × Nat}

omit [DecidableEq L] [DecidableEq D] in
/-- The loop that waits goes through the groups, and then returns unless it has to do so again. -/
theorem polls_rank {sh : Shared L D E} {r : Reaction (Shared L D E) (Frame L D E)}
    (polling : polls sh .processAll = true) (onward : again sh .processAll = false)
    (reacted : processAll N sh = some r) : r.shared.main.rank N < sh.main.rank N := by
  unfold processAll at reacted
  cases main : sh.main with
  | wait g =>
    rw [main] at reacted
    cases reacted
    by_cases more : g + 1 < N
    · simp [Main.rank,more]
      omega
    · simp [Main.rank,more]
  | testDone =>
    simp only [again,main,Bool.not_eq_false'] at onward
    simp only [main,onward,if_true] at reacted
    cases reacted
    simp [Main.rank]
  | _ => simp [polls,main] at polling

/-- A turn that is not in vain brings `processAll` closer to its end. -/
theorem Proceeding.closer (proceeding : Proceeding job N source s) (acyclic : job.Acyclic) (goes : Goes s.1 a)
    (taken : nextRecorded job N s a = some t) :
    (N + 3) * effort acyclic N t.1 + t.1.shared.main.rank N <
      (N + 3) * effort acyclic N s.1 + s.1.shared.main.rank N := by
  obtain ⟨sound,onward⟩ := goes
  have less := (proceeding.next acyclic sound taken).2
  obtain ⟨moved,_⟩ := recording_taken taken
  unfold ProcessAll.next at moved
  split at moved
  · cases moved
  · obtain ⟨f,r,rest,reacted,shared,_,_,top⟩ := Pool.step_bag moved
    rw [pollsNext,top,Option.any_some] at less
    cases polling : polls s.1.shared f with
    | false =>
      rw [polling] at less
      have bound := t.1.shared.main.rank_le N
      have scaled := Nat.mul_le_mul_left (N + 3) less
      simp only [Bool.false_eq_true,if_false,Nat.mul_add] at scaled
      omega
    | true =>
      obtain rfl : f = .processAll := by
        cases f <;> first | rfl | cases polling
      have rank := polls_rank polling (onward _ top) reacted
      rw [polling] at less
      have scaled := Nat.mul_le_mul_left (N + 3) less
      rw [shared]
      simp only [if_true,Nat.add_zero] at scaled
      omega

end Ends

/-- `processAll` returns in the end, whatever its modules throw and in whatever order the threads act. A run
has no more turns than a bound, those of the loop that waits apart; until the call has returned there is a
turn that brings it closer to its end, and the run can be taken on to there. The exception is where
the launching loop is about to release the last holder of `lastTask`. -/
theorem processAll_ends (job : Job L D E) (closed : job.Closed) (N : Nat) (some : 0 < N) (source : List Nat) :
    ∃ bound, ∀ actions s records,
      Admitted (nextRecorded job N) (fun t a => Sound t.1 a) (initial L D E N source,noRecords L D E) actions →
      execute (nextRecorded job N) (initial L D E N source,noRecords L D E) actions = Option.some (s,records) →
      tally (nextRecorded job N) (fun t a => !pollsNext t.1 a) (initial L D E N source,noRecords L D E) actions ≤
        bound ∧
      ((∀ e, s.shared.main ≠ .returned e) → keeps s.shared .processAll = true →
        ∃ a t, Goes s a ∧ nextRecorded job N (s,records) a = Option.some t) ∧
      ∃ more t, Admitted (nextRecorded job N) (fun t a => Sound t.1 a) (s,records) more ∧
        execute (nextRecorded job N) (s,records) more = Option.some t ∧
        ((∃ e, t.1.shared.main = .returned e) ∨ keeps t.1.shared .processAll = false) := by
  have kept (s : State L D E × (Nat → Record L D E)) (a : Nat × Nat) (t : State L D E × (Nat → Record L D E))
      (proceeding : Proceeding job N source s) (sound : Sound s.1 a)
      (taken : nextRecorded job N s a = Option.some t) : Proceeding job N source t :=
    (proceeding.next closed.acyclic sound taken).1
  have less (s : State L D E × (Nat → Record L D E)) (a : Nat × Nat) (t : State L D E × (Nat → Record L D E))
      (proceeding : Proceeding job N source s) (sound : Sound s.1 a)
      (taken : nextRecorded job N s a = Option.some t) :
      effort closed.acyclic N t.1 + (if !pollsNext s.1 a then 1 else 0) ≤ effort closed.acyclic N s.1 := by
    have step := (proceeding.next closed.acyclic sound taken).2
    cases polling : pollsNext s.1 a <;> simpa [polling] using step
  refine ⟨effort closed.acyclic N (initial L D E N source),fun actions s records admitted ran => ?_⟩
  have start := Proceeding.initial job some source
  have proceeding : Proceeding job N source (s,records) :=
    (execute_reaches actions admitted ran).invariant kept start
  have short := admitted.tally_bounded kept less actions start ran
  refine ⟨Nat.le_of_add_right_le short,fun going keeping => ?_,?_⟩
  · by_contra stuck
    have stops : Stops (nextRecorded job N) (fun t a => Goes t.1 a) (s,records) := by
      intro a goes
      by_contra moves
      obtain ⟨t,taken⟩ := Option.ne_none_iff_exists'.mp moves
      exact stuck ⟨a,t,goes,taken⟩
    rcases proceeding.stopped closed stops with ⟨e,returned⟩ | lost
    · exact going e returned
    · rw [keeping] at lost
      cases lost
  · obtain ⟨more,t,admits,ran,stops⟩ := stops_reached
      (fun s a t proceeding goes taken => kept s a t proceeding goes.1 taken)
      (fun s a t proceeding goes taken => proceeding.closer closed.acyclic goes taken) (s,records) proceeding
    have sound := admits.weaken (fun _ _ goes => goes.1) more
    have reached : Proceeding job N source t := (execute_reaches more sound ran).invariant kept proceeding
    exact ⟨more,t,sound,ran,reached.stopped closed stops⟩

open Schedule (sharedFilter sharedFilter_plain)

/-- Two streams with two events. -/
theorem processAll_ends_sharedFilter : ∃ actions s records,
    execute (nextRecorded sharedFilter 2) (initial Nat Unit Unit 2 [3,4],noRecords Nat Unit Unit) actions =
      some (s,records) ∧ ((∃ e, s.shared.main = .returned e) ∨ keeps s.shared .processAll = false) := by
  obtain ⟨bound,ends⟩ := processAll_ends sharedFilter sharedFilter_plain.closed 2 (by decide) [3,4]
  obtain ⟨_,_,actions,⟨s,records⟩,_,ran,ended⟩ := ends [] _ _ trivial rfl
  exact ⟨actions,s,records,ran,ended⟩

end ToyMtFramework.ProcessAll
