import ToyMtFramework.Core.Family
import ToyMtFramework.ProcessAllGroups
import ToyMtFramework.ProcessAllLastTask
import ToyMtFramework.ScheduleJournal

/-! The streams of `processAll`, each as a stream of its own. A frame of the job acts for one stream,
and that stream does what `Loop` lets it do; its other frames are on the threads, in the serial
queues and among the streams that are yet to be launched. So what a stream by itself keeps,
with its log and its journal, every stream of the job keeps. -/
namespace ToyMtFramework.ProcessAll
open Activities Transition
open Schedule (Job Wrapper Entry)
open Schedule.Loop (LoopFrame LoopShared Journal logged journalled)

variable {L D E : Type}

/-- A task in a serial queue, as the stream that pushed it has it. -/
def QueuedTask.frame (t : QueuedTask L D E) : LoopFrame L D E :=
  .schedule (.queued t.wrapper t.exceptionPtr)

def acts : Frame L D E → Option (Nat × LoopFrame L D E)
  | .stream i f => some (i,f)
  | .serialTask t => some (t.group,t.frame)
  | _ => none

def Frame.inStream (i : Nat) (f : Frame L D E) : Multiset (LoopFrame L D E) :=
  match acts f with
  | some (j,g) => if j = i then {g} else 0
  | none => 0

def QueuedTask.inStream (i : Nat) (t : QueuedTask L D E) : Multiset (LoopFrame L D E) :=
  if t.group = i then {t.frame} else 0

def streamBag (i : Nat) (main : Main E) (bag : Multiset (Frame L D E))
    (waiting : Multiset (QueueId L D × QueuedTask L D E)) : Multiset (LoopFrame L D E) :=
  bag.bind (Frame.inStream i) + (waiting.map Prod.snd).bind (QueuedTask.inStream i) +
    Multiset.replicate (main.unlaunched.count i) (.handleNextEventAsync none)

section Queues
variable [DecidableEq L] [DecidableEq D]

def Queued (sh : Shared L D E) (waiting : Multiset (QueueId L D × QueuedTask L D E)) : Prop :=
  ∀ q, members q waiting = ↑(sh.queues q).tasks

theorem Queued.pop {sh : Shared L D E} {waiting : Multiset (QueueId L D × QueuedTask L D E)}
    (queued : Queued sh waiting) {q : QueueId L D} {t : QueuedTask L D E} {ts : List (QueuedTask L D E)}
    (tasks : (sh.queues q).tasks = t :: ts) (chosen : Bool) :
    ∃ left, waiting = (q,t) ::ₘ left ∧ Queued (sh.setQueue q ⟨ts,chosen⟩) left := by
  have member : (q,t) ∈ waiting := by
    rw [← mem_members,queued q,tasks]
    exact Multiset.mem_coe.mpr List.mem_cons_self
  obtain ⟨left,rfl⟩ := Multiset.exists_cons_of_mem member
  refine ⟨left,rfl,fun p => ?_⟩
  have before := queued p
  by_cases same : p = q
  · subst p
    rw [members_cons_self,tasks,← Multiset.cons_coe] at before
    simpa [Shared.setQueue] using (Multiset.cons_inj_right _).mp before
  · rw [members_cons_of_ne p (Ne.symm same)] at before
    simpa [Shared.setQueue,same] using before

theorem Queued.push {sh : Shared L D E} {waiting : Multiset (QueueId L D × QueuedTask L D E)}
    (queued : Queued sh waiting) (q : QueueId L D) (t : QueuedTask L D E) :
    Queued (sh.setQueue q {sh.queues q with tasks := (sh.queues q).tasks ++ [t]}) ((q,t) ::ₘ waiting) := by
  intro p
  have before := queued p
  by_cases same : p = q
  · subst p
    rw [members_cons_self,before]
    simp only [Shared.setQueue,Function.update_self]
    rw [← Multiset.coe_add,Multiset.coe_singleton,add_comm,Multiset.singleton_add]
  · rw [members_cons_of_ne p (Ne.symm same),before]
    simp [Shared.setQueue,same]

/-- Only the choice changes, or nothing at all. -/
theorem Queued.same {sh after : Shared L D E} {waiting : Multiset (QueueId L D × QueuedTask L D E)}
    (queued : Queued sh waiting) (tasks : ∀ q, (after.queues q).tasks = (sh.queues q).tasks) :
    Queued after waiting := by
  intro q
  rw [tasks]
  exact queued q

theorem pickNextTask_source (N : Nat) (sh : Shared L D E) (q : QueueId L D) (group : Nat) :
    (sh.pickNextTask N q group).1.source = sh.source := by
  unfold Shared.pickNextTask
  split <;> rfl

/-- What is picked leaves its queue. -/
theorem pickNextTask_queued {N : Nat} {sh : Shared L D E}
    {waiting : Multiset (QueueId L D × QueuedTask L D E)} (queued : Queued sh waiting) (q : QueueId L D)
    (group : Nat) : ∃ left, Queued (sh.pickNextTask N q group).1 left ∧
      waiting.map Prod.snd = ↑(sh.pickNextTask N q group).2.toList + left.map Prod.snd := by
  unfold Shared.pickNextTask
  split
  · rename_i none
    refine ⟨waiting,queued.same fun p => ?_,by simp⟩
    by_cases same : p = q
    · subst p
      simp [Shared.setQueue,none]
    · simp [Shared.setQueue,same]
  · rename_i t ts tasks
    obtain ⟨left,rfl,after⟩ := queued.pop tasks true
    exact ⟨left,after,by simp⟩

end Queues

section Bags
variable (i : Nat) (main : Main E) (waiting : Multiset (QueueId L D × QueuedTask L D E))

theorem streamBag_add (first second : Multiset (Frame L D E)) : streamBag i main (first + second) waiting =
    first.bind (Frame.inStream i) + streamBag i main second waiting := by
  rw [streamBag,streamBag,Multiset.add_bind,add_assoc,add_assoc,add_assoc]

theorem streamBag_cons (f : Frame L D E) (bag : Multiset (Frame L D E)) :
    streamBag i main (f ::ₘ bag) waiting = f.inStream i + streamBag i main bag waiting := by
  rw [streamBag,streamBag,Multiset.cons_bind,add_assoc,add_assoc,add_assoc]

@[simp] theorem inStream_cons (f : Frame L D E) (frames : List (Frame L D E)) :
    (↑(f :: frames) : Multiset (Frame L D E)).bind (Frame.inStream i) =
      f.inStream i + (↑frames : Multiset (Frame L D E)).bind (Frame.inStream i) := by
  rw [← Multiset.cons_coe,Multiset.cons_bind]

theorem inStream_streams (frames : List (LoopFrame L D E)) (j : Nat) :
    (↑(frames.map (Frame.stream j)) : Multiset (Frame L D E)).bind (Frame.inStream i) =
      if j = i then ↑frames else 0 := by
  induction frames with
  | nil => simp
  | cons f frames ih =>
    rw [List.map_cons,inStream_cons,ih]
    by_cases same : j = i <;> simp [Frame.inStream,acts,same]

theorem inStream_serialTasks (tasks : List (QueuedTask L D E)) :
    (↑(tasks.map Frame.serialTask) : Multiset (Frame L D E)).bind (Frame.inStream i) =
      (↑tasks : Multiset (QueuedTask L D E)).bind (QueuedTask.inStream i) := by
  induction tasks with
  | nil => rfl
  | cons t tasks ih =>
    rw [List.map_cons,inStream_cons,ih,← Multiset.cons_coe,Multiset.cons_bind]
    rfl

/-- What is taken from the queues is on the threads. -/
theorem streamBag_picked {left : Multiset (QueueId L D × QueuedTask L D E)} {tasks : List (QueuedTask L D E)}
    (split : waiting.map Prod.snd = ↑tasks + left.map Prod.snd) (bag : Multiset (Frame L D E)) :
    streamBag i main bag waiting =
      (↑(tasks.map Frame.serialTask) : Multiset (Frame L D E)).bind (Frame.inStream i) + streamBag i main bag left := by
  rw [streamBag,streamBag,split,Multiset.add_bind,inStream_serialTasks]
  ac_rfl

end Bags

section Turns
variable [DecidableEq L] [DecidableEq D]

/-- What a frame of the job does for its streams: it acts for one of them, or for none. -/
inductive Turns (job : Job L D E) (sh : Shared L D E) (f : Frame L D E) (seed : Nat)
    (r : Reaction (Shared L D E) (Frame L D E)) (waiting left : Multiset (QueueId L D × QueuedTask L D E)) : Prop
  | silent (none : acts f = none) (streams : r.shared.streams = sh.streams) (source : r.shared.source = sh.source)
      (bags : ∀ j rest, streamBag j r.shared.main (r.frames + rest) left = streamBag j sh.main rest waiting) :
      Turns job sh f seed r waiting left
  | acting (i : Nat) (g : LoopFrame L D E) (x : Reaction (LoopShared L D E) (LoopFrame L D E))
      (mine : acts f = some (i,g)) (reacted : Schedule.Loop.react job ⟨sh.streams i,sh.source⟩ g seed = some x)
      (own : r.shared.streams i = x.shared.schedule) (source : r.shared.source = x.shared.source)
      (others : ∀ j, j ≠ i → r.shared.streams j = sh.streams j ∨
        (x.shared.schedule.fatal = true ∧ r.shared.streams j = {sh.streams j with fatal := true}))
      (bags : ∀ j rest, streamBag j r.shared.main (r.frames + rest) left =
        (if i = j then x.frames else 0) + streamBag j sh.main rest waiting) : Turns job sh f seed r waiting left

variable {job : Job L D E} {N seed : Nat} {sh : Shared L D E} {r : Reaction (Shared L D E) (Frame L D E)}
  {waiting : Multiset (QueueId L D × QueuedTask L D E)}

omit [DecidableEq L] [DecidableEq D] in
theorem run_silent (i g : Nat) (sh : Shared L D E) :
    (↑(sh.run g) : Multiset (Frame L D E)).bind (Frame.inStream i) = 0 := by
  unfold Shared.run
  split <;> simp [Frame.inStream,acts]

theorem processAll_turns (queued : Queued sh waiting) (reacted : processAll N sh = some r) :
    Queued r.shared waiting ∧ Turns job sh .processAll seed r waiting waiting := by
  have main := reacted
  unfold ProcessAll.processAll at main
  split at main
  · rename_i here
    cases main
    exact ⟨queued.same fun _ => rfl,.silent rfl rfl rfl fun j rest => by
      simp [Frame.inStream,acts,streamBag,here,Main.unlaunched]⟩
  · rename_i n ns here
    cases main
    exact ⟨queued.same fun _ => rfl,.silent rfl rfl rfl fun j rest => by
      simp [Frame.inStream,acts,streamBag,Shared.hold,here,Main.unlaunched]⟩
  · rename_i n ns here
    cases main
    refine ⟨queued.same fun _ => rfl,.silent rfl rfl rfl fun j rest => ?_⟩
    by_cases same : n = j
    · simp [Frame.inStream,acts,streamBag,Shared.hold,here,Main.unlaunched,same,
        Multiset.replicate_succ]
    · simp [Frame.inStream,acts,streamBag,Shared.hold,here,Main.unlaunched,same]
  · rename_i n ns here
    cases main
    refine ⟨queued.same fun _ => rfl,.silent rfl rfl rfl fun j rest => ?_⟩
    rw [streamBag_add,Reaction.frames_mk,← Multiset.coe_add,Multiset.add_bind,run_silent]
    simp [Frame.inStream,acts,streamBag,here,Main.unlaunched]
  · rename_i g here
    cases main
    refine ⟨queued.same fun _ => rfl,.silent rfl rfl rfl fun j rest => ?_⟩
    simp only [Reaction.frames_mk,streamBag_add]
    split <;> simp [Frame.inStream,acts,streamBag,here,Main.unlaunched]
  · rename_i here
    split at main <;> cases main
    · exact ⟨queued.same fun _ => rfl,.silent rfl rfl rfl fun j rest => by
        simp [streamBag,here,Main.unlaunched]⟩
    · exact ⟨queued.same fun _ => rfl,.silent rfl rfl rfl fun j rest => by
        simp [Frame.inStream,acts,streamBag,here,Main.unlaunched]⟩
  · cases main

theorem runQueue_hasQueue {w : Wrapper L D} {q : QueueId L D} (queue : runQueue job w = some q) :
    job.hasQueue w = true := by
  unfold runQueue at queue
  unfold Job.hasQueue
  cases found : job.module w with
  | none => simp [found] at queue
  | some m =>
    rw [found] at queue
    cases type : m.threadType <;> simp [type] at queue ⊢

/-- A stream pushes a task in a queue. -/
theorem push_turns (queued : Queued sh waiting) {i : Nat} {f : LoopFrame L D E} {q : QueueId L D}
    {t : QueuedTask L D E} (pushes : pushed job sh i f = some (q,t)) :
    ∃ left, Queued (push N sh q t).shared left ∧ Turns job sh (.stream i f) seed (push N sh q t) waiting left := by
  unfold pushed at pushes
  split at pushes
  · rename_i w
    obtain ⟨p,queue,same⟩ := Option.map_eq_some_iff.mp pushes
    obtain ⟨same,rfl⟩ := Prod.mk.inj same
    subst p
    have reacted : Schedule.Loop.react job ⟨sh.streams i,sh.source⟩ (.schedule (.execute (.runModule w))) seed =
        some ⟨⟨sh.streams i,sh.source⟩,[],[.schedule (.queued w ((sh.streams i).exceptionPtr (.runModule w)))]⟩ := by
      simp [Schedule.Loop.react,Schedule.react,runQueue_hasQueue queue,Schedule.Loop.recursiveTask]
    have added := queued.push q ⟨i,w,(sh.streams i).exceptionPtr (.runModule w),.work⟩
    have bags (j : Nat) (rest : Multiset (Frame L D E)) : streamBag j sh.main rest
        ((q,⟨i,w,(sh.streams i).exceptionPtr (.runModule w),.work⟩) ::ₘ waiting) =
          (if i = j then ↑[LoopFrame.schedule (.queued w ((sh.streams i).exceptionPtr (.runModule w)))] else 0) +
            streamBag j sh.main rest waiting := by
      rw [streamBag,streamBag,Multiset.map_cons,Multiset.cons_bind,QueuedTask.inStream]
      by_cases same : i = j
      · simp only [same,if_true,QueuedTask.frame,Multiset.coe_singleton]
        ac_rfl
      · simp only [same,if_false,zero_add]
    unfold push
    split
    · exact ⟨_,added,.acting i _ _ rfl reacted rfl rfl (fun _ _ => Or.inl rfl) fun j rest => by
        simpa [Shared.setQueue] using bags j rest⟩
    · obtain ⟨left,after,split⟩ := pickNextTask_queued (N := N) added q i
      have picked := pickNextTask_picked N (sh.setQueue q ⟨(sh.queues q).tasks ++
        [⟨i,w,(sh.streams i).exceptionPtr (.runModule w),.work⟩],(sh.queues q).taskChosen⟩) q i
      refine ⟨left,after,.acting i _ _ rfl reacted ?_ ?_ ?_ fun j rest => ?_⟩
      · exact congrFun picked.streams i
      · exact pickNextTask_source N _ q i
      · exact fun j _ => Or.inl (congrFun picked.streams j)
      · refine Eq.trans ?_ (bags j rest)
        rw [streamBag_picked j sh.main _ split,streamBag_add,Reaction.frames,List.nil_append]
        exact congrArg _ (congrArg (fun main => streamBag j main rest left) picked.main)
  · cases pushes

/-- Every frame of the job acts for at most one stream. -/
theorem react_turns (queued : Queued sh waiting) {f : Frame L D E} (reacted : react job N sh f seed = some r) :
    ∃ left, Queued r.shared left ∧ Turns job sh f seed r waiting left := by
  cases f with
  | processAll => exact ⟨waiting,processAll_turns queued reacted⟩
  | stream i f =>
    simp only [react] at reacted
    split at reacted
    · rename_i q t pushes
      cases reacted
      exact push_turns queued pushes
    · obtain ⟨x,made,rfl⟩ := Option.map_eq_some_iff.mp reacted
      refine ⟨waiting,queued.same fun _ => rfl,.acting i f x rfl made (by simp [Shared.setStream]) rfl ?_ ?_⟩
      · intro j other
        cases set : x.shared.schedule.fatal with
        | false => exact Or.inl (by simp [Shared.setStream,other,set])
        | true => exact Or.inr ⟨rfl,by simp [Shared.setStream,other,set]⟩
      · intro j rest
        have none : (↑((answer sh.source f).toList.map (Frame.doneWaiting (L := L) (D := D) i)) :
            Multiset (Frame L D E)).bind (Frame.inStream j) = 0 := by
          cases answer sh.source f <;> simp [Frame.inStream,acts]
        rw [streamBag_add,Reaction.frames_mk,← Multiset.coe_add,← Multiset.coe_add,Multiset.add_bind,
          Multiset.add_bind,none,inStream_streams,inStream_streams,Reaction.frames,← Multiset.coe_add]
        by_cases same : i = j <;> simp [same,Shared.setStream,streamBag]
  | doneWaiting i e =>
    cases reacted
    exact ⟨waiting,queued.same fun _ => rfl,.silent rfl rfl rfl fun j rest => by
      simp [Frame.inStream,acts,streamBag]⟩
  | decrement i =>
    cases reacted
    refine ⟨waiting,queued.same fun _ => rfl,.silent rfl rfl rfl fun j rest => ?_⟩
    rw [streamBag_add,Reaction.frames_mk,List.nil_append,run_silent,zero_add]
    rfl
  | serialTask t =>
    simp only [react] at reacted
    split at reacted <;> cases reacted
    refine ⟨waiting,queued,.acting t.group t.frame
      ⟨⟨sh.streams t.group,sh.source⟩,[.schedule (.runModule t.wrapper t.exceptionPtr)],[]⟩ rfl rfl rfl rfl
        (fun _ _ => Or.inl rfl) fun j rest => ?_⟩
    by_cases same : t.group = j <;> simp [Frame.inStream,acts,streamBag,same]
  | finishedTask i q =>
    cases seed with
    | succ n =>
      cases reacted
      refine ⟨waiting,queued.same fun p => ?_,.silent rfl rfl rfl fun j rest => by simp [streamBag,Shared.setQueue]⟩
      by_cases same : p = q
      · subst p
        simp [Shared.setQueue]
      · simp [Shared.setQueue,same]
    | zero =>
      cases reacted
      obtain ⟨left,after,split⟩ := pickNextTask_queued (N := N) queued q i
      have picked := pickNextTask_picked N sh q i
      refine ⟨left,after,.silent rfl picked.streams (pickNextTask_source N sh q i) fun j rest => ?_⟩
      · rw [streamBag_picked j sh.main _ split,streamBag_add]
        cases task : (sh.pickNextTask N q i).2 with
        | none => simp [finishedTask,task,picked.main,streamBag]
        | some t => by_cases same : t.group = i <;> simp [finishedTask,task,picked.main,streamBag,Option.filter,same]
  | lastTask g =>
    cases reacted
    exact ⟨waiting,queued.same fun _ => rfl,.silent rfl rfl rfl fun j rest => by
      simp [Frame.inStream,acts,streamBag,Shared.lastTask]⟩
  | recycle g =>
    cases reacted
    exact ⟨waiting,queued.same fun _ => rfl,.silent rfl rfl rfl fun j rest => by simp [streamBag]⟩

end Turns
end ToyMtFramework.ProcessAll
