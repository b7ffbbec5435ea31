import ToyMtFramework.Core.Halting
import ToyMtFramework.ProcessAllGroups
import ToyMtFramework.ScheduleEffort

/-! What is on the threads of `processAll` and in its serial queues. The loop is at the bottom of its
thread and has something above it only while it launches a stream; a task in a list is alone. A queue
that holds a task is being served, as long as no pick misses one. -/
namespace ToyMtFramework.ProcessAll
open Activities Transition
open Schedule (Job Wrapper)
open Schedule.Loop (LoopFrame LoopShared)

variable {L D E : Type}

def picks (sh : Shared L D E) (choice : Nat) : Frame L D E → Bool
  | .finishedTask _ q => choice == 0 || (sh.queues q).tasks.isEmpty
  | _ => true

def Prompt (s : State L D E) (a : Nat × Nat) : Prop :=
  ∀ f ∈ s.top a.1, picks s.shared a.2 f = true

instance (s : State L D E) (a : Nat × Nat) : Decidable (Prompt s a) :=
  inferInstanceAs (Decidable (∀ f ∈ s.top a.1, picks s.shared a.2 f = true))

def control : Frame L D E → Bool
  | .stream _ (.schedule _) => false
  | .stream _ _ => true
  | _ => false

def plain : Frame L D E → Bool
  | .processAll | .stream _ (.schedule (.node _ _)) => false
  | f => !control f

inductive Shaped (main : Main E) : List (Frame L D E) → Prop
  | spawned (f : Frame L D E) (other : f ≠ .processAll) : Shaped main [f]
  | frames (stack : List (Frame L D E)) (calls : ∀ f ∈ stack, plain f = true) : Shaped main stack
  | loop : Shaped main [.processAll]
  | launching (n : Nat) (ns : List Nat) (c : Frame L D E) (at_main : main = .destroyHolder n ns)
      (between : control c = true) : Shaped main [c,.processAll]
  | launched (n : Nat) (ns : List Nat) (stack : List (Frame L D E)) (at_main : main = .destroyHolder n ns)
      (calls : ∀ f ∈ stack, plain f = true) : Shaped main (stack ++ [.processAll])

structure Threaded (s : State L D E) : Prop where
  shaped : ∀ (k : Nat) stack, s.threads[k]? = some stack → Shaped s.shared.main stack
  first : ∀ (k : Nat) stack, s.threads[k]? = some stack → .processAll ∈ stack → k = 0
  present : (∀ e, s.shared.main ≠ .returned e) → .processAll ∈ s.bag

section Threads
variable [DecidableEq L] [DecidableEq D] {job : Job L D E} {N seed : Nat} {sh : Shared L D E} {f : Frame L D E}
  {r : Reaction (Shared L D E) (Frame L D E)}

omit [DecidableEq L] [DecidableEq D] in
theorem plain_alone (calm : plain f = true) : f ≠ .processAll ∧ control f = false := by
  cases f with
  | stream i g => cases g <;> simp_all [plain,control]
  | _ => simp_all [plain,control]

/-- What a stream calls is what calls others, or what takes the place of the caller. -/
theorem stream_calls {i : Nat} {g : LoopFrame L D E} {x : Reaction (LoopShared L D E) (LoopFrame L D E)}
    (reacted : Schedule.Loop.react job ⟨sh.streams i,sh.source⟩ g seed = some x) :
    (∀ h ∈ x.calls.map (Frame.stream i), plain h = true) ∨
      ∃ c : Frame L D E, x.calls.map (Frame.stream i) = [c] ∧ answer sh.source g = none ∧ control c = true ∧
        control (.stream i g : Frame L D E) = true := by
  cases g with
  | schedule f =>
    obtain ⟨inner,made,rfl⟩ := Option.map_eq_some_iff.mp reacted
    refine Or.inl fun h member => ?_
    obtain ⟨c,called,rfl⟩ := List.mem_map.mp member
    obtain ⟨d,inside,rfl⟩ := List.mem_map.mp called
    have goes := Schedule.calls_go (Schedule.react_reacts made) d inside
    cases d <;> first | rfl | exact absurd trivial goes
  | handleNextEventAsync e =>
    cases e with
    | none =>
      cases reacted
      exact Or.inr ⟨_,rfl,rfl,rfl,rfl⟩
    | some e =>
      cases reacted
      exact Or.inl (by simp)
  | eventReset ks step =>
    cases ks with
    | nil =>
      cases given : sh.source <;> simp only [Schedule.Loop.react,given] at reacted <;> cases reacted
      · exact Or.inl (by simp)
      · exact Or.inr ⟨_,rfl,rfl,rfl,rfl⟩
    | cons k ks => cases step <;> cases reacted <;> exact Or.inr ⟨_,rfl,rfl,rfl,rfl⟩
  | scheduleReset ls step =>
    cases ls with
    | nil =>
      cases reacted
      exact Or.inl (by simp [plain,control])
    | cons l ls => cases step <;> cases reacted <;> exact Or.inr ⟨_,rfl,rfl,rfl,rfl⟩

theorem push_calls (q : QueueId L D) (t : QueuedTask L D E) : (push N sh q t).calls = [] := by
  unfold push
  split <;> rfl

theorem react_calls (other : f ≠ .processAll) (reacted : react job N sh f seed = some r) :
    (∀ g ∈ r.calls, plain g = true) ∨ ∃ c, r.calls = [c] ∧ control c = true ∧ control f = true := by
  cases f with
  | processAll => exact absurd rfl other
  | stream i g =>
    simp only [react] at reacted
    split at reacted
    · cases reacted
      exact Or.inl (by simp [push_calls])
    · obtain ⟨x,made,rfl⟩ := Option.map_eq_some_iff.mp reacted
      rcases stream_calls made with calm | ⟨c,only,none,between,was⟩
      · refine Or.inl fun h member => ?_
        rcases List.mem_append.mp member with called | told
        · exact calm h called
        · obtain ⟨e,_,rfl⟩ := List.mem_map.mp told
          rfl
      · exact Or.inr ⟨c,by simp [only,none],between,was⟩
  | serialTask t =>
    simp only [react] at reacted
    split at reacted <;> cases reacted
    exact Or.inl (by simp [plain,control])
  | finishedTask i q =>
    cases seed with
    | zero =>
      cases reacted
      refine Or.inl fun g member => ?_
      obtain ⟨u,_,rfl⟩ := List.mem_map.mp member
      rfl
    | succ n =>
      cases reacted
      exact Or.inl (by simp)
  | _ =>
    cases reacted
    exact Or.inl (by simp [plain,control])

theorem push_spawned {q : QueueId L D} {t : QueuedTask L D E} {g : Frame L D E}
    (member : g ∈ (push N sh q t).spawned) : ∃ u, g = .serialTask u := by
  unfold push at member
  split at member
  · cases member
  · obtain ⟨u,_,rfl⟩ := List.mem_map.mp member
    exact ⟨u,rfl⟩

/-- Nothing spawns the loop. -/
theorem react_spawned (reacted : react job N sh f seed = some r) : .processAll ∉ r.spawned := by
  have run (n : Nat) : (.processAll : Frame L D E) ∉ sh.run n := by
    unfold Shared.run
    split <;> simp
  intro member
  cases f with
  | processAll =>
    have main : processAll N sh = some r := reacted
    unfold ProcessAll.processAll at main
    split at main
    · cases main
      cases member
    · cases main
      cases member
    · cases main
      cases member
    · rename_i n ns here
      cases main
      exact run n member
    · cases main
      cases member
    · split at main <;> cases main <;> cases member
    · cases main
  | stream i g =>
    simp only [react] at reacted
    split at reacted
    · cases reacted
      obtain ⟨u,same⟩ := push_spawned member
      cases same
    · obtain ⟨x,made,rfl⟩ := Option.map_eq_some_iff.mp reacted
      obtain ⟨h,_,same⟩ := List.mem_map.mp member
      cases same
  | decrement i =>
    cases reacted
    exact run i member
  | serialTask t =>
    simp only [react] at reacted
    split at reacted <;> cases reacted
    cases member
  | finishedTask i q =>
    cases seed with
    | zero =>
      cases reacted
      obtain ⟨u,_,same⟩ := List.mem_map.mp member
      cases same
    | succ n =>
      cases reacted
      cases member
  | _ =>
    cases reacted
    simp at member

omit [DecidableEq L] [DecidableEq D] in
/-- A thread on which another frame than the loop has acted. -/
theorem Shaped.acted {main : Main E} {below calls : List (Frame L D E)} (shaped : Shaped main (f :: below))
    (other : f ≠ .processAll)
    (called : (∀ g ∈ calls, plain g = true) ∨ ∃ c, calls = [c] ∧ control c = true ∧ control f = true) :
    Shaped main (calls ++ below) := by
  generalize whole : f :: below = stack at shaped
  cases shaped with
  | spawned g _ =>
    obtain ⟨rfl,rfl⟩ := List.cons.inj whole
    rw [List.append_nil]
    rcases called with calm | ⟨c,rfl,between,_⟩
    · exact .frames calls calm
    · refine .spawned c ?_
      rintro rfl
      cases between
  | frames _ before =>
    subst whole
    have calm := plain_alone (before f (List.mem_cons_self ..))
    rcases called with called | ⟨_,_,_,was⟩
    · refine .frames _ fun g member => ?_
      rcases List.mem_append.mp member with new | old
      · exact called g new
      · exact before g (List.mem_cons_of_mem f old)
    · rw [calm.2] at was
      cases was
  | loop => exact absurd (List.cons.inj whole).1 other
  | launching n ns c at_main between =>
    obtain ⟨rfl,rfl⟩ := List.cons.inj whole
    rcases called with calm | ⟨d,rfl,after,_⟩
    · exact .launched n ns calls at_main calm
    · exact .launching n ns d at_main after
  | launched n ns above at_main before =>
    cases above with
    | nil => exact absurd (List.cons.inj whole).1 other
    | cons g above =>
      obtain ⟨rfl,rfl⟩ := List.cons.inj whole
      have calm := plain_alone (before f (List.mem_cons_self ..))
      rcases called with called | ⟨_,_,_,was⟩
      · have placed : Shaped main ((calls ++ above) ++ [.processAll]) := by
          refine .launched n ns _ at_main fun g member => ?_
          rcases List.mem_append.mp member with new | old
          · exact called g new
          · exact before g (List.mem_cons_of_mem f old)
        rw [List.append_assoc] at placed
        exact placed
      · rw [calm.2] at was
        cases was

omit [DecidableEq L] [DecidableEq D] in
/-- A thread without the loop is what it was, wherever the loop goes. -/
theorem Shaped.elsewhere {main after : Main E} {stack : List (Frame L D E)} (shaped : Shaped main stack)
    (elsewhere : .processAll ∉ stack) : Shaped after stack := by
  cases shaped with
  | spawned f other => exact .spawned f other
  | frames _ calls => exact .frames _ calls
  | loop => exact absurd (List.mem_singleton_self _) elsewhere
  | launching n ns c at_main between => exact absurd (by simp) elsewhere
  | launched n ns above at_main calls => exact absurd (by simp) elsewhere

omit [DecidableEq L] [DecidableEq D] in
/-- The loop acts when nothing is above it. -/
theorem Shaped.alone {main : Main E} {below : List (Frame L D E)} (shaped : Shaped main (.processAll :: below)) :
    below = [] := by
  generalize whole : Frame.processAll :: below = stack at shaped
  cases shaped with
  | spawned f other => exact absurd (List.cons.inj whole).1.symm other
  | frames _ calls =>
    subst whole
    exact absurd (calls _ (List.mem_cons_self ..)) (by simp [plain])
  | loop => exact (List.cons.inj whole).2
  | launching n ns c at_main between =>
    obtain ⟨rfl,_⟩ := List.cons.inj whole
    cases between
  | launched n ns above at_main calls =>
    cases above with
    | nil => exact (List.cons.inj whole).2
    | cons g above =>
      obtain ⟨rfl,_⟩ := List.cons.inj whole
      exact absurd (calls _ (List.mem_cons_self ..)) (by simp [plain])

omit [DecidableEq L] [DecidableEq D] in
/-- A thread on which nothing calls others. -/
theorem Shaped.idle {main : Main E} {stack : List (Frame L D E)} (shaped : Shaped main stack)
    (first : ∀ f ∈ stack.head?, plain f = false) : stack = [] ∨ stack = [.processAll] ∨
      (∃ f, stack = [f] ∧ f ≠ .processAll ∧ plain f = false) ∨ ∃ c, stack = [c,.processAll] ∧ control c = true := by
  cases shaped with
  | spawned f other => exact Or.inr (Or.inr (Or.inl ⟨f,rfl,other,first f rfl⟩))
  | frames _ calls =>
    cases stack with
    | nil => exact Or.inl rfl
    | cons f stack =>
      have calm := calls f (List.mem_cons_self ..)
      rw [first f rfl] at calm
      cases calm
  | loop => exact Or.inr (Or.inl rfl)
  | launching n ns c at_main between => exact Or.inr (Or.inr (Or.inr ⟨c,rfl,between⟩))
  | launched n ns above at_main calls =>
    cases above with
    | nil => exact Or.inr (Or.inl rfl)
    | cons f above =>
      have calm := calls f (List.mem_cons_self ..)
      rw [first f rfl] at calm
      cases calm

omit [DecidableEq L] [DecidableEq D] in
/-- What the loop leaves on its thread. -/
theorem processAll_calls (reacted : processAll N sh = some r) : Shaped r.shared.main r.calls ∧
    ((∀ e, r.shared.main ≠ .returned e) → .processAll ∈ r.calls) := by
  unfold ProcessAll.processAll at reacted
  split at reacted
  · cases reacted
    exact ⟨.loop,by simp⟩
  · cases reacted
    exact ⟨.loop,by simp⟩
  · rename_i n ns here
    cases reacted
    exact ⟨.launching n ns _ rfl rfl,by simp⟩
  · cases reacted
    exact ⟨.loop,by simp⟩
  · cases reacted
    exact ⟨.loop,by simp⟩
  · split at reacted
    · cases reacted
      exact ⟨.frames [] (by simp),fun going => absurd rfl (going _)⟩
    · cases reacted
      exact ⟨.loop,by simp⟩
  · cases reacted

/-- Only the loop goes to another place. -/
theorem react_main (other : f ≠ .processAll) (reacted : react job N sh f seed = some r) :
    r.shared.main = sh.main := by
  obtain ⟨i,group⟩ : ∃ i, f.group = some i := by
    cases f with
    | processAll => exact absurd rfl other
    | _ => exact ⟨_,rfl⟩
  exact (react_turn group reacted).main

theorem Threaded.next {s t : State L D E} {a : Nat × Nat} (threaded : Threaded s)
    (taken : ProcessAll.next job N s a = some t) : Threaded t := by
  unfold ProcessAll.next at taken
  split at taken
  · cases taken
  · obtain ⟨f,stack,r,thread,top,reacted,shared,places⟩ := Pool.step_places taken
    obtain ⟨g,r',rest,reacted',_,before,after,top'⟩ := Pool.step_bag taken
    obtain rfl := Option.some.inj (top.symm.trans top')
    obtain rfl := Option.some.inj (reacted.symm.trans reacted')
    have spawned := react_spawned reacted
    have own := threaded.shaped a.1 _ thread
    by_cases acts : f = .processAll
    · subst acts
      obtain rfl := own.alone
      have here := threaded.first a.1 _ thread (List.mem_cons_self ..)
      have elsewhere {j : Nat} {other : List (Frame L D E)} (away : j ≠ a.1) (place : s.threads[j]? = some other) :
          .processAll ∉ other := fun inside => away ((threaded.first j other place inside).trans here.symm)
      obtain ⟨left,stays⟩ := processAll_calls reacted
      refine ⟨fun j other place => ?_,fun j other place inside => ?_,fun going => ?_⟩
      · rw [shared]
        rcases places j other place with ⟨away,old⟩ | ⟨rfl,rfl⟩ | ⟨g,new,rfl⟩
        · exact (threaded.shaped j other old).elsewhere (elsewhere away old)
        · rwa [List.append_nil]
        · refine .spawned g ?_
          rintro rfl
          exact spawned new
      · rcases places j other place with ⟨away,old⟩ | ⟨rfl,rfl⟩ | ⟨g,new,rfl⟩
        · exact absurd inside (elsewhere away old)
        · exact here
        · obtain rfl := List.mem_singleton.mp inside
          exact absurd new spawned
      · rw [shared] at going
        rw [after]
        exact Multiset.mem_add.mpr (Or.inl (Multiset.mem_coe.mpr (List.mem_append_left _ (stays going))))
    · have main := react_main acts reacted
      have called := react_calls acts reacted
      have kept : .processAll ∉ r.calls := by
        intro member
        rcases called with calm | ⟨c,only,between,_⟩
        · exact absurd (calm _ member) (by simp [plain])
        · rw [only,List.mem_singleton] at member
          rw [← member] at between
          cases between
      refine ⟨fun j other place => ?_,fun j other place inside => ?_,fun going => ?_⟩
      · rw [shared,main]
        rcases places j other place with ⟨_,old⟩ | ⟨rfl,rfl⟩ | ⟨g,new,rfl⟩
        · exact threaded.shaped j other old
        · exact own.acted acts called
        · refine .spawned g ?_
          rintro rfl
          exact spawned new
      · rcases places j other place with ⟨_,old⟩ | ⟨rfl,rfl⟩ | ⟨g,new,rfl⟩
        · exact threaded.first j other old inside
        · refine threaded.first _ _ thread (List.mem_cons_of_mem f ?_)
          exact (List.mem_append.mp inside).resolve_left kept
        · obtain rfl := List.mem_singleton.mp inside
          exact absurd new spawned
      · rw [shared,main] at going
        have present := threaded.present going
        rw [before] at present
        rw [after]
        exact Multiset.mem_add.mpr (Or.inr ((Multiset.mem_cons.mp present).resolve_left (Ne.symm acts)))

omit [DecidableEq L] [DecidableEq D] in
/-- The loop is next to act on its thread, unless it launches a stream. -/
theorem Threaded.loop_top {s : State L D E} (threaded : Threaded s) (going : ∀ e, s.shared.main ≠ .returned e)
    (away : ∀ n ns, s.shared.main ≠ .destroyHolder n ns) : ∃ k, s.top k = some .processAll := by
  obtain ⟨stack,listed,inside⟩ := List.mem_flatten.mp (Multiset.mem_coe.mp (threaded.present going))
  obtain ⟨k,place⟩ := List.mem_iff_getElem?.mp listed
  have shaped := threaded.shaped k stack place
  refine ⟨k,?_⟩
  rw [Pool.top,place]
  cases shaped with
  | spawned f other => exact absurd (List.mem_singleton.mp inside).symm other
  | frames _ calls => exact absurd (calls _ inside) (by simp [plain])
  | loop => rfl
  | launching n ns c at_main between => exact absurd at_main (away n ns)
  | launched n ns above at_main calls => exact absurd at_main (away n ns)

omit [DecidableEq L] [DecidableEq D] in
theorem Threaded.initial (N : Nat) (source : List Nat) : Threaded (ProcessAll.initial L D E N source) := by
  have only {k : Nat} {stack : List (Frame L D E)}
      (place : (ProcessAll.initial L D E N source).threads[k]? = some stack) : k = 0 ∧ stack = [.processAll] := by
    cases k with
    | zero => exact ⟨rfl,(Option.some.inj place).symm⟩
    | succ k => simp [ProcessAll.initial] at place
  refine ⟨fun k stack place => ?_,fun k stack place _ => (only place).1,fun _ => by simp [ProcessAll.initial,Pool.bag]⟩
  rw [(only place).2]
  exact .loop

end Threads

section Queues
variable [DecidableEq L] [DecidableEq D]

def running (job : Job L D E) (q : QueueId L D) : Frame L D E → Nat
  | .serialTask t => if runQueue job t.wrapper = some q then 1 else 0
  | .finishedTask _ p => if p = q then 1 else 0
  | _ => 0

structure Served (job : Job L D E) (sh : Shared L D E) (bag : Multiset (Frame L D E)) : Prop where
  chosen : ∀ q, weigh (running job q) bag = if (sh.queues q).taskChosen then 1 else 0
  waiting : ∀ q, (sh.queues q).tasks ≠ [] → (sh.queues q).taskChosen = true
  queued : ∀ q, ∀ t ∈ (sh.queues q).tasks, runQueue job t.wrapper = some q
  tasks : ∀ t, .serialTask t ∈ bag → (runQueue job t.wrapper).isSome = true

variable {job : Job L D E} {N seed : Nat} {sh : Shared L D E} {f : Frame L D E} {rest : Multiset (Frame L D E)}
  {r : Reaction (Shared L D E) (Frame L D E)}

def unqueued : Frame L D E → Bool
  | .serialTask _ | .finishedTask _ _ => false
  | _ => true

theorem unqueued_running (calm : unqueued f = true) (q : QueueId L D) : running job q f = 0 := by
  cases f <;> simp_all [unqueued,running]

theorem Served.same {after : Shared L D E} {frames : Multiset (Frame L D E)} (served : Served job sh (f ::ₘ rest))
    (queues : after.queues = sh.queues) (calm : unqueued f = true) (new : ∀ g ∈ frames, unqueued g = true) :
    Served job after (frames + rest) := by
  obtain ⟨chosen,waiting,queued,tasks⟩ := served
  rw [← queues] at chosen waiting queued
  refine ⟨fun q => ?_,waiting,queued,fun t member => ?_⟩
  · have none : weigh (running job q) frames = 0 :=
      Activities.weigh_light fun g member => unqueued_running (new g member) q
    have before := chosen q
    rw [weigh_cons,unqueued_running calm] at before
    rw [weigh_add,none]
    exact before
  · rcases Multiset.mem_add.mp member with young | old
    · cases new _ young
    · exact tasks t (Multiset.mem_cons_of_mem old)

/-- What holds of all queues but one, of which no task is executed. -/
structure ServedBut (job : Job L D E) (q : QueueId L D) (sh : Shared L D E) (bag : Multiset (Frame L D E)) : Prop where
  free : weigh (running job q) bag = 0
  chosen : ∀ p, p ≠ q → weigh (running job p) bag = if (sh.queues p).taskChosen then 1 else 0
  waiting : ∀ p, p ≠ q → (sh.queues p).tasks ≠ [] → (sh.queues p).taskChosen = true
  queued : ∀ p, ∀ t ∈ (sh.queues p).tasks, runQueue job t.wrapper = some p
  tasks : ∀ t, .serialTask t ∈ bag → (runQueue job t.wrapper).isSome = true

/-- Whoever picks the next task serves the queue. -/
theorem ServedBut.pick {q : QueueId L D} {bag : Multiset (Frame L D E)} (but : ServedBut job q sh bag) (group : Nat) :
    Served job (sh.pickNextTask N q group).1
      ((↑((sh.pickNextTask N q group).2.toList.map Frame.serialTask) : Multiset (Frame L D E)) + bag) := by
  obtain ⟨free,chosen,waiting,queued,tasks⟩ := but
  unfold Shared.pickNextTask
  cases listed : (sh.queues q).tasks with
  | nil =>
    refine ⟨fun p => ?_,fun p => ?_,fun p t => ?_,fun t => ?_⟩
    · by_cases same : p = q
      · subst p
        simpa [Shared.setQueue] using free
      · simpa [Shared.setQueue,same] using chosen p same
    · by_cases same : p = q
      · subst p
        simp [Shared.setQueue]
      · simpa [Shared.setQueue,same] using waiting p same
    · by_cases same : p = q
      · subst p
        simp [Shared.setQueue]
      · simpa [Shared.setQueue,same] using queued p t
    · simpa using tasks t
  | cons u us =>
    have own : runQueue job u.wrapper = some q := queued q u (by rw [listed]; exact List.mem_cons_self)
    refine ⟨fun p => ?_,fun p => ?_,fun p t member => ?_,fun t member => ?_⟩
    · by_cases same : p = q
      · subst p
        simp [Shared.setQueue,running,own,free]
      · simpa [Shared.setQueue,running,own,same,Ne.symm same] using chosen p same
    · by_cases same : p = q
      · subst p
        simp [Shared.setQueue]
      · simpa [Shared.setQueue,same] using waiting p same
    · by_cases same : p = q
      · subst p
        refine queued q t ?_
        rw [listed]
        exact List.mem_cons_of_mem u (by simpa [Shared.setQueue] using member)
      · exact queued p t (by simpa [Shared.setQueue,same] using member)
    · rcases Multiset.mem_add.mp member with new | old
      · obtain rfl : t = u := by simpa using new
        rw [own]
        rfl
      · exact tasks t old

/-- A stream pushes a task in the queue of the module. -/
theorem Served.push {q : QueueId L D} {t : QueuedTask L D E} (served : Served job sh (f ::ₘ rest))
    (calm : unqueued f = true) (own : runQueue job t.wrapper = some q) :
    Served job (push N sh q t).shared ((push N sh q t).frames + rest) := by
  obtain ⟨chosen,waiting,queued,tasks⟩ := served
  have before (p : QueueId L D) : weigh (running job p) rest = if (sh.queues p).taskChosen then 1 else 0 := by
    rw [← chosen p,weigh_cons,unqueued_running calm,Nat.zero_add]
  have added (p : QueueId L D) (u : QueuedTask L D E)
      (member : u ∈ ((sh.setQueue q {sh.queues q with tasks := (sh.queues q).tasks ++ [t]}).queues p).tasks) :
      runQueue job u.wrapper = some p := by
    by_cases same : p = q
    · subst p
      have split : u ∈ (sh.queues q).tasks ∨ u = t := by simpa [Shared.setQueue] using member
      rcases split with old | rfl
      · exact queued q u old
      · exact own
    · exact queued p u (by simpa [Shared.setQueue,same] using member)
  have old (u : QueuedTask L D E) (member : .serialTask u ∈ rest) : (runQueue job u.wrapper).isSome = true :=
    tasks u (Multiset.mem_cons_of_mem member)
  unfold ProcessAll.push
  split
  · rename_i busy
    refine ⟨fun p => ?_,fun p => ?_,added,fun u member => old u (by simpa using member)⟩
    · by_cases same : p = q
      · subst p
        simpa [Shared.setQueue] using before q
      · simpa [Shared.setQueue,same] using before p
    · by_cases same : p = q
      · subst p
        simpa [Shared.setQueue] using busy
      · simpa [Shared.setQueue,same] using waiting p
  · rename_i idle
    have but : ServedBut job q (sh.setQueue q {sh.queues q with tasks := (sh.queues q).tasks ++ [t]}) rest := by
      refine ⟨by rw [before,if_neg idle],fun p other => ?_,fun p other => ?_,added,old⟩
      · simpa [Shared.setQueue,other] using before p
      · simpa [Shared.setQueue,other] using waiting p
    exact but.pick t.group

/-- The task that is picked is executed, by whatever thread. -/
theorem finishedTask_frames (group : Nat) (q : QueueId L D) : (finishedTask N sh group q).frames =
    ↑((sh.pickNextTask N q group).2.toList.map Frame.serialTask) := by
  cases picked : (sh.pickNextTask N q group).2 with
  | none => simp [finishedTask,picked]
  | some t => by_cases own : t.group = group <;> simp [finishedTask,picked,Option.filter,own]

/-- The thread that has executed a task of the queue picks the next one. -/
theorem Served.finish {group : Nat} {q : QueueId L D} (served : Served job sh (.finishedTask group q ::ₘ rest)) :
    ServedBut job q sh rest := by
  obtain ⟨chosen,waiting,queued,tasks⟩ := served
  refine ⟨?_,fun p other => ?_,fun p _ => waiting p,queued,fun t member => tasks t (Multiset.mem_cons_of_mem member)⟩
  · have one := chosen q
    simp only [weigh_cons,running,if_true] at one
    split at one <;> omega
  · have before := chosen p
    rwa [weigh_cons,running,if_neg (Ne.symm other),Nat.zero_add] at before

omit [DecidableEq L] [DecidableEq D] in
theorem run_unqueued {n : Nat} {g : Frame L D E} (member : g ∈ sh.run n) : unqueued g = true := by
  unfold Shared.run at member
  split at member
  · rw [List.mem_singleton.mp member]
    rfl
  · cases member

theorem pushed_runQueue {i : Nat} {g : LoopFrame L D E} {q : QueueId L D} {t : QueuedTask L D E}
    (pushes : pushed job sh i g = some (q,t)) : runQueue job t.wrapper = some q := by
  unfold pushed at pushes
  split at pushes
  · obtain ⟨p,queue,same⟩ := Option.map_eq_some_iff.mp pushes
    cases same
    exact queue
  · cases pushes

/-- The loop leaves the queues alone. -/
theorem Served.processAll (served : Served job sh (.processAll ::ₘ rest)) (reacted : processAll N sh = some r) :
    Served job r.shared (r.frames + rest) := by
  unfold ProcessAll.processAll at reacted
  split at reacted
  · cases reacted
    exact served.same rfl rfl (by simp [unqueued])
  · cases reacted
    exact served.same rfl rfl (by simp [unqueued])
  · cases reacted
    exact served.same rfl rfl (by simp [unqueued])
  · cases reacted
    refine served.same rfl rfl fun g member => ?_
    rcases List.mem_cons.mp (Multiset.mem_coe.mp member) with rfl | new
    · rfl
    · exact run_unqueued new
  · cases reacted
    exact served.same rfl rfl (by simp [unqueued])
  · split at reacted <;> cases reacted <;> exact served.same rfl rfl (by simp [unqueued])
  · cases reacted

theorem Served.react (served : Served job sh (f ::ₘ rest)) (prompt : picks sh seed f = true)
    (reacted : react job N sh f seed = some r) : Served job r.shared (r.frames + rest) := by
  cases f with
  | processAll => exact served.processAll reacted
  | stream i g =>
    simp only [ProcessAll.react] at reacted
    split at reacted
    · rename_i q t pushes
      cases reacted
      exact served.push rfl (pushed_runQueue pushes)
    · obtain ⟨x,made,rfl⟩ := Option.map_eq_some_iff.mp reacted
      refine served.same rfl rfl fun h member => ?_
      rcases List.mem_append.mp (Multiset.mem_coe.mp member) with called | spawned
      · rcases List.mem_append.mp called with called | told
        · obtain ⟨_,_,rfl⟩ := List.mem_map.mp called
          rfl
        · obtain ⟨_,_,rfl⟩ := List.mem_map.mp told
          rfl
      · obtain ⟨_,_,rfl⟩ := List.mem_map.mp spawned
        rfl
  | doneWaiting i e =>
    cases reacted
    exact served.same rfl rfl (by simp [unqueued])
  | decrement i =>
    cases reacted
    refine served.same rfl rfl fun g member => ?_
    have new : g ∈ sh.run i := member
    exact run_unqueued new
  | serialTask t =>
    cases queue : runQueue job t.wrapper with
    | none => simp [ProcessAll.react,queue] at reacted
    | some q =>
      simp only [ProcessAll.react,queue,Option.some.injEq] at reacted
      subst reacted
      obtain ⟨chosen,waiting,queued,tasks⟩ := served
      refine ⟨fun p => ?_,waiting,queued,fun u member => ?_⟩
      · have before := chosen p
        simp only [weigh_cons,running,queue,Option.some.injEq] at before
        simpa [running] using before
      · refine tasks u (Multiset.mem_cons_of_mem ?_)
        simpa using member
  | finishedTask group q =>
    have but := served.finish
    cases seed with
    | zero =>
      cases reacted
      rw [finishedTask_frames]
      exact but.pick group
    | succ n =>
      cases reacted
      obtain ⟨free,chosen,waiting,queued,tasks⟩ := but
      have none : (sh.queues q).tasks = [] := by simpa [picks] using prompt
      refine ⟨fun p => ?_,fun p => ?_,fun p t member => ?_,fun t member => tasks t (by simpa using member)⟩
      · by_cases same : p = q
        · subst p
          simpa [Shared.setQueue] using free
        · simpa [Shared.setQueue,same] using chosen p same
      · by_cases same : p = q
        · subst p
          simp [Shared.setQueue,none]
        · simpa [Shared.setQueue,same] using waiting p same
      · by_cases same : p = q
        · subst p
          simp [Shared.setQueue,none] at member
        · exact queued p t (by simpa [Shared.setQueue,same] using member)
  | lastTask g =>
    cases reacted
    exact served.same rfl rfl (by simp [unqueued])
  | recycle g =>
    cases reacted
    exact served.same rfl rfl (by simp)

theorem Served.next {s t : State L D E} {a : Nat × Nat} (served : Served job s.shared s.bag) (prompt : Prompt s a)
    (taken : next job N s a = some t) : Served job t.shared t.bag := by
  unfold ProcessAll.next at taken
  split at taken
  · cases taken
  · obtain ⟨f,r,rest,reacted,shared,before,after,top⟩ := Pool.step_bag taken
    rw [before] at served
    rw [shared,after]
    exact served.react (prompt f top) reacted

theorem Served.initial (job : Job L D E) (N : Nat) (source : List Nat) :
    Served job (ProcessAll.initial L D E N source).shared (ProcessAll.initial L D E N source).bag := by
  constructor <;> simp [ProcessAll.initial,Pool.bag,running]

/-- Where no task of a queue is executed it is empty. -/
theorem Served.empty {bag : Multiset (Frame L D E)} (served : Served job sh bag)
    (calm : ∀ g ∈ bag, unqueued g = true) (q : QueueId L D) : (sh.queues q).tasks = [] := by
  have none : weigh (running job q) bag = 0 :=
    Activities.weigh_light fun g member => unqueued_running (calm g member) q
  have chosen := served.chosen q
  by_contra some
  rw [none,if_pos (served.waiting q some)] at chosen
  cases chosen

end Queues
end ToyMtFramework.ProcessAll
