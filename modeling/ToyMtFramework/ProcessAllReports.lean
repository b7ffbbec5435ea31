import ToyMtFramework.ProcessAllEvents

/-! What `processAll` has done when it returns. Every event that the source has given is finished, the
caller gets an exception if and only if an event has failed, and then it is the exception of such
an event; without one, all events of the source are finished, each of them once. -/
namespace ToyMtFramework.ProcessAll
open Activities Transition
open Schedule (Job Wrapper Entry)
open Schedule.Loop (LoopFrame LoopShared Journal Finished StreamRule logged journalled)

variable {L D E : Type}

def failure : Frame L D E → Option (Nat × E)
  | .stream i (.handleNextEventAsync (some e)) => some (i,e)
  | .doneWaiting i (some e) => some (i,e)
  | _ => none

section Failures
variable [DecidableEq L] [DecidableEq D] {job : Job L D E} {N seed : Nat} {sh : Shared L D E} {f : Frame L D E}
  {r : Reaction (Shared L D E) (Frame L D E)} {records : Nat → Record L D E}

def speaking : Frame L D E → Bool
  | .stream _ (.schedule (.callback _)) | .stream _ (.handleNextEventAsync (some _)) | .doneWaiting _ _ => true
  | _ => false

structure Silent (sh : Shared L D E) (seed : Nat) (f : Frame L D E) (r : Reaction (Shared L D E) (Frame L D E))
    (records after : Nat → Record L D E) : Prop where
  frames : ∀ g ∈ r.frames, failure g = none
  said : failure f = none
  finished : ∀ i, (after i).2.finished = (records i).2.finished
  exceptionPtr : r.shared.exceptionPtr = sh.exceptionPtr
  ended : r.shared.ended = sh.ended ∨ sh.source = []

/-- The next event of a stream is handled after a callback. -/
theorem handled {s : LoopShared L D E} {g : LoopFrame L D E} {x : Reaction (LoopShared L D E) (LoopFrame L D E)}
    (reacted : Schedule.Loop.react job s g seed = some x) {e : Option E}
    (member : .handleNextEventAsync e ∈ x.frames) : g = .schedule (.callback e) := by
  by_cases inside : ∃ f, g = .schedule f
  · obtain ⟨f,rfl⟩ := inside
    obtain ⟨inner,made,after,placed⟩ := Schedule.Loop.react_schedule reacted
    rw [placed] at member
    rcases Multiset.mem_add.mp member with frame | task
    · obtain ⟨h,_,same⟩ := Multiset.mem_map.mp frame
      cases same
    · cases f <;> simp [Schedule.Loop.recursiveTask] at task
      rw [task]
  · rcases Schedule.Loop.react_controls (fun f same => inside ⟨f,same⟩) reacted with
      ⟨step,rfl,rfl⟩ | ⟨after,d,acts,shared,placed⟩
    · simp at member
    · rw [placed] at member
      cases acts <;> simp at member

theorem stream_frames {i : Nat} {g : LoopFrame L D E} {x : Reaction (LoopShared L D E) (LoopFrame L D E)}
    (reacted : Schedule.Loop.react job ⟨sh.streams i,sh.source⟩ g seed = some x) :
    ∀ h ∈ streamFrames i x (answer sh.source g), ∀ own, failure h = some own →
      speaking (.stream i g : Frame L D E) = true := by
  intro h member own said
  simp only [streamFrames,Multiset.mem_coe,List.mem_append,List.mem_map] at member
  rcases member with (⟨k,called,rfl⟩ | ⟨e,answered,rfl⟩) | ⟨k,spawned,rfl⟩
  · cases k with
    | handleNextEventAsync e =>
      have member : LoopFrame.handleNextEventAsync e ∈ x.frames := by simp [Reaction.frames,called]
      rw [handled reacted member]
      rfl
    | _ => cases said
  · cases g with
    | handleNextEventAsync e =>
      cases e with
      | none => simp [answer] at answered
      | some e => rfl
    | eventReset ks step =>
      cases ks with
      | nil =>
        simp only [answer] at answered
        split at answered <;> simp at answered
        subst e
        cases said
      | cons k ks => simp [answer] at answered
    | _ => simp [answer] at answered
  · cases k with
    | handleNextEventAsync e =>
      have member : LoopFrame.handleNextEventAsync e ∈ x.frames := by simp [Reaction.frames,spawned]
      rw [handled reacted member]
      rfl
    | _ => cases said

omit [DecidableEq L] [DecidableEq D] in
theorem finished_quiet {s : LoopShared L D E} {log : List (Entry L D E)} {j : Journal L D E}
    {g : LoopFrame L D E} (going : ∀ e, g ≠ .schedule (.callback e)) :
    (journalled s log j g).finished = j.finished := by
  unfold journalled
  split
  · rfl
  · exact absurd rfl (going _)
  · rfl

theorem recordTurn_finished {i : Nat} {g : LoopFrame L D E} (mine : acts f = some (i,g))
    (going : ∀ e, g ≠ .schedule (.callback e)) (k : Nat) :
    (recordTurn job sh seed f records k).2.finished = (records k).2.finished := by
  rw [recordTurn,mine]
  by_cases same : k = i
  · subst k
    simp only [Function.update_self,finished_quiet going]
  · simp only [Function.update_of_ne same]

theorem pickNextTask_exceptionPtr (N : Nat) (sh : Shared L D E) (q : QueueId L D) (group : Nat) :
    (sh.pickNextTask N q group).1.exceptionPtr = sh.exceptionPtr := by
  unfold Shared.pickNextTask
  split <;> rfl

theorem pickNextTask_ended (N : Nat) (sh : Shared L D E) (q : QueueId L D) (group : Nat) :
    (sh.pickNextTask N q group).1.ended = sh.ended := by
  unfold Shared.pickNextTask
  split <;> rfl

omit [DecidableEq L] [DecidableEq D] in
theorem failure_serialTask {tasks : List (QueuedTask L D E)} {h : Frame L D E}
    (member : h ∈ tasks.map Frame.serialTask) : failure h = none := by
  obtain ⟨t,_,rfl⟩ := List.mem_map.mp member
  rfl

theorem react_silent (reacted : react job N sh f seed = some r) (silent : speaking f = false) :
    Silent sh seed f r records (recordTurn job sh seed f records) := by
  cases f with
  | processAll =>
    have keeps : (∀ g ∈ r.frames, failure g = none) ∧ r.shared.exceptionPtr = sh.exceptionPtr ∧
        r.shared.ended = sh.ended := by
      have main : processAll N sh = some r := reacted
      unfold ProcessAll.processAll at main
      split at main
      · cases main
        exact ⟨by simp [failure],rfl,rfl⟩
      · cases main
        exact ⟨by simp [failure],rfl,rfl⟩
      · cases main
        exact ⟨by simp [failure],rfl,rfl⟩
      · cases main
        refine ⟨?_,rfl,rfl⟩
        unfold Shared.run
        split <;> simp [failure]
      · cases main
        exact ⟨by simp [failure],rfl,rfl⟩
      · split at main <;> cases main
        · exact ⟨by simp,rfl,rfl⟩
        · exact ⟨by simp [failure],rfl,rfl⟩
      · cases main
    exact ⟨keeps.1,rfl,fun _ => rfl,keeps.2.1,Or.inl keeps.2.2⟩
  | stream i g =>
    have going (e : Option E) : g ≠ .schedule (.callback e) := by
      rintro rfl
      cases silent
    have said : failure (.stream i g : Frame L D E) = none := by
      cases g with
      | handleNextEventAsync e => cases e <;> simp [speaking,failure] at silent ⊢
      | _ => rfl
    have finished : ∀ k, (recordTurn job sh seed (.stream i g) records k).2.finished = (records k).2.finished :=
      recordTurn_finished rfl going
    simp only [react] at reacted
    split at reacted
    · rename_i q t pushes
      cases reacted
      unfold push
      split
      · exact ⟨by simp,said,finished,rfl,Or.inl rfl⟩
      · exact ⟨fun h member => failure_serialTask (Multiset.mem_coe.mp member),said,finished,
          pickNextTask_exceptionPtr N _ q _,Or.inl (pickNextTask_ended N _ q _)⟩
    · obtain ⟨x,made,rfl⟩ := Option.map_eq_some_iff.mp reacted
      refine ⟨fun h member => ?_,said,finished,rfl,?_⟩
      · by_contra speaks
        obtain ⟨own,given⟩ := Option.ne_none_iff_exists'.mp speaks
        have spoken := stream_frames made h member own given
        rw [silent] at spoken
        cases spoken
      · cases g with
        | handleNextEventAsync e =>
          cases e with
          | none => exact Or.inl rfl
          | some e => cases silent
        | eventReset ks step =>
          cases ks with
          | nil =>
            by_cases empty : sh.source = []
            · exact Or.inr empty
            · exact Or.inl (by simp [Shared.setStream,answer,empty])
          | cons k ks => exact Or.inl rfl
        | _ => exact Or.inl rfl
  | doneWaiting i e => cases silent
  | decrement i =>
    cases reacted
    refine ⟨?_,rfl,fun _ => rfl,rfl,Or.inl rfl⟩
    unfold Shared.run
    split <;> simp [failure]
  | serialTask t =>
    have finished : ∀ k, (recordTurn job sh seed (.serialTask t) records k).2.finished = (records k).2.finished :=
      recordTurn_finished rfl (by simp [QueuedTask.frame])
    simp only [react] at reacted
    split at reacted <;> cases reacted
    exact ⟨by simp [failure],rfl,finished,rfl,Or.inl rfl⟩
  | finishedTask i q =>
    cases seed with
    | succ n =>
      cases reacted
      exact ⟨by simp,rfl,fun _ => rfl,rfl,Or.inl rfl⟩
    | zero =>
      cases reacted
      refine ⟨fun h member => ?_,rfl,fun _ => rfl,pickNextTask_exceptionPtr N sh q i,
        Or.inl (pickNextTask_ended N sh q i)⟩
      simp only [finishedTask,Reaction.frames_mk,Multiset.mem_coe,List.mem_append] at member
      exact member.elim failure_serialTask failure_serialTask
  | lastTask g =>
    cases reacted
    exact ⟨by simp [failure],rfl,fun _ => rfl,rfl,Or.inl rfl⟩
  | recycle g =>
    cases reacted
    exact ⟨by simp,rfl,fun _ => rfl,rfl,Or.inl rfl⟩

end Failures

def Failed (own : Record L D E) (e : E) : Prop :=
  ∃ x ∈ own.2.finished, x.exceptionPtr = some e

structure Answers (N : Nat) (sh : Shared L D E) (bag : Multiset (Frame L D E))
    (records : Nat → Record L D E) : Prop where
  told : ∀ f ∈ bag, ∀ i e, failure f = some (i,e) → i < N ∧ Failed (records i) e
  given : ∀ e, sh.exceptionPtr = some e → ∃ i < N, Failed (records i) e
  reported : ∀ i < N, ∀ e, Failed (records i) e → sh.exceptionPtr ≠ none ∨ ∃ f ∈ bag, failure f ≠ none
  ended : sh.ended ≠ [] → sh.source = [] ∨ ∃ i < N, ∃ e, Failed (records i) e

section Answers
variable [DecidableEq L] [DecidableEq D] {job : Job L D E} {N seed : Nat} {sh : Shared L D E} {f : Frame L D E}
  {rest : Multiset (Frame L D E)} {r : Reaction (Shared L D E) (Frame L D E)} {records after : Nat → Record L D E}

omit [DecidableEq L] [DecidableEq D] in
/-- A frame acts and the journals grow; what it has told is told by its frames or has been taken down. -/
theorem Answers.go_on (answers : Answers N sh (f ::ₘ rest) records)
    (grow : ∀ i e, Failed (records i) e → Failed (after i) e)
    (told : ∀ g ∈ r.frames, ∀ i e, failure g = some (i,e) → i < N ∧ Failed (after i) e)
    (given : ∀ e, r.shared.exceptionPtr = some e → sh.exceptionPtr = some e ∨ ∃ i, failure f = some (i,e))
    (kept : sh.exceptionPtr ≠ none → r.shared.exceptionPtr ≠ none)
    (passed : failure f ≠ none → r.shared.exceptionPtr ≠ none ∨ ∃ g ∈ r.frames, failure g ≠ none)
    (new : ∀ i e, Failed (after i) e → Failed (records i) e ∨ ∃ g ∈ r.frames, failure g ≠ none)
    (ended : r.shared.ended = sh.ended ∨ sh.source = [] ∨ failure f ≠ none)
    (emptied : sh.source = [] → r.shared.source = []) : Answers N r.shared (r.frames + rest) after := by
  have here (i : Nat) (e : E) (fails : failure f = some (i,e)) : i < N ∧ Failed (after i) e := by
    obtain ⟨inside,failed⟩ := answers.told f (Multiset.mem_cons_self f rest) i e fails
    exact ⟨inside,grow i e failed⟩
  constructor
  · intro g member i e fails
    rcases Multiset.mem_add.mp member with young | old
    · exact told g young i e fails
    · obtain ⟨inside,failed⟩ := answers.told g (Multiset.mem_cons_of_mem old) i e fails
      exact ⟨inside,grow i e failed⟩
  · intro e set
    rcases given e set with before | ⟨i,fails⟩
    · obtain ⟨i,inside,failed⟩ := answers.given e before
      exact ⟨i,inside,grow i e failed⟩
    · exact ⟨i,here i e fails⟩
  · intro i inside e failed
    have placed (there : ∃ g ∈ r.frames, failure g ≠ none) : ∃ g ∈ r.frames + rest, failure g ≠ none := by
      obtain ⟨g,young,speaks⟩ := there
      exact ⟨g,Multiset.mem_add.mpr (Or.inl young),speaks⟩
    rcases new i e failed with old | young
    · rcases answers.reported i inside e old with set | ⟨g,member,speaks⟩
      · exact Or.inl (kept set)
      · rcases Multiset.mem_cons.mp member with rfl | left
        · exact (passed speaks).imp id placed
        · exact Or.inr ⟨g,Multiset.mem_add.mpr (Or.inr left),speaks⟩
    · exact Or.inr (placed young)
  · intro some
    rcases ended with same | empty | speaks
    · rw [same] at some
      rcases answers.ended some with empty | ⟨i,inside,e,failed⟩
      · exact Or.inl (emptied empty)
      · exact Or.inr ⟨i,inside,e,grow i e failed⟩
    · exact Or.inl (emptied empty)
    · obtain ⟨own,fails⟩ := Option.ne_none_iff_exists'.mp speaks
      obtain ⟨i,e⟩ := own
      obtain ⟨inside,failed⟩ := here i e fails
      exact Or.inr ⟨i,inside,e,failed⟩

omit [DecidableEq L] [DecidableEq D] in
theorem Answers.silent (answers : Answers N sh (f ::ₘ rest) records) (silent : Silent sh seed f r records after)
    (emptied : sh.source = [] → r.shared.source = []) : Answers N r.shared (r.frames + rest) after := by
  obtain ⟨frames,said,finished,exceptionPtr,ended⟩ := silent
  have same (i : Nat) (e : E) : Failed (after i) e ↔ Failed (records i) e := by
    rw [Failed,Failed,finished]
  refine answers.go_on (fun i e => (same i e).mpr) ?_ ?_ ?_ ?_ (fun i e failed => Or.inl ((same i e).mp failed))
    (ended.imp id Or.inl) emptied
  · intro g young i e fails
    rw [frames g young] at fails
    cases fails
  · intro e set
    rw [exceptionPtr] at set
    exact Or.inl set
  · rw [exceptionPtr]
    exact id
  · intro speaks
    exact absurd said speaks

/-- The callback of an event hands its exception to the task for the next one. -/
theorem Answers.callback {i : Nat} {e : Option E}
    (answers : Answers N sh (.stream i (.schedule (.callback e)) ::ₘ rest) records) (inside : i < N)
    (reacted : react job N sh (.stream i (.schedule (.callback e))) seed = some r) :
    Answers N r.shared (r.frames + rest)
      (recordTurn job sh seed (.stream i (.schedule (.callback e))) records) := by
  have frames : r.frames = {.stream i (.handleNextEventAsync e)} := by
    cases reacted
    simp [Reaction.frames,answer,Schedule.Loop.recursiveTask]
  have finished (k : Nat) : (recordTurn job sh seed (.stream i (.schedule (.callback e))) records k).2.finished =
      (records k).2.finished ++ if k = i then [⟨(sh.streams i).eventIndex,(records i).1,e⟩] else [] := by
    by_cases same : k = i
    · subst k
      simp [recordTurn,acts,journalled]
    · simp [recordTurn,acts,same]
  have shared : r.shared.exceptionPtr = sh.exceptionPtr ∧ r.shared.ended = sh.ended ∧
      r.shared.source = sh.source := by
    cases reacted
    exact ⟨rfl,rfl,rfl⟩
  have last (x : E) (some : e = some x) : Failed
      (recordTurn job sh seed (.stream i (.schedule (.callback e))) records i) x := by
    refine ⟨⟨(sh.streams i).eventIndex,(records i).1,e⟩,?_,some⟩
    rw [finished,if_pos rfl]
    exact List.mem_append_right _ List.mem_cons_self
  refine answers.go_on ?_ ?_ ?_ ?_ ?_ ?_ (Or.inl shared.2.1) ?_
  · rintro k x ⟨own,member,thrown⟩
    refine ⟨own,?_,thrown⟩
    rw [finished]
    exact List.mem_append_left _ member
  · intro g young k x fails
    rw [frames] at young
    obtain rfl := Multiset.mem_singleton.mp young
    cases e with
    | none => cases fails
    | some e =>
      cases fails
      exact ⟨inside,last _ rfl⟩
  · intro x set
    rw [shared.1] at set
    exact Or.inl set
  · rw [shared.1]
    exact id
  · intro speaks
    exact absurd rfl speaks
  · rintro k x ⟨own,member,thrown⟩
    rw [finished] at member
    rcases List.mem_append.mp member with old | new
    · exact Or.inl ⟨own,old,thrown⟩
    · by_cases same : k = i
      · rw [if_pos same] at new
        obtain rfl := List.mem_singleton.mp new
        obtain rfl : e = some x := thrown
        exact Or.inr ⟨_,by rw [frames]; exact Multiset.mem_singleton_self _,by simp [failure]⟩
      · rw [if_neg same] at new
        cases new
  · intro empty
    rw [shared.2.2]
    exact empty

theorem Answers.react (answers : Answers N sh (f ::ₘ rest) records)
    (inside : ∀ i g, acts f = some (i,g) → i < N) (emptied : sh.source = [] → r.shared.source = [])
    (reacted : ProcessAll.react job N sh f seed = some r) :
    Answers N r.shared (r.frames + rest) (recordTurn job sh seed f records) := by
  cases speaks : speaking f with
  | false => exact answers.silent (react_silent reacted speaks) emptied
  | true =>
    unfold speaking at speaks
    split at speaks
    · rename_i i e
      exact answers.callback (inside i _ rfl) reacted
    · rename_i i e
      have finished (k : Nat) : (recordTurn job sh seed (.stream i (.handleNextEventAsync (some e))) records k).2.finished =
          (records k).2.finished := recordTurn_finished rfl (by simp) k
      cases reacted
      refine answers.go_on ?_ ?_ ?_ id ?_ ?_ (Or.inr (Or.inr (by simp [failure]))) emptied
      · intro k x failed
        rwa [Failed,finished]
      · intro g young k x fails
        obtain rfl : g = .doneWaiting i (some e) := by simpa [Reaction.frames,answer] using young
        cases fails
        rw [Failed,finished]
        exact answers.told _ (Multiset.mem_cons_self _ _) i e rfl
      · exact fun x set => Or.inl set
      · exact fun _ => Or.inr ⟨.doneWaiting i (some e),by simp [Reaction.frames,answer],by simp [failure]⟩
      · intro k x failed
        rw [Failed,finished] at failed
        exact Or.inl failed
    · rename_i i e
      cases reacted
      refine answers.go_on (fun _ _ => id) ?_ ?_ ?_ ?_ (fun _ _ => Or.inl) (Or.inl rfl) emptied
      · intro g young k x fails
        obtain rfl : g = .decrement i := by simpa [Reaction.frames] using young
        cases fails
      · intro x set
        rcases Option.or_eq_some_iff.mp set with before | ⟨_,told⟩
        · exact Or.inl before
        · subst told
          exact Or.inr ⟨i,rfl⟩
      · intro set
        obtain ⟨x,set⟩ := Option.ne_none_iff_exists'.mp set
        simp [set]
      · intro fails
        cases e with
        | none => exact absurd rfl fails
        | some e => exact Or.inl (by simp)
    · cases speaks

end Answers

/-- What the caller of `processAll` gets: the exception that `lastTask` was executed with. -/
structure Returns (sh : Shared L D E) : Prop where
  unexecuted : sh.executed = 0 → sh.done = false ∧ sh.exceptPtr = none
  executed : 0 < sh.executed → sh.exceptPtr = sh.exceptionPtr
  returned : ∀ e, sh.main = .returned e → 0 < sh.executed ∧ e = sh.exceptionPtr

section Returns
variable [DecidableEq L] [DecidableEq D] {job : Job L D E} {N seed : Nat} {sh : Shared L D E} {f : Frame L D E}
  {rest : Multiset (Frame L D E)} {r : Reaction (Shared L D E) (Frame L D E)}

omit [DecidableEq L] [DecidableEq D] in
theorem Returns.same {after : Shared L D E} (returns : Returns sh) (executed : after.executed = sh.executed)
    (done : after.done = sh.done) (exceptPtr : after.exceptPtr = sh.exceptPtr)
    (exceptionPtr : after.exceptionPtr = sh.exceptionPtr)
    (main : ∀ e, after.main = .returned e → sh.main = .returned e ∨ (sh.done = true ∧ e = sh.exceptPtr)) :
    Returns after := by
  constructor
  · rw [executed,done,exceptPtr]
    exact returns.unexecuted
  · rw [executed,exceptPtr,exceptionPtr]
    exact returns.executed
  · intro e returned
    rw [executed,exceptionPtr]
    rcases main e returned with before | ⟨ready,rfl⟩
    · exact returns.returned e before
    · have positive : 0 < sh.executed := by
        by_contra none
        rw [(returns.unexecuted (by omega)).1] at ready
        cases ready
      exact ⟨positive,returns.executed positive⟩

/-- While a stream has a holder `lastTask` has not been executed. -/
theorem Held.doneWaiting {i : Nat} {e : Option E} (held : Held N sh (.doneWaiting i e ::ₘ rest)) :
    sh.executed = 0 := by
  have holder := held.streams i
  simp only [weigh_cons,finishing,if_true] at holder
  have member : i ∈ sh.holding := List.count_pos_iff.mp (by omega)
  have positive := List.length_pos_of_mem member
  have counted := held.refCount
  have none := held.unsubmitted (by omega)
  have executed := held.executed
  omega

theorem Held.lastTask {g : Nat} (held : Held N sh (.lastTask g ::ₘ rest)) : sh.executed = 0 := by
  have executed := held.executed
  have submitted := held.submitted
  simp only [weigh_cons,executing] at executed
  split at submitted <;> omega

theorem Returns.pickNextTask (returns : Returns sh) (q : QueueId L D) (group : Nat) :
    Returns (sh.pickNextTask N q group).1 := by
  unfold Shared.pickNextTask
  split <;> exact returns.same rfl rfl rfl rfl fun e => Or.inl

theorem Returns.setQueue (returns : Returns sh) (q : QueueId L D) (queue : SerialQueue L D E) :
    Returns (sh.setQueue q queue) :=
  returns.same rfl rfl rfl rfl fun _ => Or.inl

theorem Returns.react (returns : Returns sh) (held : Held N sh (f ::ₘ rest))
    (reacted : ProcessAll.react job N sh f seed = some r) : Returns r.shared := by
  cases f with
  | processAll =>
    have main : ProcessAll.processAll N sh = some r := reacted
    unfold ProcessAll.processAll at main
    split at main
    · cases main
      exact returns.same rfl rfl rfl rfl (by simp)
    · cases main
      exact returns.same rfl rfl rfl rfl (by simp [Shared.hold])
    · cases main
      exact returns.same rfl rfl rfl rfl (by simp [Shared.hold])
    · cases main
      exact returns.same rfl rfl rfl rfl (by simp)
    · cases main
      exact returns.same rfl rfl rfl rfl (by split <;> simp)
    · split at main <;> cases main
      · rename_i ready
        exact returns.same rfl rfl rfl rfl fun e returned => Or.inr ⟨ready,(Main.returned.inj returned).symm⟩
      · exact returns.same rfl rfl rfl rfl (by simp)
    · cases main
  | stream i f =>
    simp only [ProcessAll.react] at reacted
    split at reacted
    · cases reacted
      unfold push
      split
      · exact returns.setQueue _ _
      · exact (returns.setQueue _ _).pickNextTask _ _
    · obtain ⟨x,made,rfl⟩ := Option.map_eq_some_iff.mp reacted
      exact returns.same rfl rfl rfl rfl fun e => Or.inl
  | doneWaiting i e =>
    cases reacted
    have none := held.doneWaiting
    exact ⟨returns.unexecuted,fun some => absurd none (Nat.ne_of_gt some),
      fun e returned => absurd none (Nat.ne_of_gt (returns.returned e returned).1)⟩
  | decrement i =>
    cases reacted
    exact returns.same rfl rfl rfl rfl fun e => Or.inl
  | serialTask t =>
    simp only [ProcessAll.react] at reacted
    split at reacted <;> cases reacted
    exact returns
  | finishedTask i q =>
    cases seed with
    | zero =>
      cases reacted
      exact returns.pickNextTask _ _
    | succ n =>
      cases reacted
      exact returns.setQueue _ _
  | lastTask g =>
    cases reacted
    have none := held.lastTask
    have empty := (returns.unexecuted none).2
    refine ⟨fun again => by simp [Shared.lastTask] at again,fun _ => by simp [Shared.lastTask,empty],?_⟩
    intro e returned
    exact absurd none (Nat.ne_of_gt (returns.returned e returned).1)
  | recycle g =>
    cases reacted
    exact returns.same rfl rfl rfl rfl fun e => Or.inl

/-- When `lastTask` has been executed no stream has anything more to do. -/
theorem Held.resting {bag : Multiset (Frame L D E)} (held : Held N sh bag) (executed : 0 < sh.executed) :
    sh.main.unlaunched = [] ∧ sh.holding = [] ∧ ∀ i, weigh (ofStream driving i) bag = 0 ∧
      (sh.streams i).refCount .allPathsDone = 0 ∧ weigh (finishing i) bag = 0 := by
  have submitted := held.submitted
  have counted := held.executed
  split at submitted
  · rename_i past
    have counted := held.refCount
    have none : sh.holding = [] := List.length_eq_zero_iff.mp (by omega)
    refine ⟨past.1,none,fun i => ?_⟩
    have stream := held.streams i
    rw [none] at stream
    simp only [List.count_nil] at stream
    omega
  · omega

theorem Held.ended_some {bag : Multiset (Frame L D E)} (held : Held N sh bag) (some : 0 < N)
    (executed : 0 < sh.executed) : sh.ended ≠ [] := by
  obtain ⟨unlaunched,none,_⟩ := held.resting executed
  have launched := held.launched 0
  rw [unlaunched,none,if_pos some] at launched
  intro empty
  simp [empty] at launched

/-- Then `lastTask` has been told of every exception. -/
theorem Held.unspoken {bag : Multiset (Frame L D E)} (held : Held N sh bag) (executed : 0 < sh.executed)
    (member : f ∈ bag) (speaks : failure f ≠ none) : False := by
  obtain ⟨_,_,resting⟩ := held.resting executed
  cases f with
  | stream i g =>
    have light := weigh_eq_zero (resting i).1 member
    cases g <;> simp [ofStream,driving,failure] at light speaks
  | doneWaiting i e =>
    have light := weigh_eq_zero (resting i).2.2 member
    simp [finishing] at light
  | _ => exact speaks rfl

end Returns
end ToyMtFramework.ProcessAll
