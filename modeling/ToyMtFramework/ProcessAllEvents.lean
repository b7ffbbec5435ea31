import ToyMtFramework.ProcessAllStreams
import ToyMtFramework.ScheduleEventFailures

/-! The events of all the streams of `processAll`. Each event of the source is finished by one stream,
once, and what each stream keeps with its journal holds in the whole job, for every number of
streams and every order in which their frames act. -/
namespace ToyMtFramework.ProcessAll
open Activities Transition
open Schedule (Job Wrapper Entry)
open Schedule.Loop (LoopFrame LoopShared Journal StreamRule logged journalled resetting calling)

variable {L D E : Type}

abbrev Record (L D E : Type) := List (Entry L D E) × Journal L D E

section Machine
variable [DecidableEq L] [DecidableEq D]

def recordTurn (job : Job L D E) (sh : Shared L D E) (seed : Nat) (f : Frame L D E)
    (records : Nat → Record L D E) : Nat → Record L D E :=
  match acts f with
  | none => records
  | some (i,g) => Function.update records i
    (logged job ⟨sh.streams i,sh.source⟩ (records i).1 seed g,
      journalled ⟨sh.streams i,sh.source⟩ (records i).1 (records i).2 g)

def record (job : Job L D E) (s : State L D E) (a : Nat × Nat) (records : Nat → Record L D E) :
    Nat → Record L D E :=
  (s.top a.1).elim records fun f => recordTurn job s.shared a.2 f records

def nextRecorded (job : Job L D E) (N : Nat) :
    State L D E × (Nat → Record L D E) → Nat × Nat → Option (State L D E × (Nat → Record L D E)) :=
  recording (next job N) (record job)

def noRecords (L D E : Type) : Nat → Record L D E :=
  fun _ => ([],Journal.empty L D E)

/-- No module is reset while a call of `doWorkAsync` on it, in the same stream, has yet to exchange
the flag. -/
def Quiet (s : State L D E) (a : Nat × Nat) : Prop :=
  ∀ own ∈ (s.top a.1).bind acts, ∀ w ∈ resetting own.2, weigh (ofStream (calling w) own.1) s.bag = 0

instance (s : State L D E) (a : Nat × Nat) : Decidable (Quiet s a) :=
  inferInstanceAs (Decidable (∀ own ∈ (s.top a.1).bind acts, ∀ w ∈ resetting own.2,
    weigh (ofStream (calling w) own.1) s.bag = 0))

structure StreamsKeep (Keeps : Schedule.Shared L D E → List (Entry L D E) → Multiset (LoopFrame L D E) →
    Journal L D E → Prop) (N : Nat) (sh : Shared L D E) (bag : Multiset (Frame L D E))
    (records : Nat → Record L D E) (waiting : Multiset (QueueId L D × QueuedTask L D E)) : Prop where
  queued : Queued sh waiting
  streams : ∀ i < N, Keeps (sh.streams i) (records i).1 (streamBag i sh.main bag waiting) (records i).2
  others : ∀ i, N ≤ i → streamBag i sh.main bag waiting = 0

end Machine

section Keep
variable [DecidableEq L] [DecidableEq D] {job : Job L D E} {N seed : Nat} {sh : Shared L D E} {f : Frame L D E}
  {bag rest : Multiset (Frame L D E)} {r : Reaction (Shared L D E) (Frame L D E)} {records : Nat → Record L D E}
  {waiting : Multiset (QueueId L D × QueuedTask L D E)}
  {Keeps : Schedule.Shared L D E → List (Entry L D E) → Multiset (LoopFrame L D E) → Journal L D E → Prop}

omit [DecidableEq L] [DecidableEq D] in
theorem mem_inStream {i : Nat} {g : LoopFrame L D E} :
    g ∈ bag.bind (Frame.inStream i) ↔ ∃ f ∈ bag, acts f = some (i,g) := by
  rw [Multiset.mem_bind]
  refine exists_congr fun f => and_congr_right fun _ => ?_
  unfold Frame.inStream
  cases acts f with
  | none => simp
  | some own =>
    obtain ⟨j,h⟩ := own
    by_cases same : j = i
    · simp [same,eq_comm]
    · simp [same]

/-- A call of `doWorkAsync` is on a thread. -/
theorem calling_streamBag {i : Nat} {w : Wrapper L D} {main : Main E}
    (quiet : weigh (ofStream (calling w) i) bag = 0) (added : Nat) :
    .schedule (.startWork w added) ∉ streamBag i main bag waiting := by
  intro member
  rw [streamBag,Multiset.mem_add,Multiset.mem_add,mem_inStream] at member
  rcases member with (⟨f,present,own⟩ | queued) | launch
  · cases f with
    | stream j g =>
      cases own
      simpa [ofStream,calling] using weigh_eq_zero quiet present
    | serialTask t => simp [acts,QueuedTask.frame] at own
    | _ => cases own
  · obtain ⟨t,_,inside⟩ := Multiset.mem_bind.mp queued
    unfold QueuedTask.inStream at inside
    split at inside <;> simp [QueuedTask.frame] at inside
  · cases Multiset.eq_of_mem_replicate launch

/-- The stream for which a frame acts is one of those below `N`. -/
theorem StreamsKeep.bound (keep : StreamsKeep Keeps N sh (f ::ₘ rest) records waiting) {i : Nat}
    {g : LoopFrame L D E} (mine : acts f = some (i,g)) : i < N := by
  by_contra outside
  have none := keep.others i (by omega)
  rw [streamBag_cons,Frame.inStream,mine] at none
  simp at none

theorem StreamsKeep.react (keep : StreamsKeep Keeps N sh (f ::ₘ rest) records waiting)
    (rule : StreamRule job Keeps)
    (quiet : ∀ i g w, acts f = some (i,g) → resetting g = some w →
      weigh (ofStream (calling w) i) (f ::ₘ rest) = 0)
    (reacted : react job N sh f seed = some r) :
    ∃ left, StreamsKeep Keeps N r.shared (r.frames + rest) (recordTurn job sh seed f records) left := by
  obtain ⟨left,queued,turns⟩ := react_turns keep.queued reacted
  refine ⟨left,queued,?_,?_⟩
  · intro i inside
    have before := keep.streams i inside
    cases turns with
    | silent none streams source bags =>
      rw [recordTurn,none,streams,bags]
      rwa [streamBag_cons,Frame.inStream,none,zero_add] at before
    | acting j g x mine reacted own source others bags =>
      rw [recordTurn,mine,bags]
      have owner := keep.streams j (keep.bound mine)
      have place : streamBag j sh.main (f ::ₘ rest) waiting = g ::ₘ streamBag j sh.main rest waiting := by
        rw [streamBag_cons,Frame.inStream,mine]
        simp
      have after := rule.react owner place
        (fun w resets added => calling_streamBag (quiet j g w mine resets) added) reacted
      by_cases same : j = i
      · subst j
        rw [own]
        simpa using after
      · rw [if_neg same,zero_add]
        have other : streamBag i sh.main (f ::ₘ rest) waiting = streamBag i sh.main rest waiting := by
          rw [streamBag_cons,Frame.inStream,mine]
          simp [same]
        rw [other] at before
        rcases others i (Ne.symm same) with still | ⟨set,still⟩
        · simpa [still,Function.update_of_ne (Ne.symm same)] using before
        · simpa [still,Function.update_of_ne (Ne.symm same)] using rule.fatal after set before
  · intro i outside
    have before := keep.others i outside
    cases turns with
    | silent none streams source bags =>
      rw [bags]
      rwa [streamBag_cons,Frame.inStream,none,zero_add] at before
    | acting j g x mine reacted own source others bags =>
      rw [streamBag_cons,Frame.inStream,mine] at before
      rw [bags]
      by_cases same : j = i
      · simp [same] at before
      · simpa [same] using before

theorem StreamsKeep.next (rule : StreamRule job Keeps) {s t : State L D E × (Nat → Record L D E)}
    {a : Nat × Nat} (keep : ∃ waiting, StreamsKeep Keeps N s.1.shared s.1.bag s.2 waiting)
    (quiet : Quiet s.1 a) (taken : nextRecorded job N s a = some t) :
    ∃ waiting, StreamsKeep Keeps N t.1.shared t.1.bag t.2 waiting := by
  obtain ⟨waiting,keep⟩ := keep
  obtain ⟨moved,recorded⟩ := recording_taken taken
  unfold ProcessAll.next at moved
  split at moved
  · cases moved
  · obtain ⟨f,r,rest,reacted,shared,before,after,top⟩ := Pool.step_bag moved
    rw [record,top,Option.elim_some] at recorded
    rw [before] at keep
    rw [shared,after,recorded]
    refine keep.react rule (fun i g w mine resets => ?_) reacted
    have own := quiet (i,g) (by simp [top,mine]) w resets
    rwa [before] at own

theorem StreamsKeep.initial (rule : StreamRule job Keeps) (some : 0 < N) (source : List Nat) :
    StreamsKeep Keeps N (initial L D E N source).shared (initial L D E N source).bag (noRecords L D E) 0 := by
  have bag (i : Nat) : streamBag i (ProcessAll.initial L D E N source).shared.main
      (ProcessAll.initial L D E N source).bag 0 =
      if i < N then {.handleNextEventAsync none} else 0 := by
    have launched := (initial_held (L := L) (D := D) (E := E) some source).launched i
    have fresh : ¬(i ∈ (ProcessAll.initial L D E N source).shared.holding ∨
        i ∈ (ProcessAll.initial L D E N source).shared.ended) := by simp [ProcessAll.initial]
    rw [if_neg fresh,Nat.add_zero] at launched
    have none : (ProcessAll.initial L D E N source).bag.bind (Frame.inStream i) = 0 := by
      simp [ProcessAll.initial,Pool.bag,Frame.inStream,acts]
    rw [streamBag,none,launched]
    split <;> simp
  refine ⟨fun q => rfl,fun i inside => ?_,fun i outside => ?_⟩
  · rw [bag,if_pos inside]
    exact rule.start
  · rw [bag,if_neg (by omega)]

end Keep

section Given
variable [DecidableEq L] [DecidableEq D] {job : Job L D E} {N seed : Nat} {sh : Shared L D E} {f : Frame L D E}
  {bag rest : Multiset (Frame L D E)} {r : Reaction (Shared L D E) (Frame L D E)} {records : Nat → Record L D E}
  {waiting : Multiset (QueueId L D × QueuedTask L D E)}
  {Keeps : Schedule.Shared L D E → List (Entry L D E) → Multiset (LoopFrame L D E) → Journal L D E → Prop}

def accepted (N : Nat) (records : Nat → Record L D E) : List Nat :=
  (List.range N).flatMap fun i => (records i).2.accepted

def finished (N : Nat) (records : Nat → Record L D E) : List Nat :=
  (List.range N).flatMap fun i => (records i).2.finished.map Schedule.Loop.Finished.eventIndex

omit [DecidableEq L] [DecidableEq D] in
theorem count_accepted (records : Nat → Record L D E) {i : Nat} (inside : i < N) (own : Record L D E) (n : Nat) :
    (accepted N (Function.update records i own)).count n + (records i).2.accepted.count n =
      (accepted N records).count n + own.2.accepted.count n := by
  have others : ((List.range N).erase i).flatMap (fun k => (Function.update records i own k).2.accepted) =
      ((List.range N).erase i).flatMap fun k => (records k).2.accepted := by
    refine List.flatMap_congr fun k member => ?_
    rw [Function.update_of_ne (List.nodup_range.mem_erase_iff.mp member).1]
  have split (g : Nat → List Nat) :
      ((List.range N).flatMap g).count n = (g i).count n + (((List.range N).erase i).flatMap g).count n := by
    rw [((List.perm_cons_erase (List.mem_range.mpr inside)).flatMap_right g).count_eq,List.flatMap_cons,
      List.count_append]
  rw [accepted,accepted,split,split,others,Function.update_self]
  omega

/-- The source gives each event to one stream. -/
theorem StreamsKeep.given {source : List Nat} (keep : StreamsKeep Keeps N sh (f ::ₘ rest) records waiting)
    (given : (accepted N records ++ sh.source).Perm source) (reacted : ProcessAll.react job N sh f seed = some r) :
    (accepted N (recordTurn job sh seed f records) ++ r.shared.source).Perm source := by
  obtain ⟨left,_,turns⟩ := react_turns keep.queued reacted
  cases turns with
  | silent none streams same bags => rwa [recordTurn,none,same]
  | acting i g x mine reacted own same others bags =>
    rw [recordTurn,mine,same]
    refine List.Perm.trans (List.perm_iff_count.mpr fun n => ?_) given
    have update := count_accepted records (keep.bound mine)
      (logged job ⟨sh.streams i,sh.source⟩ (records i).1 seed g,
        journalled ⟨sh.streams i,sh.source⟩ (records i).1 (records i).2 g) n
    have moved := congrArg (List.count n) (Schedule.Loop.source_react (records i).1 (records i).2 reacted)
    rw [List.count_append,List.count_append] at moved ⊢
    dsimp only at update moved ⊢
    omega

end Given
end ToyMtFramework.ProcessAll
