import ToyMtFramework.EventLoopEvents
import ToyMtFramework.OpenMPGetPause
import ToyMtFramework.OpenMPGetStreams
import ToyMtFramework.ScheduleJournal

/-! The event loop together with the modules. What the loop does with the events of the source needs
nothing of the modules; that a stream which the source has refused executes no module any more does.
A call of `doWorkAsync` left over from an event, and in OpenMP a producer that `Event::get` has started
and nobody waits for, are the ways for it to go on. -/
namespace ToyMtFramework.EventLoop
open Activities Transition

variable {L D E : Type} [DecidableEq L] [DecidableEq D]

section Refusal
open Schedule.Loop (LoopFrame OnlyCalls Refused refused_react react_schedule nextIn reactIn)
open Schedule (Framework)

variable {framework : Framework} {job : Schedule.Job L D E}

/-- The state of a stream that has been refused, and the executions of its modules. -/
def Ended (executed : List (Schedule.Run L D E)) (starts : List (Schedule.Start L D))
    (s : Schedule.Loop.State L D E) : Prop :=
  s.shared.schedule.ran = executed ∧ s.shared.schedule.starts = starts ∧
    ∃ frames, s.bag = frames.map LoopFrame.schedule ∧ Refused s.shared.schedule frames

/-- What is left of a refused stream are calls that find their module started. -/
theorem Ended.next {executed : List (Schedule.Run L D E)} {starts : List (Schedule.Start L D)}
    {s t : Schedule.Loop.State L D E} {a : Schedule.Action} (ended : Ended executed starts s)
    (taken : nextIn framework job s a = some t) : Ended executed starts t := by
  obtain ⟨ran,started,frames,bag,refused⟩ := ended
  cases a with
  | otherStreamFails =>
    cases taken
    exact ⟨ran,started,frames,bag,refused⟩
  | act thread seed =>
    obtain ⟨g,r,rest,reacted,shared,before,after,_⟩ := Pool.step_bag taken
    have member : g ∈ frames.map LoopFrame.schedule := by
      rw [← bag,before]
      exact Multiset.mem_cons_self g rest
    obtain ⟨f,present,rfl⟩ := Multiset.mem_map.mp member
    obtain ⟨others,rfl⟩ := Multiset.exists_cons_of_mem present
    have same : reactIn framework job s.shared (.schedule f) seed =
        Schedule.Loop.react job s.shared (.schedule f) seed := by
      simp only [reactIn,Schedule.Loop.react,
        Schedule.reactIn_blank framework job (Schedule.Loop.refused_blank refused present)]
    rw [same] at reacted
    obtain ⟨inner,made,reached,placed⟩ := react_schedule reacted
    obtain ⟨rfl,none⟩ := refused_react refused made
    rw [Multiset.map_cons,before] at bag
    obtain rfl := (Multiset.cons_inj_right _).mp bag
    have kept : t.shared = s.shared := shared.trans reached
    refine ⟨?_,?_,others,?_,?_⟩
    · rw [kept]
      exact ran
    · rw [kept]
      exact started
    · rw [after,placed,none]
      simp
    · rw [kept]
      exact refused.drop

/-- A stream that the source refuses is left with such calls, if no module has been reset under one. -/
theorem refused_ended {source : List Nat} {s t : Schedule.Loop.State L D E} {thread seed : Nat}
    {step : Schedule.Loop.ResetStep}
    (run : Reaches (nextIn framework job) Schedule.Loop.Quiet (Schedule.Loop.initial L D E source) s)
    (asks : s.top thread = some (.eventReset [] step)) (none : s.shared.source = [])
    (taken : nextIn framework job s (.act thread seed) = some t) :
    Ended t.shared.schedule.ran t.shared.schedule.starts t := by
  obtain ⟨g,r,rest,reacted,shared,before,after,top⟩ := Pool.step_bag taken
  obtain rfl := Option.some.inj (asks.symm.trans top)
  obtain ⟨log,logged⟩ := run.recorded (Schedule.Loop.record job) []
  have phase : Schedule.Loop.Phase job _ _ s.shared.schedule log s.bag :=
    (Schedule.eventRule job).phase logged
  rw [before] at phase
  have answered : Schedule.Loop.react job s.shared (.eventReset [] step) seed = some r := reacted
  rcases Schedule.Loop.asked answered with ⟨_,rfl⟩ | ⟨n,ns,given,_⟩
  · generalize whole : LoopFrame.eventReset [] step ::ₘ rest = bag at phase
    have member : .eventReset [] step ∈ bag := by
      rw [← whole]
      exact Multiset.mem_cons_self _ rest
    cases phase with
    | inside frames round history holds => simp at member
    | ended frames refused holds => simp at member
    | between c frames outside between fresh history holds =>
      obtain rfl : .eventReset [] step = c := by simpa using member
      obtain rfl := (Multiset.cons_inj_right _).mp whole
      refine ⟨rfl,rfl,frames,?_,?_⟩
      · rw [after]
        simp
      · rw [shared]
        exact between.refused
  · rw [none] at given
    cases given

/-- In every run that goes on from there no module is started or executed any more. -/
theorem Ended.reaches {executed : List (Schedule.Run L D E)} {starts : List (Schedule.Start L D)}
    {s t : Schedule.Loop.State L D E} (ended : Ended executed starts s)
    (run : Reachable (nextIn framework job) s t) : Ended executed starts t := by
  have preserved (s : Schedule.Loop.State L D E) (a : Schedule.Action) (t : Schedule.Loop.State L D E)
      (ended : Ended executed starts s) (_ : True) (taken : nextIn framework job s a = some t) :
      Ended executed starts t := ended.next taken
  exact run.invariant preserved ended

end Refusal

/-- What the event loop does in every run, and what a refused stream does if no module has been reset
under a call of `doWorkAsync`; for the modules of OpenMP that call `edm::Event::get` also, if nothing of
an event is going on when the stream comes back to the source. -/
structure EventsProcessed (L D E : Type) [DecidableEq L] [DecidableEq D] (c : Config) : Prop where
  delivered : ∀ s, Reachable (next c) (initial c) s → Delivered c s
  refused : ∀ (framework : Schedule.Framework) (job : Schedule.Job L D E) (source : List Nat)
    (s t u : Schedule.Loop.State L D E) (thread seed : Nat) (step : Schedule.Loop.ResetStep),
    Reaches (Schedule.Loop.nextIn framework job) Schedule.Loop.Quiet (Schedule.Loop.initial L D E source) s →
      s.top thread = some (.eventReset [] step) → s.shared.source = [] →
        Schedule.Loop.nextIn framework job s (.act thread seed) = some t →
          Reachable (Schedule.Loop.nextIn framework job) t u →
            Ended t.shared.schedule.ran t.shared.schedule.starts u
  silent : ∀ (job : OpenMP.Job L D E) (s t : OpenMP.Streams L D E) (stream : Nat),
    Reaches (OpenMP.Streams.next job) OpenMP.Streams.Over (OpenMP.Streams.initial L D E) s →
      s.refused stream = true → Reachable (OpenMP.Streams.next job) s t →
        OpenMP.Streams.Silent stream (s.executions stream) t

def fetchedRefused : List (OpenMP.StreamAction Nat Unit) :=
  OpenMP.fetched.map OpenMP.StreamAction.module ++ [.refuse 0]

/-- The late call of `lateCallRun` has started filter 2 in event 1, and its task waits for a thread when
that event ends. -/
def lateTaskRun : List Schedule.Action :=
  Schedule.turns [(29,0),(4,3),(3,2),(4,6),(3,5),(4,7),(7,8),(4,11),(3,9),(3,10),(3,12),(3,1),(3,13),(3,4),
    (2,14),(29,15),(4,18),(3,17),(4,21),(3,20),(3,22),(3,16),(3,23),(3,19),(2,24),(3,7),(1,25)]

end ToyMtFramework.EventLoop
