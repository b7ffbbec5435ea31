import ToyMtFramework.OpenMPAnnounceUnread
import ToyMtFramework.ScheduleAnnounceReset

/-! The resets of the waiting lists, in both frameworks. In the one with TBB a module that an event has started
is done before the event ends, up to the last look of `announce` at its nodes; in the one with OpenMP a producer
that a body asks for by its label can be left behind altogether. -/
namespace ToyMtFramework.ListResets
open Activities Transition
open ToyMtFramework.Schedule (turns)
open ToyMtFramework.Schedule.Loop (singlePath)

/-- No list of a module is reset while a thread is inside `announce` of it, and no thread is inside
`announce` of a list from its reset until the module has finished again. -/
theorem lists_unread {L D E : Type} [DecidableEq L] [DecidableEq D] :
    (∀ (job : Schedule.Job L D E) (source : List Nat) (s : Schedule.Announce.State L D E),
      Reaches (Schedule.Announce.next job) Schedule.Announce.Unhurried (Schedule.Announce.initial L D E source) s →
        ∀ w, (∀ c, .loop c ∈ s.bag → Schedule.Announce.resettingList c = some w →
            weigh (Schedule.Announce.announcing w) s.bag = 0 ∧ s.shared.nodes w = []) ∧
          (s.shared.waiting w = true → weigh (Schedule.Announce.announcing w) s.bag = 0)) ∧
    ∀ (job : OpenMP.Job L D E) (s : OpenMP.Announce.Events L D E),
      Reaches (OpenMP.Announce.Events.next job) OpenMP.Announce.Events.Unhurried
        (OpenMP.Announce.Events.initial job) s →
          ∀ w, (∀ ws, s.resets w.stream = some (w :: ws,.waitingTasks) →
              (∀ f ∈ s.modules.bag, ¬f.Announces w) ∧ s.modules.shared.nodes w = []) ∧
            ((s.modules.shared.base.list w).waiting = true → ∀ f ∈ s.modules.bag, ¬f.Announces w) :=
  ⟨Schedule.Announce.reset_unread,fun _ _ run => OpenMP.Announce.reset_unread run⟩

/-- Event 0 of `singlePath` up to the reset of the list of filter 0, with thread 2 out of `doneWaiting`
before the event ends. -/
def calmEnd : List Schedule.Action :=
  turns [(18,0),(10,2),(3,3),(3,1),(2,4),(4,5)]

/-- The filter asks for the product in its body; the producer may be taken out of its queue by any thread. -/
def asking : OpenMP.Job Nat Unit Unit where
  filters := [⟨0,.threadSafeBetweenInstances,[],[],fun _ => .get 1 () fun _ => .finish⟩]
  producers := [⟨1,.threadSafeBetweenModules,[],[()],fun _ => .put () 7 .finish⟩]

def acts (threads : List Nat) : List (OpenMP.Announce.EventAction Nat Unit) :=
  threads.map fun thread => .act thread ⟨0,none⟩

/-- The first event up to the push of the producer. -/
def pushed : List (OpenMP.Announce.EventAction Nat Unit) :=
  List.replicate 7 (.reset 0) ++
    .request ⟨0,.filter 0⟩ none :: acts (List.replicate 6 0 ++ List.replicate 10 1 ++ [2])

/-- The producer is taken out of its queue before the region ends, and the event ends after both modules. -/
def answered : List (OpenMP.Announce.EventAction Nat Unit) :=
  pushed ++ acts (List.replicate 11 3 ++ List.replicate 9 1) ++ [.callback 0,.reset 0,.reset 0]

theorem lists_unread_both :
    (∃ s, execute (Schedule.Announce.next singlePath) (Schedule.Announce.initial Nat Unit Unit [0,1]) calmEnd =
        some s ∧ s.top 5 = some (.loop (.scheduleReset [0] .waitingTasks)) ∧
      weigh (Schedule.Announce.announcing (.filter 0)) s.bag = 0 ∧ s.shared.nodes (.filter 0) = []) ∧
    ∃ s, execute (OpenMP.Announce.Events.next asking) (OpenMP.Announce.Events.initial asking) answered = some s ∧
      s.resets 0 = some ([⟨0,.producer 1 ()⟩,⟨0,.filter 0⟩],.waitingTasks) ∧
        (∀ f ∈ s.modules.bag, ¬f.Announces ⟨0,.producer 1 ()⟩) ∧
          s.modules.shared.nodes ⟨0,.producer 1 ()⟩ = [] := by
  constructor
  · refine ⟨_,rfl,rfl,?_⟩
    have run : Reaches (Schedule.Announce.next singlePath) Schedule.Announce.Unhurried
        (Schedule.Announce.initial Nat Unit Unit [0,1]) _ := execute_reaches calmEnd (by decide) rfl
    exact (lists_unread.1 singlePath [0,1] _ run (.filter 0)).1 _ (Pool.top_mem (k := 5) rfl) rfl
  · obtain ⟨s,ran,ahead⟩ : ∃ s,
        execute (OpenMP.Announce.Events.next asking) (OpenMP.Announce.Events.initial asking) answered = some s ∧
          s.resets 0 = some ([⟨0,.producer 1 ()⟩,⟨0,.filter 0⟩],.waitingTasks) := ⟨_,rfl,rfl⟩
    have admitted : Admitted (OpenMP.Announce.Events.next asking) OpenMP.Announce.Events.Unhurried
        (OpenMP.Announce.Events.initial asking) answered := by
      decide +kernel
    exact ⟨s,ran,ahead,(lists_unread.2 asking s (execute_reaches answered admitted ran) ⟨0,.producer 1 ()⟩).1 _ ahead⟩

/-- Event 0 of `singlePath` up to the reset of the list of filter 0: thread 2 has released the only
task in that list and is about to look at its node. -/
def lateLook : List Schedule.Action :=
  turns [(18,0),(8,2),(3,3),(3,1),(2,4),(4,5)]

/-- The region ends with the producer in its queue, and so does the event. When the producer has announced in
the next one, its list is about to be reset. -/
def leftBehind : List (OpenMP.Announce.EventAction Nat Unit) :=
  pushed ++ acts (List.replicate 9 1) ++ .callback 0 :: [.reset 0,.reset 0] ++ acts (List.replicate 6 3)

theorem lists_read :
    (∃ s, Reachable (Schedule.Announce.next singlePath) (Schedule.Announce.initial Nat Unit Unit [0,1]) s ∧
      s.top 5 = some (.loop (.scheduleReset [0] .waitingTasks)) ∧
        s.top 2 = some (.look (.filter 0) [] none) ∧
          weigh (Schedule.Announce.announcing (.filter 0)) s.bag = 1) ∧
    ∃ s, Reachable (OpenMP.Announce.Events.next asking) (OpenMP.Announce.Events.initial asking) s ∧
      s.resets 0 = some ([⟨0,.producer 1 ()⟩,⟨0,.filter 0⟩],.waitingTasks) ∧
        s.modules.top 3 = some ⟨none,.walk ⟨0,.producer 1 ()⟩ [.doneTask 0 ⟨0,.producer 1 ()⟩] false⟩ :=
  ⟨⟨_,execute_reachable lateLook rfl,rfl,rfl,rfl⟩,_,execute_reachable leftBehind rfl,rfl,rfl⟩

end ToyMtFramework.ListResets
