import ToyMtFramework.SchedulePathReports
import Mathlib.Logic.Relation

/-! Why a module is started. A path requests its filters, and a module that is started requests what
it gets; so each module that is started in an event is led to by the getters from a filter that a path
has requested in the same event. What the filters in front of that one have had fetched is there. -/
namespace ToyMtFramework.Schedule
open Activities Transition
open Loop

variable {L D E : Type} [DecidableEq L] [DecidableEq D] {job : Job L D E}

/-- The getters of the module ask for the other one. -/
def Job.Requests (job : Job L D E) (v w : Wrapper L D) : Prop :=
  w ∈ job.getters v

theorem Job.Requests.producer {v w : Wrapper L D} (needed : job.Requests v w) :
    ∃ k : L × D, w = .producer k.1 k.2 := by
  rw [Job.Requests,Job.getters] at needed
  cases found : job.module v with
  | none => simp [found] at needed
  | some m =>
    rw [found] at needed
    obtain ⟨k,_,same⟩ := List.mem_map.mp needed
    exact ⟨k,same.symm⟩

/-- A path has requested a filter from which the getters lead to the module. -/
def Rooted (job : Job L D E) (log : List (Entry L D E)) (w : Wrapper L D) : Prop :=
  ∃ p i label, .requested p i ∈ log ∧ (job.path p)[i]? = some label ∧
    Relation.ReflTransGen job.Requests (.filter label) w

def Frame.starts : Frame L D E → Option (Wrapper L D)
  | .doWorkAsync w _ | .startWork w _ | .prefetch w _ => some w
  | _ => none

structure Roots (job : Job L D E) (sh : Shared L D E) (bag : Multiset (Frame L D E))
    (log : List (Entry L D E)) : Prop where
  started : ∀ w, sh.workStarted w = true → Rooted job log w
  frames : ∀ f ∈ bag, ∀ w, f.starts = some w → Rooted job log w

section React
variable {sh : Shared L D E} {f g : Frame L D E} {r : Reaction (Shared L D E) (Frame L D E)}
  {rest : Multiset (Frame L D E)} {log es : List (Entry L D E)} {w : Wrapper L D}

theorem Rooted.extend (rooted : Rooted job log w) : Rooted job (log ++ es) w := by
  obtain ⟨p,i,label,requested,at_i,leads⟩ := rooted
  exact ⟨p,i,label,List.mem_append_left es requested,at_i,leads⟩

theorem Rooted.getter {v : Wrapper L D} (rooted : Rooted job log w) (needed : v ∈ job.getters w) :
    Rooted job log v := by
  obtain ⟨p,i,label,requested,at_i,leads⟩ := rooted
  exact ⟨p,i,label,requested,at_i,leads.tail needed⟩

/-- What a frame starts next is rooted as well. -/
theorem Roots.frames_react (roots : Roots job sh (f ::ₘ rest) log) (sourced : Sourced job f)
    (logs : Logs job sh f r es) (member : g ∈ r.frames) (starts : g.starts = some w) :
    Rooted job (log ++ es) w := by
  have inherited (v : Wrapper L D) (before : f.starts = some v) : Rooted job (log ++ es) v :=
    (roots.frames f (Multiset.mem_cons_self f rest) v before).extend
  cases logs with
  | requested p i label fatal at_i =>
    obtain rfl := List.mem_singleton.mp (Multiset.mem_coe.mp member)
    obtain rfl := Option.some.inj starts
    exact ⟨p,i,label,List.mem_append_right log (List.mem_singleton.mpr rfl),at_i,.refl⟩
  | performed | finished | reported => simp at member <;> subst member <;> cases starts
  | runAsync p r reacts =>
    cases reacts <;> simp at member <;> rcases member with rfl | rfl <;> cases starts
  | silent f r reacts silent unrequested =>
    cases reacts with
    | add v t known waiting =>
      rcases List.mem_pair.mp (Multiset.mem_coe.mp member) with rfl | rfl
      · obtain rfl := Option.some.inj starts
        exact inherited v rfl
      · cases starts
    | addLate v t known waiting =>
      rcases List.mem_pair.mp (Multiset.mem_coe.mp member) with rfl | rfl
      · cases starts
      · obtain rfl := Option.some.inj starts
        exact inherited v rfl
    | startWork v added started =>
      obtain rfl := List.mem_singleton.mp (Multiset.mem_coe.mp member)
      obtain rfl := Option.some.inj starts
      exact inherited v rfl
    | prefetch v x gs =>
      have rooted := inherited v rfl
      rcases List.mem_pair.mp (Multiset.mem_coe.mp member) with rfl | rfl
      · obtain rfl := Option.some.inj starts
        exact rooted.getter (sourced x List.mem_cons_self)
      · obtain rfl := Option.some.inj starts
        exact rooted
    | runFilter p i label fatal at_i =>
      rw [unrequested p i rfl] at fatal
      cases fatal
    | _ => simp at member <;> rcases member with rfl | rfl <;> cases starts

theorem Roots.react (roots : Roots job sh (f ::ₘ rest) log) (sourced : Sourced job f)
    (logs : Logs job sh f r es) : Roots job r.shared (r.frames + rest) (log ++ es) := by
  constructor
  · intro w started
    rcases started_react logs.reacts started with was | starts
    · exact (roots.started w was).extend
    · exact roots.frames_react sourced logs starts rfl
  · intro g member w starts
    rcases Multiset.mem_add.mp member with new | old
    · exact roots.frames_react sourced logs new starts
    · exact (roots.frames g (Multiset.mem_cons_of_mem old) w starts).extend

end React

structure EventRooted (job : Job L D E) (sh : Shared L D E) (bag : Multiset (Frame L D E))
    (log : List (Entry L D E)) : Prop where
  right : EventRight job sh bag log
  roots : Roots job sh bag log

theorem rootedRule (job : Job L D E) : Rule job (EventRooted job) (BetweenRight job) where
  start := BetweenRight.start job
  blank := fun _ rooted _ member => rooted.right.blanks member
  react := fun round history rooted going logs => ⟨rooted.right.react history going logs,
    rooted.roots.react (round.sourced _ (Multiset.mem_cons_self _ _)) logs⟩
  release := fun _ rooted => rooted.right.release
  control := fun acts right => right.controls acts
  begin := by
    intro sh step log between round right
    refine ⟨right.begin between round,fun w started => ?_,by simp [Frame.starts]⟩
    have left := between.started w started
    simp [unflagged] at left
  fatalInside := fun rooted => ⟨rooted.right.fatal,rooted.roots.started,rooted.roots.frames⟩
  fatalOutside := fun right => right.fatal

/-- What a module gets, directly or through its getters, has been produced when the module has been
supplied. -/
theorem ModulesLogged.fetched {log : List (Entry L D E)} (logged : ModulesLogged job log) {w v : Wrapper L D}
    (supplied : Supplied job log w) (leads : Relation.TransGen job.Requests w v) : .finished v none ∈ log := by
  induction leads with
  | single needed => exact supplied _ needed
  | tail _ needed finished =>
    obtain ⟨outcome,performed,_⟩ := logged.normal _ finished
    exact (logged.performed _ _ performed).supplied _ needed

omit [DecidableEq L] [DecidableEq D] in
/-- In front of a filter that has been requested, each filter of the path has let the event pass. -/
theorem PathLogged.passed_before {p i j : Nat} {log : List (Entry L D E)} (path : PathLogged job p log)
    (requested : .requested p i ∈ log) (earlier : j < i) : FilterPassed job p j log := by
  have inside : i ∈ requests p log := List.mem_filterMap.mpr ⟨_,requested,by simp [Entry.request]⟩
  rw [path.order,List.mem_range] at inside
  have next : j + 1 ∈ requests p log := by
    rw [path.order,List.mem_range]
    omega
  obtain ⟨entry,member,equal⟩ := List.mem_filterMap.mp next
  cases entry with
  | requested q k =>
    by_cases same : p = q
    · subst same
      obtain rfl : k = j + 1 := by simpa [Entry.request] using equal
      obtain ⟨before,later,rfl⟩ := List.append_of_mem member
      exact (path.passed before later j rfl).extend
    · simp [Entry.request,same] at equal
  | _ => simp [Entry.request] at equal

/-- A body is run for a module that is rooted. -/
theorem Loop.Phase.rooted {sh : Shared L D E} {log : List (Entry L D E)} {bag : Multiset (LoopFrame L D E)}
    (phase : Phase job (EventRooted job) (BetweenRight job) sh log bag) {w : Wrapper L D}
    {gs : List (Wrapper L D)} {values : List Int} (member : .schedule (.body w gs values) ∈ bag) :
    Rooted job log w := by
  cases phase with
  | inside frames round history rooted =>
    obtain ⟨f,present,same⟩ := Multiset.mem_map.mp member
    cases same
    have module := round.counts.modules w
    have works : 0 < weigh (working w) frames := weigh_pos present (by simp [working])
    refine rooted.roots.started w ?_
    by_contra unstarted
    rw [if_neg unstarted] at module
    omega
  | between c frames outside between fresh history right =>
    have present := (Multiset.mem_cons.mp member).resolve_left (outside _).symm
    exact absurd present (refused_absent between.refused (by simp))
  | ended frames refused right => exact absurd member (refused_absent refused (by simp))

end ToyMtFramework.Schedule
