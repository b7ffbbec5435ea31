import ToyMtFramework.OpenMPGetWork

/-! The streams of the OpenMP framework that the source has refused. `Event::reset` has been called
for such a stream and `Schedule::reset` has not; no path asks for a filter any more, and no further
event begins. What a frame does stays in the stream it concerns, so a stream that has nothing going
on when it is refused executes nothing ever after. -/
namespace ToyMtFramework.OpenMP
open Activities Transition

variable {L D E : Type}

/-- A call of `prefetchAsync` asks for products of its own event. -/
def Frame.Native (f : Frame L D E) : Prop :=
  match f.stage with
  | .prefetch w gs => ∀ g ∈ gs, g.stream = w.stream
  | _ => True

section Frames
variable [DecidableEq L] [DecidableEq D] {job : Job L D E} {sh : Shared L D E} {f g : Frame L D E}
  {r : Reaction (Shared L D E) (Frame L D E)}

theorem getters_stream {w v : ModuleWrapper L D} (member : v ∈ job.getters w) : v.stream = w.stream := by
  unfold Job.getters at member
  split at member
  · cases member
  · obtain ⟨g,_,rfl⟩ := List.mem_map.mp member
    rfl

omit [DecidableEq L] [DecidableEq D] in
theorem spawned_concerns {t : TaskId L D} {region : Option Nat} {stream : Nat}
    (member : g ∈ (t.spawned region : List (Frame L D E))) (concerned : g.concerns stream = true) :
    t.concerns stream = true := by
  cases t with
  | runModule w =>
    obtain rfl := List.mem_singleton.mp member
    exact concerned
  | _ => cases member

theorem native_react (native : f.Native) (reacts : Reacts job sh f r) (member : g ∈ r.frames) : g.Native := by
  cases reacts with
  | startWork region w started =>
    obtain rfl := List.mem_singleton.mp (Multiset.mem_coe.mp member)
    exact fun v listed => getters_stream listed
  | prefetch region w v gs =>
    rcases List.mem_pair.mp (Multiset.mem_coe.mp member) with rfl | rfl
    · trivial
    · exact fun u listed => native u (List.mem_cons_of_mem v listed)
  | decrementLast region t last =>
    have spawned : g ∈ (t.spawned region : List (Frame L D E)) := by simpa using member
    cases t with
    | runModule w =>
      obtain rfl := List.mem_singleton.mp spawned
      trivial
    | _ => cases spawned
  | startRefused | finishedTask | decrement | doneWaiting => simp at member
  | _ =>
    simp only [Reaction.frames_mk,List.append_nil,List.nil_append,List.cons_append,Multiset.mem_coe,
      List.mem_cons,List.not_mem_nil,or_false] at member
    rcases member with rfl | rfl <;> trivial

/-- What a frame does concerns the streams that it concerns itself. -/
theorem concerns_react (native : f.Native) (reacts : Reacts job sh f r) (member : g ∈ r.frames) {stream : Nat}
    (concerned : g.concerns stream = true) : f.concerns stream = true := by
  cases reacts with
  | prefetch region w v gs =>
    have same := native v List.mem_cons_self
    rcases List.mem_pair.mp (Multiset.mem_coe.mp member) with rfl | rfl <;>
      simpa [Frame.concerns,TaskId.concerns,same] using concerned
  | decrementLast region t last => exact spawned_concerns (by simpa using member) concerned
  | get region w target label product next known =>
    obtain rfl := List.mem_singleton.mp (Multiset.mem_coe.mp member)
    simpa [Frame.concerns,known] using concerned
  | startRefused | finishedTask | decrement | doneWaiting => simp at member
  | _ =>
    simp only [Reaction.frames_mk,List.append_nil,List.nil_append,List.cons_append,Multiset.mem_coe,
      List.mem_cons,List.not_mem_nil,or_false] at member
    rcases member with rfl | rfl <;> simp_all [Frame.concerns,TaskId.concerns]

/-- An execution that ends concerns the stream of its module. -/
theorem ran_ends (reacts : Reacts job sh f r) : r.shared.ran = sh.ran ∨
    ∃ w e, f.concerns w.stream = true ∧ r.shared.ran = sh.ran ++ [⟨w,e⟩] := by
  cases reacts with
  | finish region w => exact Or.inr ⟨w,none,by simp [Frame.concerns],rfl⟩
  | throw region w e => exact Or.inr ⟨w,some e,by simp [Frame.concerns],rfl⟩
  | get region w =>
    obtain ⟨count,calls,callers,same⟩ := beginGet_eq job sh w
    rw [same]
    exact Or.inl rfl
  | _ => exact Or.inl rfl

end Frames

structure Streams (L D E : Type) where
  modules : State L D E
  refused : Nat → Bool

inductive StreamAction (L D : Type) where
  | module (a : Action L D)
  | refuse (stream : Nat)
  deriving DecidableEq

def Shared.eventReset (sh : Shared L D E) (stream : Nat) : Shared L D E :=
  let reset (w : ModuleWrapper L D) : Bool := w.stream = stream && match w.key with
    | .filter _ => false
    | .producer _ _ => true
  { sh with
    list := fun w => if reset w then ⟨true,none⟩ else sh.list w
    workStarted := fun w => if reset w then false else sh.workStarted w
    cache := fun w => if reset w then ⟨(sh.cache w).value,false⟩ else sh.cache w
    put := fun w => if reset w then none else sh.put w
    ran := sh.ran.filter fun run => !reset run.wrapper
    outcomes := fun w => if reset w then [] else sh.outcomes w }

def Streams.initial (L D E : Type) : Streams L D E :=
  ⟨OpenMP.initial L D E,fun _ => false⟩

def Streams.executions (s : Streams L D E) (stream : Nat) : List (Run L D E) :=
  s.modules.shared.ran.filter fun run => run.wrapper.stream = stream

def Streams.Rests (s : Streams L D E) (stream : Nat) : Prop :=
  ∀ f ∈ s.modules.threads.flatten, f.concerns stream = false

instance (s : Streams L D E) (stream : Nat) : Decidable (s.Rests stream) :=
  inferInstanceAs (Decidable (∀ f ∈ s.modules.threads.flatten, f.concerns stream = false))

/-- The next event of a stream begins, and the source refuses it, when nothing of the event before is
going on. -/
def Streams.Over (s : Streams L D E) : StreamAction L D → Prop
  | .module (.reset stream) | .refuse stream => s.Rests stream
  | _ => True

instance (s : Streams L D E) : (a : StreamAction L D) → Decidable (s.Over a)
  | .module (.reset stream) | .refuse stream => inferInstanceAs (Decidable (s.Rests stream))
  | .module (.act _ _) | .module (.request _) => .isTrue trivial

/-- What holds of a stream from its refusal on, after these executions. -/
structure Streams.Silent (stream : Nat) (executed : List (Run L D E)) (s : Streams L D E) : Prop where
  refused : s.refused stream = true
  native : ∀ f ∈ s.modules.bag, f.Native
  rests : s.Rests stream
  executions : s.executions stream = executed

section Machine
variable [DecidableEq L] [DecidableEq D]

def Streams.next (job : Job L D E) (s : Streams L D E) : StreamAction L D → Option (Streams L D E)
  | .module a =>
    let asks : Bool := match a with
      | .act _ _ => false
      | .request w => s.refused w.stream
      | .reset stream => s.refused stream
    if asks then none else (OpenMP.next job s.modules a).map fun modules => {s with modules}
  | .refuse stream =>
    if s.refused stream then none
    else some ⟨{s.modules with shared := s.modules.shared.eventReset stream},
      Function.update s.refused stream true⟩

variable {job : Job L D E} {s t : Streams L D E} {a : StreamAction L D} {stream : Nat}
  {executed : List (Run L D E)}

theorem native_next {u v : State L D E} {b : Action L D} (native : ∀ f ∈ u.bag, f.Native)
    (taken : OpenMP.next job u b = some v) : ∀ f ∈ v.bag, f.Native := by
  cases b with
  | act thread choice =>
    obtain ⟨f,r,rest,reacted,_,before,after,_⟩ := Pool.step_bag (Queues.step_idle taken).1
    intro g member
    rw [after] at member
    rw [before] at native
    rcases Multiset.mem_add.mp member with new | old
    · exact native_react (native f (Multiset.mem_cons_self f rest)) (react_reacts reacted) new
    · exact native g (Multiset.mem_cons_of_mem old)
  | request w =>
    cases taken
    intro g member
    rw [Pool.bag_spawn] at member
    rcases Multiset.mem_cons.mp member with rfl | old
    · trivial
    · exact native g old
  | reset stream =>
    cases taken
    exact native

theorem Streams.native {s : Streams L D E} (run : Reachable (Streams.next job) (Streams.initial L D E) s) :
    ∀ f ∈ s.modules.bag, f.Native := by
  have preserved (s : Streams L D E) (a : StreamAction L D) (t : Streams L D E)
      (native : ∀ f ∈ s.modules.bag, f.Native) (_ : True) (taken : Streams.next job s a = some t) :
      ∀ f ∈ t.modules.bag, f.Native := by
    cases a with
    | module a =>
      obtain ⟨modules,moved,rfl⟩ := Option.map_eq_some_iff.mp (Option.ite_none_left_eq_some.mp taken).2
      exact native_next native moved
    | refuse stream =>
      obtain ⟨_,same⟩ := Option.ite_none_left_eq_some.mp taken
      cases same
      exact native
  exact run.invariant preserved (by simp [Streams.initial,OpenMP.initial,Pool.bag])

omit [DecidableEq L] [DecidableEq D] in
/-- The executions of a stream are kept when another one is reset. -/
theorem executions_reset (s : Streams L D E) {other : Nat} (apart : other ≠ stream) {drops : Run L D E → Bool}
    (inside : ∀ run, drops run = true → run.wrapper.stream = other) :
    (s.modules.shared.ran.filter fun run => !drops run).filter (fun run => run.wrapper.stream = stream) =
      s.executions stream := by
  rw [List.filter_filter,Streams.executions]
  refine List.filter_congr fun run _ => ?_
  cases dropped : drops run with
  | false => simp
  | true =>
    have elsewhere := inside run dropped
    simp [elsewhere,apart]

/-- A step leaves a stream alone that the source has refused and that has nothing going on. -/
theorem Streams.Silent.next (silent : Silent stream executed s) (taken : Streams.next job s a = some t) :
    Silent stream executed t := by
  cases a with
  | module a =>
    obtain ⟨free,taken⟩ := Option.ite_none_left_eq_some.mp taken
    obtain ⟨modules,moved,rfl⟩ := Option.map_eq_some_iff.mp taken
    have native := native_next silent.native moved
    cases a with
    | act thread choice =>
      obtain ⟨f,r,rest,reacted,shared,before,after,_⟩ := Pool.step_bag (Queues.step_idle moved).1
      have reacts := react_reacts reacted
      have acting : f ∈ s.modules.bag := by
        rw [before]
        exact Multiset.mem_cons_self f rest
      have apart := silent.rests f (Multiset.mem_coe.mp acting)
      refine ⟨silent.refused,native,fun g member => ?_,?_⟩
      · have inside : g ∈ modules.bag := Multiset.mem_coe.mpr member
        rw [after] at inside
        rcases Multiset.mem_add.mp inside with new | old
        · by_contra concerned
          have concerns := concerns_react (silent.native f acting) reacts new (by simpa using concerned)
          rw [apart] at concerns
          cases concerns
        · have kept : g ∈ s.modules.bag := by
            rw [before]
            exact Multiset.mem_cons_of_mem old
          exact silent.rests g (Multiset.mem_coe.mp kept)
      · rw [← silent.executions,Streams.executions,Streams.executions,shared]
        rcases ran_ends reacts with same | ⟨w,e,concerned,longer⟩
        · rw [same]
        · have elsewhere : w.stream ≠ stream := by
            rintro rfl
            rw [apart] at concerned
            cases concerned
          simp [longer,elsewhere]
    | request w =>
      cases moved
      have elsewhere : w.stream ≠ stream := by
        rintro rfl
        simp [silent.refused] at free
      refine ⟨silent.refused,native,fun g member => ?_,silent.executions⟩
      rcases List.mem_append.mp (by simpa using member :
        g ∈ s.modules.threads.flatten ++ [⟨none,.doWorkAsync w .outside⟩]) with old | new
      · exact silent.rests g old
      · obtain rfl := List.mem_singleton.mp new
        simp [Frame.concerns,TaskId.concerns,elsewhere]
    | reset other =>
      cases moved
      have apart : other ≠ stream := by
        rintro rfl
        simp [silent.refused] at free
      refine ⟨silent.refused,native,silent.rests,?_⟩
      rw [← silent.executions]
      have dropped : ∀ run : Run L D E, decide (run.wrapper.stream = other) = true → run.wrapper.stream = other :=
        fun run inside => of_decide_eq_true inside
      simpa [Streams.executions,Shared.reset] using executions_reset s apart dropped
  | refuse other =>
    obtain ⟨fresh,same⟩ := Option.ite_none_left_eq_some.mp taken
    cases same
    have apart : other ≠ stream := by
      rintro rfl
      exact fresh silent.refused
    refine ⟨?_,silent.native,silent.rests,?_⟩
    · simpa [Function.update_apply,apart.symm] using silent.refused
    · rw [← silent.executions]
      exact executions_reset s apart fun run dropped => by
        simp only [Bool.and_eq_true,decide_eq_true_eq] at dropped
        exact dropped.1

theorem Streams.refused_silent (run : Reaches (Streams.next job) Streams.Over (Streams.initial L D E) s)
    (refused : s.refused stream = true) : Silent stream (s.executions stream) s := by
  have preserved (s : Streams L D E) (a : StreamAction L D) (t : Streams L D E)
      (holds : (∀ f ∈ s.modules.bag, f.Native) ∧ ∀ stream, s.refused stream = true → s.Rests stream)
      (quiet : s.Over a) (taken : Streams.next job s a = some t) :
      (∀ f ∈ t.modules.bag, f.Native) ∧ ∀ stream, t.refused stream = true → t.Rests stream := by
    have silent (stream : Nat) (refused : s.refused stream = true) : Silent stream (s.executions stream) t :=
      Silent.next ⟨refused,holds.1,holds.2 stream refused,rfl⟩ taken
    cases a with
    | module a =>
      obtain ⟨modules,moved,rfl⟩ := Option.map_eq_some_iff.mp (Option.ite_none_left_eq_some.mp taken).2
      exact ⟨native_next holds.1 moved,fun stream refused => (silent stream refused).rests⟩
    | refuse other =>
      obtain ⟨_,same⟩ := Option.ite_none_left_eq_some.mp taken
      cases same
      refine ⟨holds.1,fun stream refused => ?_⟩
      by_cases own : stream = other
      · rw [own]
        exact quiet
      · exact (silent stream (by simpa [Function.update_apply,own] using refused)).rests
  have start : (∀ f ∈ (Streams.initial L D E).modules.bag, f.Native) ∧
      ∀ stream, (Streams.initial L D E).refused stream = true → (Streams.initial L D E).Rests stream := by
    simp [Streams.initial,OpenMP.initial,Pool.bag]
  obtain ⟨native,rests⟩ := run.invariant preserved start
  exact ⟨refused,native,rests stream refused,rfl⟩

/-- Whatever happens afterwards, no module of the stream is executed. -/
theorem Streams.Silent.reaches (silent : Silent stream executed s) (run : Reachable (Streams.next job) s t) :
    Silent stream executed t := by
  have preserved (s : Streams L D E) (a : StreamAction L D) (t : Streams L D E)
      (silent : Silent stream executed s) (_ : True) (taken : Streams.next job s a = some t) :
      Silent stream executed t := silent.next taken
  exact run.invariant preserved silent

end Machine
end ToyMtFramework.OpenMP
