import ToyMtFramework.SchedulePrefetch
import Mathlib.Logic.Denumerable
import Mathlib.Logic.Equiv.List

/-! Bodies that call `edm::Event::get` with a label, in the TBB framework. The call only reads the
`DataCache` of the product. What a module registers with `registerMightGet` is not prefetched:
`finishSetup` fills `m_dependentModulesToCheck`, which nothing reads, and leaves the getters as they
are. A Release build has no assertions and returns what an earlier event has left there. -/
namespace ToyMtFramework.Schedule.Gets
open Activities Transition Loop

variable {L D E : Type}

/-- What the body asks for by label, in this order, is registered. `perform` is also given what these
calls returned. -/
structure Module (L D E : Type) where
  label : L
  threadType : ThreadType
  getters : List (L × D)
  mightGetters : List (L × D)
  products : List D
  toGet : List (L × D)
  registered : ∀ k ∈ toGet, k ∈ getters ∨ k ∈ mightGetters
  perform : Nat → Nat → List Int → List Int → Outcome D E

structure Job (L D E : Type) where
  filters : List (Module L D E)
  producers : List (Module L D E)
  paths : List (List L)

def eventTimesSyncGetProducer (label : L) (threadType : ThreadType) (toGet : List L) : Module L Unit E where
  label := label
  threadType := threadType
  getters := []
  mightGetters := toGet.map fun get => (get,())
  products := [()]
  toGet := toGet.map fun get => (get,())
  registered := fun _ asked => Or.inr asked
  perform := fun _ _ _ got => ⟨[((),got.foldl (fun sum value => sum + value) 0)],true,none⟩

def eventTimesSyncGetPassFilter (label : L) (threadType : ThreadType) (toGet : List L) : Module L Unit E where
  label := label
  threadType := threadType
  getters := []
  mightGetters := toGet.map fun get => (get,())
  products := []
  toGet := toGet.map fun get => (get,())
  registered := fun _ asked => Or.inr asked
  perform := fun _ _ _ _ => ⟨[],true,none⟩

def fastPassFilter (label : L) (threadType : ThreadType) (toGet : List L) : Module L Unit E where
  label := label
  threadType := threadType
  getters := toGet.map fun get => (get,())
  mightGetters := []
  products := []
  toGet := []
  registered := by simp
  perform := fun _ _ _ _ => ⟨[],true,none⟩

/-- `ThreadSafeProducer`; the last digit of what it puts comes from its busy wait. -/
def threadSafeProducer (label : L) (value : Int) : Module L Unit E where
  label := label
  threadType := .threadSafeBetweenInstances
  getters := []
  mightGetters := []
  products := [()]
  toGet := []
  registered := by simp
  perform := fun seed _ _ _ => ⟨[((),value + (seed % 10 : Nat))],true,none⟩

inductive Build where
  | debug
  | release
  deriving DecidableEq

/-- A number that stands for a seed and for what the calls return. -/
def unpack (chosen : Nat) : Nat × List Int :=
  (Encodable.decode chosen).getD (0,[])

theorem exists_unpack (call : Nat × List Int) : ∃ chosen, unpack chosen = call :=
  ⟨Encodable.encode call,by rw [unpack,Encodable.encodek,Option.getD_some]⟩

/-- The module without its calls: what they return is taken from the seed. -/
def Module.base (m : Module L D E) : Schedule.Module L D E where
  label := m.label
  threadType := m.threadType
  getters := m.getters
  products := m.products
  perform := fun chosen index values => m.perform (unpack chosen).1 index values (unpack chosen).2

def Job.base (job : Job L D E) : Schedule.Job L D E where
  filters := job.filters.map Module.base
  producers := job.producers.map Module.base
  paths := job.paths

/-- `get` is a body at its calls, with what the getters and the calls have returned so far. -/
inductive GetFrame (L D E : Type) where
  | loop (g : LoopFrame L D E)
  | get (w : Wrapper L D) (toGet : List (L × D)) (values got : List Int)

def GetFrame.base : GetFrame L D E → LoopFrame L D E
  | .loop g => g
  | .get w _ values _ => .schedule (.body w [] values)

def atGets : LoopFrame L D E → Option (Wrapper L D × List Int)
  | .schedule (.body w [] values) => some (w,values)
  | _ => none

section Machine
variable [DecidableEq L] [DecidableEq D]

def Job.module (job : Job L D E) : Wrapper L D → Option (Module L D E)
  | .filter label => job.filters.find? fun m => m.label = label
  | .producer label product => job.producers.find? fun m => m.label = label ∧ product ∈ m.products

def Job.isThreadSafe (job : Job L D E) (w : Wrapper L D) : Bool :=
  (job.module w).all fun m => m.threadType ≠ .threadUnsafe

def Job.toGet (job : Job L D E) (w : Wrapper L D) : List (L × D) :=
  (job.module w).elim [] Module.toGet

def Job.perform (job : Job L D E) (w : Wrapper L D) (seed index : Nat) (values got : List Int) :
    Outcome D E :=
  match job.module w with
  | none => ⟨[],false,none⟩
  | some m => m.perform seed index values got

def eventGet (build : Build) (job : Job L D E) (sh : Shared L D E) (k : L × D) : Option Int :=
  if (job.module (.producer k.1 k.2)).isNone then none
  else if build = .debug ∧ (sh.cache k.1 k.2).wasCached = false then none
  else some (sh.cache k.1 k.2).value

def edmGet (build : Build) (job : Job L D E) (sh : Shared L D E) (w : Wrapper L D) (k : L × D) : Option Int :=
  if build = .debug ∧ job.isThreadSafe w = false then none else eventGet build job sh k

def react (build : Build) (job : Job L D E) (sh : LoopShared L D E) :
    GetFrame L D E → Nat → Option (Reaction (LoopShared L D E) (GetFrame L D E))
  | .loop g, seed => match atGets g with
    | some (w,values) => some ⟨sh,[.get w (job.toGet w) values []],[]⟩
    | none => (Loop.react job.base sh g seed).map fun r => ⟨r.shared,r.calls.map .loop,r.spawned.map .loop⟩
  | .get w (k :: toGet) values got, _ => (edmGet build job sh.schedule w k).map fun value =>
    ⟨sh,[.get w toGet values (got ++ [value])],[]⟩
  | .get w [] values got, seed =>
    let outcome := job.perform w seed sh.schedule.eventIndex values got
    some ⟨{sh with schedule := sh.schedule.finish w outcome},
      [.loop (.schedule (.doneWaiting (.waitingTasks w) outcome.thrown))],[]⟩

abbrev State (L D E : Type) := Pool (LoopShared L D E) (GetFrame L D E)

def base (s : State L D E) : Loop.State L D E :=
  s.map GetFrame.base

def next (build : Build) (job : Job L D E) (s : State L D E) : Action → Option (State L D E)
  | .act thread seed => s.step (react build job) thread seed
  | .otherStreamFails =>
    some {s with shared := {s.shared with schedule := {s.shared.schedule with fatal := true}}}

def logged (job : Job L D E) (sh : LoopShared L D E) (log : List (Entry L D E)) (seed : Nat) :
    GetFrame L D E → List (Entry L D E)
  | .loop g => if (atGets g).isSome then log else Loop.logged job.base sh log seed g
  | .get _ (_ :: _) _ _ => log
  | .get w [] values got => log ++ [.performed w (job.perform w seed sh.schedule.eventIndex values got)]

def record (job : Job L D E) (s : State L D E) (a : Action) (log : List (Entry L D E)) :
    List (Entry L D E) :=
  match a with
  | .act thread seed => (s.top thread).elim log (logged job s.shared log seed)
  | .otherStreamFails => log

def nextLogged (build : Build) (job : Job L D E) :
    State L D E × List (Entry L D E) → Action → Option (State L D E × List (Entry L D E)) :=
  recording (next build job) (record job)

def initial (L D E : Type) (source : List Nat) : State L D E :=
  ⟨⟨fresh E L D 0,source⟩,[[.loop (.handleNextEventAsync none)]]⟩

section Base
variable {build : Build} {job : Job L D E}

theorem base_module (job : Job L D E) (w : Wrapper L D) : job.base.module w = (job.module w).map Module.base := by
  cases w with
  | filter label => exact List.find?_map
  | producer label product => exact List.find?_map

/-- What a body does is what the module without calls does with the right seed. -/
theorem base_perform (job : Job L D E) (w : Wrapper L D) (seed : Nat) (got : List Int) :
    ∃ chosen, ∀ index values, job.base.perform w chosen index values = job.perform w seed index values got := by
  obtain ⟨chosen,stands⟩ := exists_unpack (seed,got)
  refine ⟨chosen,fun index values => ?_⟩
  rw [Schedule.Job.perform,base_module,Job.perform]
  cases job.module w with
  | none => rfl
  | some m => simp only [Option.map_some,Module.base,stands]

theorem base_known {w : Wrapper L D} : (job.base.module w).isSome = (job.module w).isSome := by
  rw [base_module,Option.isSome_map]

theorem react_base {sh : LoopShared L D E} {g : LoopFrame L D E} {seed : Nat}
    {r : Reaction (LoopShared L D E) (GetFrame L D E)} (elsewhere : atGets g = none)
    (reacted : react build job sh (.loop g) seed = some r) :
    Loop.react job.base sh g seed = some ⟨r.shared,r.calls.map GetFrame.base,r.spawned.map GetFrame.base⟩ := by
  simp only [react,elsewhere] at reacted
  obtain ⟨inner,made,rfl⟩ := Option.map_eq_some_iff.mp reacted
  rw [made]
  simp [GetFrame.base,Function.comp_def]

/-- A reaction that the modules without calls have as well is a step of theirs. -/
theorem act_base {s t : State L D E} {log : List (Entry L D E)} {thread seed chosen : Nat} {f : GetFrame L D E}
    (taken : s.step (react build job) thread seed = some t) (top : s.top thread = some f)
    (reacts : ∀ r, react build job s.shared f seed = some r → Loop.react job.base s.shared f.base chosen =
      some ⟨r.shared,r.calls.map GetFrame.base,r.spawned.map GetFrame.base⟩)
    (recorded : Loop.logged job.base s.shared log chosen f.base = logged job s.shared log seed f) :
    Loop.nextLogged .tbb job.base (base s,log) (.act thread chosen) =
      some (base t,record job s (.act thread seed) log) := by
  have stepped : nextIn .tbb job.base (base s) (.act thread chosen) = some (base t) := by
    rw [nextIn_tbb]
    refine Pool.map_step taken fun g r acts reacted => ?_
    obtain rfl : f = g := Option.some.inj (top.symm.trans acts)
    exact reacts r reacted
  have acting : (base s).top thread = some f.base := by
    rw [base,Pool.map_top,top]
    rfl
  rw [Loop.nextLogged,recording,stepped,Option.map_some,Loop.record,acting,record,top]
  exact congrArg (fun after => some (base t,after)) recorded

/-- A reaction that only replaces a body by itself is no step of the modules without calls. -/
theorem still_base {s t : State L D E} {log : List (Entry L D E)} {thread seed : Nat} {f : GetFrame L D E}
    (taken : s.step (react build job) thread seed = some t) (top : s.top thread = some f)
    (still : ∀ r, react build job s.shared f seed = some r →
      r.shared = s.shared ∧ r.calls.map GetFrame.base = [f.base] ∧ r.spawned = [])
    (recorded : logged job s.shared log seed f = log) :
    (base t,record job s (.act thread seed) log) = (base s,log) := by
  have same : base t = base s := by
    refine Pool.map_still taken fun g r acts reacted => ?_
    obtain rfl : f = g := Option.some.inj (top.symm.trans acts)
    exact still r reacted
  rw [same,record,top,Option.elim_some,recorded]

omit [DecidableEq L] [DecidableEq D] in
theorem atGets_some {g : LoopFrame L D E} {w : Wrapper L D} {values : List Int}
    (at_gets : atGets g = some (w,values)) : g = .schedule (.body w [] values) := by
  unfold atGets at at_gets
  split at at_gets
  · cases at_gets
    rfl
  · cases at_gets

/-- Each step is one of the modules without calls, or changes nothing that these know of. -/
theorem nextLogged_base {s t : State L D E × List (Entry L D E)} {a : Action}
    (taken : nextLogged build job s a = some t) : (base t.1,t.2) = (base s.1,s.2) ∨
      ∃ b, (Quiet (base s.1) a → Quiet (base s.1) b) ∧
        Loop.nextLogged .tbb job.base (base s.1,s.2) b = some (base t.1,t.2) := by
  obtain ⟨moved,recorded⟩ := recording_taken taken
  rw [recorded]
  cases a with
  | otherStreamFails =>
    rw [← Option.some.inj moved]
    exact Or.inr ⟨.otherStreamFails,id,rfl⟩
  | act thread seed =>
    obtain ⟨f,stack,r,_,top,_,_⟩ := Pool.step_threads moved
    cases f with
    | loop g =>
      cases reached : atGets g with
      | none =>
        refine Or.inr ⟨.act thread seed,id,act_base moved top (fun r reacted => react_base reached reacted) ?_⟩
        simp [logged,reached,GetFrame.base]
      | some call =>
        obtain rfl := atGets_some reached
        refine Or.inl (still_base moved top ?_ ?_)
        · rintro r ⟨⟩
          exact ⟨rfl,rfl,rfl⟩
        · simp [logged,reached]
    | get w toGet values got =>
      cases toGet with
      | cons k toGet =>
        refine Or.inl (still_base moved top ?_ rfl)
        intro r reacted
        obtain ⟨value,_,rfl⟩ := Option.map_eq_some_iff.mp reacted
        exact ⟨rfl,rfl,rfl⟩
      | nil =>
        obtain ⟨chosen,same⟩ := base_perform job w seed got
        refine Or.inr ⟨.act thread chosen,id,act_base moved top ?_ ?_⟩
        · rintro r ⟨⟩
          simp [GetFrame.base,Loop.react,Schedule.react,same,recursiveTask]
        · simp [GetFrame.base,Loop.logged,entries,logged,same]

/-- A run of the bodies with their calls is one of the modules without. -/
theorem reaches_base {source : List Nat} {s : State L D E} {log : List (Entry L D E)}
    (run : Reaches (nextLogged build job) (fun t a => Quiet (base t.1) a) (initial L D E source,[]) (s,log)) :
    Reaches (Loop.nextLogged .tbb job.base) (fun t a => Quiet t.1 a)
      (Loop.initial L D E source,[]) (base s,log) := by
  refine Reaches.simulated (fun t : State L D E × List (Entry L D E) => (base t.1,t.2)) ?_ run
  intro t a u quiet taken
  rcases nextLogged_base taken with same | ⟨b,admitted,stepped⟩
  · exact Or.inl same
  · exact Or.inr ⟨b,admitted quiet,stepped⟩

end Base
end Machine
end ToyMtFramework.Schedule.Gets
