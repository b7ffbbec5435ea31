import ToyMtFramework.Schedule
import ToyMtFramework.SimpleSource

/-! The event loop of the single-threaded framework, with a log of what each event did.
Producers have any sets of products, and a body may ask the event for further products
while it runs. No constructor sets `m_wasRun`, so a run starts from any flags. -/
namespace ToyMtFramework.SingleThreadedEvents
open Schedule (Outcome)

variable {L D E : Type}

/-- `getters` are prefetched. `asks` are the products that the body gets by their labels
while it runs; its result depends on the values of both, the event, and the seed. -/
structure Module (L D E : Type) where
  label : L
  getters : List (L × D)
  asks : List (L × D)
  products : List D
  perform : Nat → Nat → List Int → Outcome D E

structure Job (L D E : Type) where
  filters : List (Module L D E)
  producers : List (Module L D E)
  paths : List (List L)

inductive Node (L : Type) where
  | filter (label : L)
  | producer (label : L)
  deriving DecidableEq

/-- What happens in an event: a path calls `doFilter`, the value of a product is read or
put, a module has been executed. -/
inductive Entry (L D : Type) where
  | reached (label : L)
  | read (key : L × D) (value : Int)
  | put (key : L × D) (value : Int)
  | ran (node : Node L)
  deriving DecidableEq

structure State (L D : Type) where
  wasRun : Node L → Bool
  keep : L → Bool
  value : L → D → Int
  log : List (Entry L D)

inductive Stop (E : Type) where
  | notFound
  | unregistered
  | thrown (e : E)
  | tooDeep

def State.note (s : State L D) (entry : Entry L D) : State L D :=
  {s with log := s.log ++ [entry]}

section Process
variable [DecidableEq L] [DecidableEq D] (job : Job L D E) (seed index : Nat)

/-- The entry of `m_lookupMap`; `operator[]` lets a later producer take the place of an
earlier one. -/
def Job.lookup (key : L × D) : Option (Module L D E) :=
  job.producers.reverse.find? fun m => m.label = key.1 ∧ key.2 ∈ m.products

def Job.findFilter (label : L) : Option (Module L D E) :=
  job.filters.find? fun m => m.label = label

def put (s : State L D) (key : L × D) (x : Int) : Except (Stop E) (State L D) :=
  if (job.lookup key).isSome then
    .ok {s.note (.put key x) with value := Function.update s.value key.1 (Function.update (s.value key.1) key.2 x)}
  else .error .unregistered

def putAll (label : L) : State L D → List (D × Int) → Except (Stop E) (State L D)
  | s, [] => .ok s
  | s, (product,x) :: puts => do
    let s ← put job s (label,product) x
    putAll label s puts

def getAll (get : State L D → L × D → Except (Stop E) (State L D × Int)) :
    State L D → List (L × D) → Except (Stop E) (State L D × List Int)
  | s, [] => .ok (s,[])
  | s, g :: gs => do
    let (s,value) ← get s g
    let (s,values) ← getAll get s gs
    return (s,value :: values)

def execute (get : State L D → L × D → Except (Stop E) (State L D × Int)) (s : State L D)
    (m : Module L D E) : Except (Stop E) (State L D × Outcome D E) := do
  let (s,prefetched) ← getAll get s m.getters
  let (s,asked) ← getAll get s m.asks
  let outcome := m.perform seed index (prefetched ++ asked)
  match outcome.thrown with
  | some e => .error (.thrown e)
  | none => return (s,outcome)

def State.setWasRun (s : State L D) (node : Node L) : State L D :=
  {s.note (.ran node) with wasRun := Function.update s.wasRun node true}

def doProduce (get : State L D → L × D → Except (Stop E) (State L D × Int)) (s : State L D)
    (m : Module L D E) : Except (Stop E) (State L D) := do
  let (s,outcome) ← execute seed index get s m
  let s ← putAll job m.label s outcome.puts
  return s.setWasRun (.producer m.label)

def State.read (s : State L D) (key : L × D) : State L D × Int :=
  (s.note (.read key (s.value key.1 key.2)),s.value key.1 key.2)

def get : Nat → State L D → L × D → Except (Stop E) (State L D × Int)
  | 0, _, _ => .error .tooDeep
  | depth + 1, s, key =>
    match job.lookup key with
    | none => .error .notFound
    | some m =>
      if s.wasRun (.producer m.label) then .ok (s.read key)
      else do
        let s ← doProduce job seed index (fun s key => get depth s key) s m
        return s.read key

def doFilter (depth : Nat) (s : State L D) (label : L) : Except (Stop E) (State L D × Bool) :=
  match job.findFilter label with
  | none => .error .notFound
  | some m =>
    if s.wasRun (.filter label) then .ok (s,s.keep label)
    else do
      let (s,outcome) ← execute seed index (get job seed index depth) s m
      let s := {s with keep := Function.update s.keep label outcome.keep}
      return (s.setWasRun (.filter label),outcome.keep)

def run (depth : Nat) : State L D → List L → Except (Stop E) (State L D)
  | s, [] => .ok s
  | s, label :: rest => do
    let (s,keep) ← doFilter job seed index depth (s.note (.reached label)) label
    if keep then run depth s rest else return s

def runPaths (depth : Nat) : State L D → List (List L) → Except (Stop E) (State L D)
  | s, [] => .ok s
  | s, path :: paths => do
    let s ← run job seed index depth s path
    runPaths depth s paths

/-- `Schedule::reset` resets the filters on its paths. -/
def reset (wasRun : Node L → Bool) : Node L → Bool
  | .filter label => if label ∈ job.paths.flatten then false else wasRun (.filter label)
  | .producer label => wasRun (.producer label)

def process (depth : Nat) (s : State L D) : Except (Stop E) (State L D) :=
  runPaths job seed index depth {s with wasRun := reset job s.wasRun} job.paths

/-- `Event::reset` resets the producers in `m_lookupMap`. -/
def resetProducers (wasRun : Node L → Bool) : Node L → Bool
  | .filter label => wasRun (.filter label)
  | .producer label =>
    if ∃ m ∈ job.producers, ∃ product ∈ m.products,
      (job.lookup (m.label,product)).any (·.label = label) then false
    else wasRun (.producer label)

end Process

structure Record (L D : Type) where
  index : Nat
  log : List (Entry L D)

structure Trace (L D : Type) where
  state : State L D
  events : List (Record L D)

/-- The body of the loop of `EventProcessor::processAll`; each event has a seed of its own. -/
def event [DecidableEq L] [DecidableEq D] (job : Job L D E) (seeds : Nat → Nat) (depth : Nat)
    (index : UInt64) (trace : Trace L D) : Except (Stop E) (Trace L D) := do
  let s ← process job (seeds trace.events.length) index.toNat depth {trace.state with log := []}
  return ⟨{s with wasRun := resetProducers job s.wasRun},trace.events ++ [⟨index.toNat,s.log⟩]⟩

def processAll {σ : Type} [DecidableEq L] [DecidableEq D] (job : Job L D E)
    (setEventInfo : σ → SimpleSource.Offer σ) (seeds : Nat → Nat) (depth calls : Nat) (source : σ)
    (s : State L D) : Option (Except (Stop E) (σ × Trace L D)) :=
  SimpleSource.processAll setEventInfo (event job seeds depth) calls source ⟨s,[]⟩

end ToyMtFramework.SingleThreadedEvents
