import ToyMtFramework.Schedule

/-! `Schedule::process` of the single-threaded framework, for the same jobs. A module
gets its inputs by running their producers first, unless they were run before, and a
path runs its filters until one rejects the event. The recursion of `Event::get` goes
as deep as the dependencies of the modules, so it is given a depth. -/
namespace ToyMtFramework.SingleThreaded
open Schedule

variable {L D E : Type}

structure State (L D : Type) where
  filterWasRun : L → Bool
  producerWasRun : L → Bool
  keep : L → Bool
  value : L → D → Int
  /-- The executions of `filter` and `produce` so far. -/
  filtersRun : List L
  producersRun : List L

inductive Stop (E : Type) where
  | notFound
  | thrown (e : E)
  | tooDeep

section Process
variable [DecidableEq L] [DecidableEq D] (job : Job L D E) (seed index : Nat)

/-- The entry of `m_lookupMap`; `operator[]` lets a later producer take the place of an
earlier one. -/
def lookup (label : L) (product : D) : Option (Module L D E) :=
  job.producers.reverse.find? fun m => m.label = label ∧ product ∈ m.products

def put (value : L → D → Int) (label : L) (puts : List (D × Int)) : L → D → Int :=
  puts.foldl (fun value put =>
    Function.update value label (Function.update (value label) put.1 put.2)) value

def State.produced (s : State L D) (label : L) (puts : List (D × Int)) : State L D where
  __ := s
  value := put s.value label puts
  producersRun := s.producersRun ++ [label]
  producerWasRun := Function.update s.producerWasRun label true

def State.filtered (s : State L D) (label : L) (keep : Bool) : State L D where
  __ := s
  filtersRun := s.filtersRun ++ [label]
  keep := Function.update s.keep label keep
  filterWasRun := Function.update s.filterWasRun label true

def prefetch (get : State L D → L × D → Except (Stop E) (State L D × Int)) :
    State L D → List (L × D) → Except (Stop E) (State L D × List Int)
  | s, [] => .ok (s,[])
  | s, g :: gs => do
    let (s,value) ← get s g
    let (s,values) ← prefetch get s gs
    return (s,value :: values)

def doProduce (get : State L D → L × D → Except (Stop E) (State L D × Int)) (s : State L D)
    (m : Module L D E) : Except (Stop E) (State L D) := do
  let (s,values) ← prefetch get s m.getters
  let outcome := m.perform seed index values
  match outcome.thrown with
  | some e => .error (.thrown e)
  | none => return s.produced m.label outcome.puts

def get : Nat → State L D → L × D → Except (Stop E) (State L D × Int)
  | 0, _, _ => .error .tooDeep
  | depth + 1, s, g =>
    match lookup job g.1 g.2 with
    | none => .error .notFound
    | some m =>
      if s.producerWasRun m.label then .ok (s,s.value g.1 g.2)
      else do
        let s ← doProduce seed index (fun s g => get depth s g) s m
        return (s,s.value g.1 g.2)

def doFilter (depth : Nat) (s : State L D) (label : L) : Except (Stop E) (State L D × Bool) :=
  match job.findFilter label with
  | none => .error .notFound
  | some m =>
    if s.filterWasRun label then .ok (s,s.keep label)
    else do
      let (s,values) ← prefetch (get job seed index depth) s m.getters
      let outcome := m.perform seed index values
      match outcome.thrown with
      | some e => .error (.thrown e)
      | none => return (s.filtered label outcome.keep,outcome.keep)

def run (depth : Nat) : State L D → List L → Except (Stop E) (State L D)
  | s, [] => .ok s
  | s, label :: rest => do
    let (s,keep) ← doFilter job seed index depth s label
    if keep then run depth s rest else return s

def runPaths (depth : Nat) : State L D → List (List L) → Except (Stop E) (State L D)
  | s, [] => .ok s
  | s, path :: paths => do
    let s ← run job seed index depth s path
    runPaths depth s paths

/-- `Schedule::reset` resets the filters on its paths. -/
def reset (s : State L D) : State L D :=
  {s with filterWasRun := fun label => if label ∈ job.paths.flatten then false else s.filterWasRun label}

def process (depth : Nat) (s : State L D) : Except (Stop E) (State L D) :=
  runPaths job seed index depth (reset job s) job.paths

end Process

structure Unrun (s : State L D) : Prop where
  filterWasRun : ∀ label, s.filterWasRun label = false
  producerWasRun : ∀ label, s.producerWasRun label = false
  filtersRun : s.filtersRun = []
  producersRun : s.producersRun = []

/-- Nothing has been run yet, `m_keep` starts as true and the products as 0. -/
def fresh (L D : Type) : State L D where
  filterWasRun := fun _ => false
  producerWasRun := fun _ => false
  keep := fun _ => true
  value := fun _ _ => 0
  filtersRun := []
  producersRun := []

theorem fresh_unrun : Unrun (fresh L D) :=
  ⟨fun _ => rfl,fun _ => rfl,rfl,rfl⟩

end ToyMtFramework.SingleThreaded
