import ToyMtFramework.Core.Family
import ToyMtFramework.Core.SerialQueues
import ToyMtFramework.ModuleWrapperOutcome
import ToyMtFramework.RunQueues

/-! A producer of any number of products in the events of any number of streams. The wrapper that
`getAsync` starts is the one in the `DataCache` of the product asked for, with its own waiting
tasks, start flag and run queue. What one execution of `produce` has put is told apart from what
another one has by the product whose wrapper executes it. -/
namespace ToyMtFramework.ProducerProducts
open Activities Transition RunQueues
open ModuleWrapper (Frame)
open ToyMtFramework.Schedule (ThreadType)

variable {D E : Type}

/-- `products` is the set of the registered products, of which `produce` puts some. -/
structure Producer (D : Type) where
  threadType : ThreadType
  getters : Nat
  products : List D
  puts : List D
  registered : ∀ p ∈ puts, p ∈ products

abbrev Key (D : Type) := Nat × D

/-- The value is known by the wrapper whose execution has put it; there is none at first. -/
structure DataCache (D : Type) where
  value : Option D
  wasCached : Bool

/-- `written` is what the execution of each wrapper has put in this event. -/
structure Shared (D E : Type) where
  wrappers : Key D → ModuleWrapper.Shared E
  caches : Key D → DataCache D
  written : Key D → List D

inductive Choice (D E : Type) where
  | go (outcome : Option E)
  | put (product : D)

section Machine
variable [DecidableEq D] (producer : Producer D)

def runQueue (x : Key D) : Option Queue :=
  let first := (setup [.producer () producer.threadType false producer.products]).first
  (if x.1 = 0 then first.event else first.event.clone x.1).runQueue ((),x.2)

def kind (x : Key D) : ModuleWrapper.Kind :=
  ⟨.tbb,(runQueue producer x).isSome,producer.getters⟩

def Shared.put (sh : Shared D E) (x : Key D) (p : D) : Shared D E where
  __ := sh
  caches := Function.update sh.caches (x.1,p) ⟨some x.2,true⟩
  written := Function.update sh.written x (p :: sh.written x)

def Shared.wrapper (sh : Shared D E) (x : Key D) (r : Reaction (ModuleWrapper.Shared E) (Frame E)) :
    Reaction (Shared D E) (Key D × Frame E) :=
  ⟨{sh with wrappers := (r.tag x sh.wrappers).shared},(r.tag x sh.wrappers).calls,
    (r.tag x sh.wrappers).spawned⟩

/-- A `produce` puts its products in any order; it ends without an exception when it has put all. -/
def react (sh : Shared D E) :
    Key D × Frame E → Choice D E → Option (Reaction (Shared D E) (Key D × Frame E))
  | (x,.implDoWork), .put p =>
    if p ∈ producer.puts then some ⟨sh.put x p,[(x,.implDoWork)],[]⟩ else none
  | (x,.implDoWork), .go none =>
    if ∀ p ∈ producer.puts, p ∈ sh.written x then
      (ModuleWrapper.react (kind producer x) (sh.wrappers x) .implDoWork none).map (sh.wrapper x)
    else none
  | (x,f), .go outcome =>
    (ModuleWrapper.react (kind producer x) (sh.wrappers x) f outcome).map (sh.wrapper x)
  | _, .put _ => none

def queues : Queues (Key D × Frame E) Queue where
  waits f := match f.2 with
    | .queued _ => runQueue producer f.1
    | _ => none
  executes f := match f.2 with
    | .runModule _ | .implDoWork | .doneWaiting _ => runQueue producer f.1
    | _ => none

inductive Action (D E : Type) where
  | act (thread : Nat) (choice : Choice D E)
  | getAsync (x : Key D) (t : Nat)
  | reset (stream : Nat)

abbrev State (D E : Type) := Pool (Shared D E) (Key D × Frame E)

def Shared.getAsync (sh : Shared D E) (x : Key D) (t : Nat) : Shared D E where
  __ := sh
  wrappers := Function.update sh.wrappers x ((sh.wrappers x).call t)

/-- `Event::reset` of the event of a stream. A cache keeps its value. -/
def Shared.reset (sh : Shared D E) (stream : Nat) : Shared D E where
  wrappers x := if x.1 = stream then (sh.wrappers x).reset else sh.wrappers x
  caches x := if x.1 = stream then ⟨(sh.caches x).value,false⟩ else sh.caches x
  written x := if x.1 = stream then [] else sh.written x

/-- The event of a stream is reset when no task of that event is left. -/
def next (s : State D E) : Action D E → Option (State D E)
  | .act thread choice => (queues producer).step (react producer) s thread choice
  | .getAsync x t =>
    if x.2 ∈ producer.products then
      some ⟨s.shared.getAsync x t,s.threads ++ [[(x,.doWorkAsync t)]]⟩
    else none
  | .reset stream =>
    if s.threads.flatten.all (fun f => f.1.1 ≠ stream) then some ⟨s.shared.reset stream,s.threads⟩ else none

end Machine

def initial (D E : Type) : State D E where
  threads := []
  shared :=
    { wrappers := fun _ => (ModuleWrapper.initial E).shared
      caches := fun _ => ⟨none,false⟩
      written := fun _ => [] }

def Shared.Requested (sh : Shared D E) (x : Key D) : Prop :=
  (sh.wrappers x).calls ≠ []

def Quiescent (s : State D E) (stream : Nat) : Prop :=
  ∀ x f, x.1 = stream → (x,f) ∈ s.bag → ∃ t, f = .node t ∧ (s.shared.wrappers x).waiting = true

end ToyMtFramework.ProducerProducts
