import ToyMtFramework.RunQueues

/-! How `addProducer`, `addFilter` and `addPath` build the first `Schedule` of the TBB
framework, and how `clone` copies it. The parts of a schedule point to each other, so they
have addresses here; modules, queues and the flag for a fatal error are outside of it. -/
namespace ToyMtFramework.ScheduleClone
open ToyMtFramework.Schedule (ThreadType)
open RunQueues (Module Queue choseQueue)

variable {L P : Type}

/-- What is made for a schedule; copies that only live while it is made are temporary. -/
inductive Place (L P : Type) where
  | event
  | filter (i : Nat)
  | producer (key : L × P)
  | path (i : Nat)
  | temporary
  deriving DecidableEq

structure Address (L P : Type) where
  schedule : Nat
  place : Place L P
  deriving DecidableEq

/-- `runTask` is the wrapper that `m_runTask` runs. -/
structure ModuleWrapper (L P : Type) where
  address : Address L P
  module : Module L
  event : Address L P
  runQueue : Option Queue
  runTask : Address L P
  workStarted : Bool

def ModuleWrapper.make (address : Address L P) (module : Module L) (event : Address L P)
    (runQueue : Option Queue) : ModuleWrapper L P :=
  ⟨address,module,event,runQueue,address,false⟩

def ModuleWrapper.copyFor (address event : Address L P) (other : ModuleWrapper L P) :
    ModuleWrapper L P :=
  ⟨address,other.module,event,
    if other.module.threadType = .threadSafeBetweenInstances then none else other.runQueue,address,false⟩

def ModuleWrapper.copy (address : Address L P) (other : ModuleWrapper L P) : ModuleWrapper L P :=
  ⟨address,other.module,other.event,other.runQueue,address,false⟩

structure FilterWrapper (L P : Type) extends ModuleWrapper L P where
  keep : Bool

def FilterWrapper.copyFor (address event : Address L P) (other : FilterWrapper L P) :
    FilterWrapper L P :=
  ⟨other.toModuleWrapper.copyFor address event,false⟩

def FilterWrapper.label (w : FilterWrapper L P) : L :=
  w.module.label

structure DataCache (L P : Type) where
  producer : ModuleWrapper L P
  value : Int
  wasCached : Bool

def DataCache.copyFor (address event : Address L P) (other : DataCache L P) : DataCache L P :=
  ⟨other.producer.copyFor address event,other.value,false⟩

def DataCache.copy (address : Address L P) (other : DataCache L P) : DataCache L P :=
  ⟨other.producer.copy address,other.value,false⟩

/-- The entries of `m_lookupMap` stand in the order in which they came. -/
structure Event (L P : Type) where
  address : Address L P
  lookupMap : List ((L × P) × DataCache L P)
  producers : List (Option (Address L P))

structure FilterOnPathWrapper (L P : Type) where
  filter : Address L P
  index : Nat

/-- `nextFilterTask` is the path to which `m_nextFilterTask` belongs. -/
structure Path (L P : Type) where
  address : Address L P
  filters : List (FilterOnPathWrapper L P)
  fatalJobErrorOccurredPtr : Option Nat
  nextFilterTask : Address L P

structure Schedule (L P : Type) where
  number : Nat
  event : Event L P
  paths : List (Path L P)
  filters : List (FilterWrapper L P)
  fatalJobErrorOccurredPtr : Option Nat

section Build
variable [DecidableEq L] [DecidableEq P]

def Event.find (e : Event L P) (key : L × P) : Option (DataCache L P) :=
  (e.lookupMap.find? fun entry => entry.1 = key).map Prod.snd

/-- `insert` moves a copy of the cache into the map unless the key is there. -/
def Event.insert (e : Event L P) (key : L × P) (cache : DataCache L P) : Event L P :=
  if (e.find key).isSome then e
  else {e with lookupMap := e.lookupMap ++ [(key,cache.copy ⟨e.address.schedule,.producer key⟩)]}

/-- The wrapper that the map has for the key becomes the one of the module's id. -/
def Event.register (e : Event L P) (id : Nat) (key : L × P) : Event L P :=
  match e.find key with
  | none => e
  | some cache => {e with producers := e.producers.set id (some cache.producer.address)}

def resize (producers : List (Option (Address L P))) (size : Nat) : List (Option (Address L P)) :=
  producers.take size ++ List.replicate (size - producers.length) none

def Event.sized (e : Event L P) (id : Nat) : Event L P :=
  if e.producers.length ≤ id then {e with producers := resize e.producers (id + 1)} else e

/-- `Event::addProducer`. A `DataCache` is made for each product and copied into a pair, which
is copied into the map. -/
def Event.addProducer (module : Module L) : Event L P × Nat → List P → Event L P × Nat
  | e, [] => e
  | (e,made), product :: products =>
    let temporary : Address L P := ⟨e.address.schedule,.temporary⟩
    let (runQueue,made) := choseQueue made module.threadType
    let cache : DataCache L P := ⟨.make temporary module e.address runQueue,0,false⟩
    let e := (e.insert (module.label,product) (cache.copy temporary)).sized module.id
    Event.addProducer module (e.register module.id (module.label,product),made) products

def Schedule.findFilter (s : Schedule L P) (label : L) : Option (Address L P) :=
  (s.filters.find? fun w => w.label = label).map fun w => w.address

def Schedule.pushPath (s : Schedule L P) (filters : List (Address L P)) : Schedule L P :=
  let address : Address L P := ⟨s.number,.path s.paths.length⟩
  {s with paths := s.paths ++ [⟨address,filters.zipIdx.map fun f => ⟨f.1,f.2⟩,
    s.fatalJobErrorOccurredPtr,address⟩]}

/-- What the configuration adds. The products of a producer are a set. -/
inductive Addition (L P : Type) where
  | producer (module : Module L) (products : List P)
  | filter (module : Module L)
  | path (labels : List L)

/-- There is no result when a path names a filter that is not there: the job exits. -/
def Schedule.add (s : Schedule L P × Nat) : Addition L P → Option (Schedule L P × Nat)
  | .producer module products =>
    let (event,made) := Event.addProducer module (s.1.event,s.2) products
    some ({s.1 with event := event},made)
  | .filter module =>
    let (runQueue,made) := choseQueue s.2 module.threadType
    let wrapper := ModuleWrapper.make ⟨s.1.number,.filter s.1.filters.length⟩ module s.1.event.address runQueue
    some ({s.1 with filters := s.1.filters ++ [⟨wrapper,false⟩]},made)
  | .path labels => do
    let filters ← labels.mapM s.1.findFilter
    return (s.1.pushPath filters,s.2)

def Schedule.initial (L P : Type) (fatal : Option Nat) : Schedule L P where
  number := 0
  event := ⟨⟨0,.event⟩,[],[]⟩
  paths := []
  filters := []
  fatalJobErrorOccurredPtr := fatal

def build (fatal : Option Nat) (additions : List (Addition L P)) : Option (Schedule L P) := do
  let (s,_) ← additions.foldlM Schedule.add (Schedule.initial L P fatal,1)
  return s

def Event.cloneEntry (e : Event L P) (entry : (L × P) × DataCache L P) : Event L P :=
  let temporary : Address L P := ⟨e.address.schedule,.temporary⟩
  let e := e.insert entry.1 ((entry.2.copyFor temporary e.address).copy temporary)
  match e.find entry.1 with
  | none => e
  | some cache => e.register cache.producer.module.id entry.1

def Event.clone (other : Event L P) (number : Nat) : Event L P :=
  other.lookupMap.foldl Event.cloneEntry
    ⟨⟨number,.event⟩,[],List.replicate other.producers.length none⟩

def Schedule.labelOf (s : Schedule L P) (filter : Address L P) : Option L :=
  (s.filters.find? fun w => w.address = filter).map FilterWrapper.label

/-- `Path::clone`: the first of the wrappers with the same label. -/
def Path.clone (p : Path L P) (labelOf : Address L P → Option L) (wrappers : List (FilterWrapper L P)) :
    Option (List (Address L P)) :=
  p.filters.mapM fun f => do
    let label ← labelOf f.filter
    let found ← wrappers.find? fun w => w.label = label
    return found.address

def Schedule.clone (other : Schedule L P) (number : Nat) : Option (Schedule L P) := do
  let event := other.event.clone number
  let filters := other.filters.zipIdx.map fun w => w.1.copyFor ⟨number,.filter w.2⟩ event.address
  let s : Schedule L P := ⟨number,event,[],filters,other.fatalJobErrorOccurredPtr⟩
  other.paths.foldlM (fun s p => do
    let filters ← p.clone other.labelOf s.filters
    return s.pushPath filters) s

def clones (s : Schedule L P) (n : Nat) : Option (List (Schedule L P)) :=
  (List.range n).mapM fun k => s.clone (k + 1)

end Build
end ToyMtFramework.ScheduleClone
