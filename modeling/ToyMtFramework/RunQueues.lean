import ToyMtFramework.Schedule

/-! How the wrappers of the TBB framework come by their `m_runQueue`. `addFilter` and `addProducer`
make the wrappers of the first schedule, `processAll` clones that schedule for the other streams,
and each copy of a wrapper goes through one of the copy constructors of `ModuleWrapper`. -/
namespace ToyMtFramework.RunQueues
open Schedule (ThreadType)

variable {L P : Type}

abbrev Queue := Nat

def nonThreadSafeQueue : Queue := 0

structure Module (L : Type) where
  id : Nat
  label : L
  threadType : ThreadType
  hasAcquire : Bool
  deriving DecidableEq

/-- `event` is the number of the schedule whose event the wrapper runs its module for. -/
structure ModuleWrapper (L : Type) where
  module : Module L
  event : Nat
  runQueue : Option Queue
  deriving DecidableEq

/-- The queue of a wrapper that is made when `made` queues exist, and how many exist then. -/
def choseQueue (made : Nat) : ThreadType → Option Queue × Nat
  | .threadSafeBetweenModules => (some made,made + 1)
  | .threadUnsafe => (some nonThreadSafeQueue,made)
  | .threadSafeBetweenInstances => (none,made)

def ModuleWrapper.copy (other : ModuleWrapper L) : ModuleWrapper L where
  module := other.module
  event := other.event
  runQueue := other.runQueue

def ModuleWrapper.copyFor (event : Nat) (other : ModuleWrapper L) : ModuleWrapper L where
  module := other.module
  event := event
  runQueue := if other.module.threadType = .threadSafeBetweenInstances then none else other.runQueue

structure Event (L P : Type) where
  lookupMap : List ((L × P) × ModuleWrapper L)

structure Schedule (L P : Type) where
  event : Event L P
  filters : List (ModuleWrapper L)

/-- `m_schedules[0]`, the next module id and the number of queues made so far. -/
structure EventProcessor (L P : Type) where
  nextModuleID : Nat
  made : Nat
  first : Schedule L P

def EventProcessor.initial (L P : Type) : EventProcessor L P :=
  ⟨0,1,⟨⟨[]⟩,[]⟩⟩

/-- What the configuration adds. The products of a producer are a set. -/
inductive Addition (L P : Type) where
  | filter (label : L) (threadType : ThreadType) (hasAcquire : Bool)
  | producer (label : L) (threadType : ThreadType) (hasAcquire : Bool) (products : List P)

def Addition.products : Addition L P → List P
  | .filter _ _ _ => []
  | .producer _ _ _ products => products

section Setup
variable [DecidableEq L] [DecidableEq P]

def Event.insert (e : Event L P) (key : L × P) (w : ModuleWrapper L) : Event L P :=
  if key ∈ e.lookupMap.map Prod.fst then e else ⟨e.lookupMap ++ [(key,w)]⟩

/-- A `DataCache` is made for each product and copied on its way into the map. -/
def Event.addProducer (module : Module L) : Event L P × Nat → List P → Event L P × Nat
  | e, [] => e
  | (e,made), product :: products =>
    let (runQueue,made) := choseQueue made module.threadType
    let wrapper : ModuleWrapper L := ⟨module,0,runQueue⟩
    Event.addProducer module (e.insert (module.label,product) wrapper.copy,made) products

def EventProcessor.add (ep : EventProcessor L P) : Addition L P → EventProcessor L P
  | .filter label threadType hasAcquire =>
    let (runQueue,made) := choseQueue ep.made threadType
    let wrapper : ModuleWrapper L := ⟨⟨ep.nextModuleID,label,threadType,hasAcquire⟩,0,runQueue⟩
    ⟨ep.nextModuleID + 1,made,⟨ep.first.event,ep.first.filters ++ [wrapper]⟩⟩
  | .producer label threadType hasAcquire products =>
    let (event,made) := Event.addProducer ⟨ep.nextModuleID,label,threadType,hasAcquire⟩
      (ep.first.event,ep.made) products
    ⟨ep.nextModuleID + 1,made,⟨event,ep.first.filters⟩⟩

def setup (additions : List (Addition L P)) : EventProcessor L P :=
  additions.foldl EventProcessor.add (.initial L P)

end Setup

def Event.clone (e : Event L P) (k : Nat) : Event L P :=
  ⟨e.lookupMap.map fun entry => (entry.1,(entry.2.copyFor k).copy)⟩

def Schedule.clone (s : Schedule L P) (k : Nat) : Schedule L P :=
  ⟨s.event.clone k,s.filters.map fun w => w.copyFor k⟩

def EventProcessor.schedules (ep : EventProcessor L P) (numConcurrentEvents : Nat) : List (Schedule L P) :=
  ep.first :: (List.range (numConcurrentEvents - 1)).map fun k => ep.first.clone (k + 1)

def Schedule.wrappers (s : Schedule L P) : List (ModuleWrapper L) :=
  s.filters ++ s.event.lookupMap.map Prod.snd

def Event.runQueue [DecidableEq L] [DecidableEq P] (e : Event L P) (key : L × P) : Option Queue :=
  (e.lookupMap.find? fun entry => entry.1 = key).bind fun entry => entry.2.runQueue

/-- What the copies keep: the queue is the one that the thread type asks for. -/
def ModuleWrapper.Routed (w : ModuleWrapper L) : Prop :=
  match w.module.threadType with
  | .threadUnsafe => w.runQueue = some nonThreadSafeQueue
  | .threadSafeBetweenModules => ∃ q, w.runQueue = some q
  | .threadSafeBetweenInstances => w.runQueue = none

theorem ModuleWrapper.Routed.copyFor {w : ModuleWrapper L} (routed : w.Routed) (k : Nat) :
    (w.copyFor k).runQueue = w.runQueue ∧ (w.copyFor k).Routed := by
  have same : (w.copyFor k).runQueue = w.runQueue := by
    unfold Routed at routed
    unfold ModuleWrapper.copyFor
    split at routed <;> rename_i threadType <;> simp [threadType,routed]
  refine ⟨same,?_⟩
  unfold Routed at routed ⊢
  rw [same]
  exact routed

theorem Event.clone_runQueue [DecidableEq L] [DecidableEq P] {e : Event L P}
    (routed : ∀ entry ∈ e.lookupMap, entry.2.Routed) (k : Nat) (key : L × P) :
    (e.clone k).runQueue key = e.runQueue key := by
  unfold Event.runQueue
  simp only [Event.clone,List.find?_map,Function.comp_def]
  cases found : e.lookupMap.find? fun entry => entry.1 = key with
  | none => rfl
  | some entry =>
    have kept := ((routed entry (List.mem_of_find?_eq_some found)).copyFor k).1
    exact kept

theorem choseQueue_routed (module : Module L) (made event : Nat) :
    (ModuleWrapper.mk module event (choseQueue made module.threadType).1).Routed := by
  unfold ModuleWrapper.Routed
  cases threadType : module.threadType <;> simp [choseQueue]

section Added
variable [DecidableEq L] [DecidableEq P]

theorem Event.mem_insert {e : Event L P} {key : L × P} {w : ModuleWrapper L}
    {entry : (L × P) × ModuleWrapper L} (member : entry ∈ (e.insert key w).lookupMap) :
    entry ∈ e.lookupMap ∨ entry = (key,w) := by
  unfold Event.insert at member
  split at member
  · exact Or.inl member
  · exact (List.mem_append.mp member).imp_right List.mem_singleton.mp

/-- The wrappers that `addProducer` puts in are of the new module and have its kind of queue. -/
theorem Event.mem_addProducer {module : Module L} {products : List P} {e : Event L P × Nat}
    {entry : (L × P) × ModuleWrapper L}
    (member : entry ∈ (Event.addProducer module e products).1.lookupMap) :
    entry ∈ e.1.lookupMap ∨ entry.2.module = module ∧ entry.2.Routed := by
  induction products generalizing e with
  | nil => exact Or.inl member
  | cons product products ih =>
    rcases ih member with before | added
    · rcases Event.mem_insert before with before | rfl
      · exact Or.inl before
      · exact Or.inr ⟨rfl,choseQueue_routed module e.2 0⟩
    · exact Or.inr added

theorem Event.keys_insert (e : Event L P) (key : L × P) (w : ModuleWrapper L) :
    key ∈ (e.insert key w).lookupMap.map Prod.fst ∧
      ∀ other ∈ e.lookupMap.map Prod.fst, other ∈ (e.insert key w).lookupMap.map Prod.fst := by
  unfold Event.insert
  split
  · rename_i present
    exact ⟨present,fun _ member => member⟩
  · rw [List.map_append]
    exact ⟨List.mem_append_right _ List.mem_cons_self,fun _ member => List.mem_append_left _ member⟩

/-- Each product of an added producer has an entry. -/
theorem Event.keys_addProducer (module : Module L) (products : List P) (e : Event L P × Nat) :
    (∀ p ∈ products, (module.label,p) ∈ (Event.addProducer module e products).1.lookupMap.map Prod.fst) ∧
      ∀ other ∈ e.1.lookupMap.map Prod.fst,
        other ∈ (Event.addProducer module e products).1.lookupMap.map Prod.fst := by
  induction products generalizing e with
  | nil => exact ⟨fun p member => absurd member List.not_mem_nil,fun _ member => member⟩
  | cons product products ih =>
    obtain ⟨added,kept⟩ := ih ⟨e.1.insert (module.label,product)
      (ModuleWrapper.copy ⟨module,0,(choseQueue e.2 module.threadType).1⟩),
      (choseQueue e.2 module.threadType).2⟩
    obtain ⟨first,old⟩ := Event.keys_insert e.1 (module.label,product)
      (ModuleWrapper.copy ⟨module,0,(choseQueue e.2 module.threadType).1⟩)
    refine ⟨?_,fun other member => kept other (old other member)⟩
    intro p member
    rcases List.mem_cons.mp member with rfl | later
    · exact kept _ first
    · exact added p later

/-- A producer of at most one product brings at most one wrapper, as a filter does. -/
theorem EventProcessor.mem_add (ep : EventProcessor L P) (a : Addition L P) (single : a.products.length ≤ 1) :
    ∃ new : Option (ModuleWrapper L), (∀ w ∈ new, w.module.id = ep.nextModuleID ∧ w.Routed) ∧
      ∀ w ∈ (ep.add a).first.wrappers, w ∈ ep.first.wrappers ∨ w ∈ new := by
  cases a with
  | filter label threadType hasAcquire =>
    let module : Module L := ⟨ep.nextModuleID,label,threadType,hasAcquire⟩
    refine ⟨some ⟨module,0,(choseQueue ep.made threadType).1⟩,?_,?_⟩
    · intro w new
      obtain rfl := Option.some.inj new
      exact ⟨rfl,choseQueue_routed module ep.made 0⟩
    · intro w member
      simp only [EventProcessor.add,Schedule.wrappers,List.mem_append,List.mem_singleton,Option.mem_some_iff]
        at member ⊢
      grind
  | producer label threadType hasAcquire products =>
    let module : Module L := ⟨ep.nextModuleID,label,threadType,hasAcquire⟩
    cases products with
    | nil =>
      refine ⟨none,by simp,fun w member => Or.inl ?_⟩
      exact member
    | cons product rest =>
      obtain rfl : rest = [] := by simpa [Addition.products] using single
      refine ⟨some ⟨module,0,(choseQueue ep.made threadType).1⟩,?_,?_⟩
      · intro w new
        obtain rfl := Option.some.inj new
        exact ⟨rfl,choseQueue_routed module ep.made 0⟩
      · intro w member
        simp only [EventProcessor.add,Event.addProducer,Schedule.wrappers,List.mem_append,List.mem_map,
          Option.mem_some_iff] at member ⊢
        rcases member with filter | ⟨entry,inside,rfl⟩
        · exact Or.inl (Or.inl filter)
        · rcases Event.mem_insert inside with before | rfl
          · exact Or.inl (Or.inr ⟨entry,before,rfl⟩)
          · exact Or.inr rfl

theorem EventProcessor.add_nextModuleID (ep : EventProcessor L P) (a : Addition L P) :
    (ep.add a).nextModuleID = ep.nextModuleID + 1 := by
  cases a <;> rfl

/-- The wrappers of the first schedule have the queues that the thread types of their modules ask
for, one wrapper for each module. -/
structure EventProcessor.Wired (ep : EventProcessor L P) : Prop where
  routed : ∀ w ∈ ep.first.wrappers, w.Routed
  ids : ∀ w ∈ ep.first.wrappers, w.module.id < ep.nextModuleID
  one : ∀ w ∈ ep.first.wrappers, ∀ x ∈ ep.first.wrappers, w.module.id = x.module.id → w = x

theorem EventProcessor.Wired.add {ep : EventProcessor L P} (wired : ep.Wired) {a : Addition L P}
    (single : a.products.length ≤ 1) : (ep.add a).Wired := by
  obtain ⟨new,fresh,members⟩ := ep.mem_add a single
  refine ⟨?_,?_,?_⟩
  · intro w member
    rcases members w member with old | new
    · exact wired.routed w old
    · exact (fresh w new).2
  · intro w member
    rw [EventProcessor.add_nextModuleID]
    rcases members w member with old | new
    · exact Nat.lt_succ_of_lt (wired.ids w old)
    · rw [(fresh w new).1]
      exact Nat.lt_succ_self _
  · intro w member x other same
    rcases members w member with old | added <;> rcases members x other with before | also
    · exact wired.one w old x before same
    · have bound := wired.ids w old
      rw [same,(fresh x also).1] at bound
      exact (Nat.lt_irrefl _ bound).elim
    · have bound := wired.ids x before
      rw [← same,(fresh w added).1] at bound
      exact (Nat.lt_irrefl _ bound).elim
    · exact Option.mem_unique added also

theorem setup_wired {additions : List (Addition L P)} (single : ∀ a ∈ additions, a.products.length ≤ 1) :
    (setup additions).Wired := by
  have start : (EventProcessor.initial L P).Wired := by
    constructor <;> simp [EventProcessor.initial,Schedule.wrappers]
  suffices ∀ ep : EventProcessor L P, ep.Wired → (additions.foldl EventProcessor.add ep).Wired from
    this _ start
  induction additions with
  | nil => exact fun _ wired => wired
  | cons a additions ih =>
    intro ep wired
    exact ih (fun b member => single b (List.mem_cons_of_mem a member)) _
      (wired.add (single a List.mem_cons_self))

end Added

/-- A wrapper of any schedule is that of the first one or a copy of it. -/
theorem EventProcessor.mem_schedules {ep : EventProcessor L P} {n : Nat} {w : ModuleWrapper L}
    (member : w ∈ (ep.schedules n).flatMap Schedule.wrappers) :
    ∃ x ∈ ep.first.wrappers, w = x ∨ ∃ k, w = x.copyFor k := by
  obtain ⟨s,schedule,inside⟩ := List.mem_flatMap.mp member
  rcases List.mem_cons.mp schedule with rfl | clone
  · exact ⟨w,inside,Or.inl rfl⟩
  · obtain ⟨k,_,rfl⟩ := List.mem_map.mp clone
    rcases List.mem_append.mp inside with filter | producer
    · obtain ⟨x,source,rfl⟩ := List.mem_map.mp filter
      exact ⟨x,List.mem_append_left _ source,Or.inr ⟨k + 1,rfl⟩⟩
    · simp only [Schedule.clone,Event.clone,List.map_map,List.mem_map,Function.comp_apply] at producer
      obtain ⟨entry,source,rfl⟩ := producer
      exact ⟨entry.2,List.mem_append_right _ (List.mem_map_of_mem source),Or.inr ⟨k + 1,rfl⟩⟩

/-- However many schedules there are, a wrapper has the kind of queue that its module asks for, and
the wrappers of one module share it. -/
theorem EventProcessor.Wired.schedules {ep : EventProcessor L P} (wired : ep.Wired) (n : Nat) :
    (∀ w ∈ (ep.schedules n).flatMap Schedule.wrappers, w.Routed) ∧
    ∀ w ∈ (ep.schedules n).flatMap Schedule.wrappers,
      ∀ x ∈ (ep.schedules n).flatMap Schedule.wrappers, w.module.id = x.module.id →
        w.module = x.module ∧ w.runQueue = x.runQueue := by
  have origin (w : ModuleWrapper L) (member : w ∈ (ep.schedules n).flatMap Schedule.wrappers) :
      ∃ x ∈ ep.first.wrappers, w.module = x.module ∧ w.runQueue = x.runQueue ∧ w.Routed := by
    obtain ⟨x,source,rfl | ⟨k,rfl⟩⟩ := EventProcessor.mem_schedules member
    · exact ⟨w,source,rfl,rfl,wired.routed w source⟩
    · obtain ⟨same,routed⟩ := (wired.routed x source).copyFor k
      exact ⟨x,source,rfl,same,routed⟩
  constructor
  · intro w member
    obtain ⟨_,_,_,_,routed⟩ := origin w member
    exact routed
  · intro w member x other same
    obtain ⟨u,first,module,queue,_⟩ := origin w member
    obtain ⟨v,second,module',queue',_⟩ := origin x other
    rw [module,module'] at same
    obtain rfl := wired.one u first v second same
    exact ⟨module.trans module'.symm,queue.trans queue'.symm⟩

end ToyMtFramework.RunQueues
