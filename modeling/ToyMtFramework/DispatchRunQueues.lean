import ToyMtFramework.Schedule

/-! How the wrappers of the Dispatch framework come by their `m_runQueue`. Every wrapper of the first
schedule makes its own queue, one for each filter and one for each product of a producer. The clones for
the other contexts share it, unless the module can be called for several events at once. -/
namespace ToyMtFramework.DispatchRunQueues
open Schedule (ThreadType)

variable {L P : Type}

/-- A serial queue, by how many have been made before it. -/
abbrev Queue := Nat

def nonThreadSafeQueue : Queue := 0

/-- `syncGets` tells whether the body calls `edm::Event::get` with a label and a product. -/
structure Module (L : Type) where
  id : Nat
  label : L
  threadType : ThreadType
  syncGets : Bool
  deriving DecidableEq

def Module.isUnsafe (m : Module L) : Bool :=
  m.threadType = .threadUnsafe

structure ModuleWrapper (L : Type) where
  module : Module L
  event : Nat
  runQueue : Queue
  deriving DecidableEq

def ModuleWrapper.copyFor (event : Nat) (other : ModuleWrapper L) (made : Nat) : ModuleWrapper L × Nat :=
  if other.module.threadType = .threadSafeBetweenInstances then (⟨other.module,event,made⟩,made + 1)
  else (⟨other.module,event,other.runQueue⟩,made)

abbrev LookupMap (L P : Type) := List ((L × P) × ModuleWrapper L)

/-- `m_schedules[0]` with the wrappers of its event and its filters, the number of modules and the number
of queues made so far. -/
structure EventProcessor (L P : Type) where
  modules : Nat
  made : Nat
  lookupMap : LookupMap L P
  filters : List (ModuleWrapper L)

def EventProcessor.initial (L P : Type) : EventProcessor L P :=
  ⟨0,1,[],[]⟩

/-- What the configuration adds. The products of a producer are a set. -/
inductive Addition (L P : Type) where
  | filter (label : L) (threadType : ThreadType) (syncGets : Bool)
  | producer (label : L) (threadType : ThreadType) (syncGets : Bool) (products : List P)

def Addition.products : Addition L P → List P
  | .filter _ _ _ => []
  | .producer _ _ _ products => products

section Setup
variable [DecidableEq L] [DecidableEq P]

def LookupMap.insert (map : LookupMap L P) (key : L × P) (w : ModuleWrapper L) : LookupMap L P :=
  if map.any fun entry => entry.1 = key then map else map ++ [(key,w)]

def addProducer (module : Module L) : LookupMap L P × Nat → List P → LookupMap L P × Nat
  | e, [] => e
  | (map,made), product :: products =>
    addProducer module (map.insert (module.label,product) ⟨module,0,made⟩,made + 1) products

def EventProcessor.add (ep : EventProcessor L P) : Addition L P → EventProcessor L P
  | .filter label threadType syncGets =>
    {ep with
      modules := ep.modules + 1
      made := ep.made + 1
      filters := ep.filters ++ [⟨⟨ep.modules,label,threadType,syncGets⟩,0,ep.made⟩]}
  | .producer label threadType syncGets products =>
    let (map,made) := addProducer ⟨ep.modules,label,threadType,syncGets⟩ (ep.lookupMap,ep.made) products
    {ep with modules := ep.modules + 1, made := made, lookupMap := map}

def setup (additions : List (Addition L P)) : EventProcessor L P :=
  additions.foldl EventProcessor.add (.initial L P)

end Setup

def EventProcessor.wrappers (ep : EventProcessor L P) : List (ModuleWrapper L) :=
  ep.lookupMap.map Prod.snd ++ ep.filters

def clone (event : Nat) : Nat → List (ModuleWrapper L) → List (ModuleWrapper L) × Nat
  | made, [] => ([],made)
  | made, w :: ws =>
    let (copy,made) := w.copyFor event made
    let (copies,made) := clone event made ws
    (copy :: copies,made)

def clones (first : List (ModuleWrapper L)) : Nat → List Nat → List (ModuleWrapper L)
  | _, [] => []
  | made, event :: events =>
    let (copies,made) := clone event made first
    copies ++ clones first made events

def wrappers [DecidableEq L] [DecidableEq P] (additions : List (Addition L P)) (numConcurrentEvents : Nat) :
    List (ModuleWrapper L) :=
  let ep := setup additions
  ep.wrappers ++ clones ep.wrappers ep.made (List.range' 1 (numConcurrentEvents - 1))

/-- The wrappers of each thread-unsafe module whose body gets data have one run queue. -/
def OneQueue (ws : List (ModuleWrapper L)) : Prop :=
  ∀ w ∈ ws, ∀ x ∈ ws, w.module = x.module → w.module.isUnsafe = true → w.module.syncGets = true →
    w.runQueue = x.runQueue

theorem ModuleWrapper.le_copyFor (event : Nat) (w : ModuleWrapper L) (made : Nat) :
    made ≤ (w.copyFor event made).2 := by
  unfold ModuleWrapper.copyFor
  split
  · exact Nat.le_succ made
  · exact Nat.le_refl made

theorem mem_clone {event made : Nat} {ws : List (ModuleWrapper L)} {w : ModuleWrapper L}
    (member : w ∈ (clone event made ws).1) : ∃ x ∈ ws, ∃ made' ≥ made, w = (x.copyFor event made').1 := by
  induction ws generalizing made with
  | nil => cases member
  | cons x ws ih =>
    rcases List.mem_cons.mp member with rfl | later
    · exact ⟨x,List.mem_cons_self,made,Nat.le_refl _,rfl⟩
    · obtain ⟨y,source,made',after,copied⟩ := ih later
      exact ⟨y,List.mem_cons_of_mem x source,made',Nat.le_trans (x.le_copyFor event made) after,copied⟩

theorem le_clone (event made : Nat) (ws : List (ModuleWrapper L)) : made ≤ (clone event made ws).2 := by
  induction ws generalizing made with
  | nil => exact Nat.le_refl made
  | cons x ws ih => exact Nat.le_trans (x.le_copyFor event made) (ih (x.copyFor event made).2)

theorem mem_clones {first : List (ModuleWrapper L)} {made : Nat} {events : List Nat} {w : ModuleWrapper L}
    (member : w ∈ clones first made events) : ∃ x ∈ first, ∃ event, ∃ made' ≥ made, w = (x.copyFor event made').1 := by
  induction events generalizing made with
  | nil => cases member
  | cons event events ih =>
    rcases List.mem_append.mp member with here | later
    · obtain ⟨x,source,made',after,copied⟩ := mem_clone here
      exact ⟨x,source,event,made',after,copied⟩
    · obtain ⟨x,source,event',made',after,copied⟩ := ih later
      exact ⟨x,source,event',made',Nat.le_trans (le_clone event made first) after,copied⟩

/-- A copy is of the same module; a thread-unsafe module keeps its queue, and no queue is older than the
first run queue. -/
theorem copyFor_cases (w : ModuleWrapper L) (event made : Nat) : (w.copyFor event made).1.module = w.module ∧
    (w.module.isUnsafe = true → (w.copyFor event made).1.runQueue = w.runQueue) ∧
      ((w.copyFor event made).1.runQueue = w.runQueue ∨ (w.copyFor event made).1.runQueue = made) := by
  unfold ModuleWrapper.copyFor
  split
  · rename_i reentrant
    exact ⟨rfl,by simp [Module.isUnsafe,reentrant],Or.inr rfl⟩
  · exact ⟨rfl,fun _ => rfl,Or.inl rfl⟩

section Added
variable [DecidableEq L] [DecidableEq P]

theorem mem_insert {map : LookupMap L P} {key : L × P} {w : ModuleWrapper L} {entry : (L × P) × ModuleWrapper L}
    (member : entry ∈ map.insert key w) : entry ∈ map ∨ entry = (key,w) := by
  unfold LookupMap.insert at member
  split at member
  · exact Or.inl member
  · exact (List.mem_append.mp member).imp_right List.mem_singleton.mp

theorem mem_addProducer {module : Module L} {products : List P} {e : LookupMap L P × Nat}
    {entry : (L × P) × ModuleWrapper L} (member : entry ∈ (addProducer module e products).1) :
    entry ∈ e.1 ∨ entry.2.module = module ∧ e.2 ≤ entry.2.runQueue := by
  induction products generalizing e with
  | nil => exact Or.inl member
  | cons product products ih =>
    rcases ih member with before | ⟨same,after⟩
    · rcases mem_insert before with old | rfl
      · exact Or.inl old
      · exact Or.inr ⟨rfl,Nat.le_refl _⟩
    · exact Or.inr ⟨same,Nat.le_of_succ_le after⟩

theorem le_addProducer (module : Module L) (e : LookupMap L P × Nat) (products : List P) :
    e.2 ≤ (addProducer module e products).2 := by
  induction products generalizing e with
  | nil => exact Nat.le_refl _
  | cons product products ih =>
    have later := ih (e.1.insert (module.label,product) ⟨module,0,e.2⟩,e.2 + 1)
    exact Nat.le_trans (Nat.le_succ e.2) later

/-- The wrappers that an addition brings are of a new module and have new queues. -/
theorem mem_add {ep : EventProcessor L P} {a : Addition L P} {w : ModuleWrapper L}
    (member : w ∈ (ep.add a).wrappers) : w ∈ ep.wrappers ∨ w.module.id = ep.modules ∧ ep.made ≤ w.runQueue := by
  cases a with
  | filter label threadType syncGets =>
    simp only [EventProcessor.add,EventProcessor.wrappers,List.mem_append,List.mem_singleton] at member ⊢
    rcases member with producer | filter | rfl
    · exact Or.inl (Or.inl producer)
    · exact Or.inl (Or.inr filter)
    · exact Or.inr ⟨rfl,Nat.le_refl _⟩
  | producer label threadType syncGets products =>
    simp only [EventProcessor.add,EventProcessor.wrappers,List.mem_append,List.mem_map] at member ⊢
    rcases member with ⟨entry,inside,rfl⟩ | filter
    · rcases mem_addProducer inside with old | ⟨same,after⟩
      · exact Or.inl (Or.inl ⟨entry,old,rfl⟩)
      · exact Or.inr ⟨by rw [same],after⟩
    · exact Or.inl (Or.inr filter)

theorem add_modules (ep : EventProcessor L P) (a : Addition L P) : (ep.add a).modules = ep.modules + 1 := by
  cases a <;> rfl

theorem le_add (ep : EventProcessor L P) (a : Addition L P) : ep.made ≤ (ep.add a).made := by
  cases a with
  | filter label threadType syncGets => exact Nat.le_succ ep.made
  | producer label threadType syncGets products => exact le_addProducer _ (ep.lookupMap,ep.made) products

/-- No run queue is the queue of all thread-unsafe modules, and a module is not added twice. -/
structure Wired (ep : EventProcessor L P) : Prop where
  made : nonThreadSafeQueue < ep.made
  queues : ∀ w ∈ ep.wrappers, nonThreadSafeQueue < w.runQueue
  ids : ∀ w ∈ ep.wrappers, w.module.id < ep.modules

theorem Wired.add {ep : EventProcessor L P} (wired : Wired ep) (a : Addition L P) : Wired (ep.add a) := by
  obtain ⟨made,queues,ids⟩ := wired
  refine ⟨Nat.lt_of_lt_of_le made (le_add ep a),fun w member => ?_,fun w member => ?_⟩
  · rcases mem_add member with old | ⟨_,after⟩
    · exact queues w old
    · exact Nat.lt_of_lt_of_le made after
  · rw [add_modules]
    rcases mem_add member with old | ⟨new,_⟩
    · exact Nat.lt_succ_of_lt (ids w old)
    · rw [new]
      exact Nat.lt_succ_self _

omit [DecidableEq L] [DecidableEq P] in
theorem initial_wired : Wired (EventProcessor.initial L P) := by
  constructor <;> simp [EventProcessor.initial,EventProcessor.wrappers,nonThreadSafeQueue]

theorem foldl_wired {ep : EventProcessor L P} (wired : Wired ep) (additions : List (Addition L P)) :
    Wired (additions.foldl EventProcessor.add ep) := by
  induction additions generalizing ep with
  | nil => exact wired
  | cons a additions ih => exact ih (wired.add a)

/-- A wrapper of any schedule is one of the first schedule or a copy. -/
theorem mem_wrappers {additions : List (Addition L P)} {n : Nat} {w : ModuleWrapper L}
    (member : w ∈ wrappers additions n) : ∃ x ∈ (setup additions).wrappers, w.module = x.module ∧
      (x.module.isUnsafe = true → w.runQueue = x.runQueue) ∧ nonThreadSafeQueue < w.runQueue := by
  have wired : Wired (setup additions) := foldl_wired initial_wired additions
  rcases List.mem_append.mp member with first | copied
  · exact ⟨w,first,rfl,fun _ => rfl,wired.queues w first⟩
  · obtain ⟨x,source,event,made,after,rfl⟩ := mem_clones copied
    obtain ⟨module,kept,queue⟩ := copyFor_cases x event made
    refine ⟨x,source,module,kept,?_⟩
    rcases queue with same | new
    · rw [same]
      exact wired.queues x source
    · rw [new]
      exact Nat.lt_of_lt_of_le wired.made after

theorem add_one {ep : EventProcessor L P} (wired : Wired ep) {a : Addition L P} (single : a.products.length ≤ 1)
    (one : ∀ w ∈ ep.wrappers, ∀ x ∈ ep.wrappers, w.module.id = x.module.id → w = x) :
    ∀ w ∈ (ep.add a).wrappers, ∀ x ∈ (ep.add a).wrappers, w.module.id = x.module.id → w = x := by
  have new : ∃ v : Option (ModuleWrapper L), ∀ w ∈ (ep.add a).wrappers, w ∈ ep.wrappers ∨
      w ∈ v ∧ w.module.id = ep.modules := by
    cases a with
    | filter label threadType syncGets =>
      refine ⟨some ⟨⟨ep.modules,label,threadType,syncGets⟩,0,ep.made⟩,fun w member => ?_⟩
      simp only [EventProcessor.add,EventProcessor.wrappers,List.mem_append,List.mem_singleton] at member ⊢
      rcases member with producer | filter | rfl
      · exact Or.inl (Or.inl producer)
      · exact Or.inl (Or.inr filter)
      · exact Or.inr ⟨rfl,rfl⟩
    | producer label threadType syncGets products =>
      cases products with
      | nil => exact ⟨none,fun w member => Or.inl member⟩
      | cons product rest =>
        obtain rfl : rest = [] := by simpa [Addition.products] using single
        refine ⟨some ⟨⟨ep.modules,label,threadType,syncGets⟩,0,ep.made⟩,fun w member => ?_⟩
        simp only [EventProcessor.add,EventProcessor.wrappers,addProducer,List.mem_append,List.mem_map] at member ⊢
        rcases member with ⟨entry,inside,rfl⟩ | filter
        · rcases mem_insert inside with old | rfl
          · exact Or.inl (Or.inl ⟨entry,old,rfl⟩)
          · exact Or.inr ⟨rfl,rfl⟩
        · exact Or.inl (Or.inr filter)
  obtain ⟨v,new⟩ := new
  intro w member x other same
  rcases new w member with old | ⟨added,id⟩ <;> rcases new x other with before | ⟨also,id'⟩
  · exact one w old x before same
  · have bound := wired.ids w old
    omega
  · have bound := wired.ids x before
    omega
  · exact Option.mem_unique added also

/-- Producers of one product meet the condition. -/
theorem wrappers_oneQueue {additions : List (Addition L P)} (single : ∀ a ∈ additions, a.products.length ≤ 1)
    (n : Nat) : OneQueue (wrappers additions n) := by
  have one : ∀ w ∈ (setup additions).wrappers, ∀ x ∈ (setup additions).wrappers,
      w.module.id = x.module.id → w = x := by
    suffices ∀ ep : EventProcessor L P, Wired ep →
        (∀ w ∈ ep.wrappers, ∀ x ∈ ep.wrappers, w.module.id = x.module.id → w = x) →
        ∀ w ∈ (additions.foldl EventProcessor.add ep).wrappers,
          ∀ x ∈ (additions.foldl EventProcessor.add ep).wrappers, w.module.id = x.module.id → w = x from
      this _ initial_wired (by simp [EventProcessor.initial,EventProcessor.wrappers])
    induction additions with
    | nil => exact fun _ _ one => one
    | cons a additions ih =>
      intro ep wired one
      exact ih (fun b member => single b (List.mem_cons_of_mem a member)) _ (wired.add a)
        (add_one wired (single a List.mem_cons_self) one)
  intro w member x other same kind _
  obtain ⟨u,first,module,kept,_⟩ := mem_wrappers member
  obtain ⟨v,second,module',kept',_⟩ := mem_wrappers other
  obtain rfl := one u first v second (by rw [← module,← module',same])
  rw [module] at kind
  rw [kept kind,kept' kind]

end Added
end ToyMtFramework.DispatchRunQueues
