import ToyMtFramework.ScheduleClone

/-! The event of a schedule and its copy. The map has one entry for each product of each
producer, and `m_producers` points to one of the entries of each producer that has any;
the copy constructor builds the same map again with wrappers of its own. -/
namespace ToyMtFramework.ScheduleClone
open ToyMtFramework.Schedule (ThreadType)
open RunQueues (Module Queue choseQueue)

variable {L P : Type}

/-- The wrapper has a queue exactly if its module must not be run concurrently. -/
def ModuleWrapper.Routed (w : ModuleWrapper L P) : Prop :=
  w.runQueue.isSome = true ↔ w.module.threadType ≠ .threadSafeBetweenInstances

theorem choseQueue_routed (made : Nat) (threadType : ThreadType) :
    (choseQueue made threadType).1.isSome = true ↔ threadType ≠ .threadSafeBetweenInstances := by
  cases threadType <;> simp [choseQueue]

structure Copied (event : Address L P) (w v : ModuleWrapper L P) : Prop where
  module : v.module = w.module
  event : v.event = event
  runTask : v.runTask = v.address
  workStarted : v.workStarted = false
  shares : (∃ q, w.runQueue = some q ∧ v.runQueue = some q) ↔
    w.module.threadType ≠ .threadSafeBetweenInstances

theorem ModuleWrapper.Routed.copyFor {w : ModuleWrapper L P} (routed : w.Routed)
    (address event : Address L P) : Copied event w (w.copyFor address event) := by
  refine ⟨rfl,rfl,rfl,rfl,?_⟩
  constructor
  · rintro ⟨q,queue,-⟩
    apply routed.mp
    rw [queue]
    rfl
  · intro separate
    obtain ⟨q,queue⟩ := Option.isSome_iff_exists.mp (routed.mpr separate)
    exact ⟨q,queue,(if_neg separate).trans queue⟩

theorem Copied.copy {event : Address L P} {w v : ModuleWrapper L P} (copied : Copied event w v)
    (address : Address L P) : Copied event w (v.copy address) :=
  ⟨copied.module,copied.event,rfl,rfl,copied.shares⟩

def Event.keys (e : Event L P) : List (L × P) :=
  e.lookupMap.map Prod.fst

/-- The addresses are those of the event's own entries, and each entry's module has one. -/
structure Event.Pointed (e : Event L P) : Prop where
  address : ∀ entry ∈ e.lookupMap, entry.2.producer.address = ⟨e.address.schedule,.producer entry.1⟩
  own : ∀ (id : Nat) pointer, e.producers[id]? = some (some pointer) → ∃ entry ∈ e.lookupMap,
    entry.2.producer.module.id = id ∧ pointer = entry.2.producer.address
  all : ∀ entry ∈ e.lookupMap, ∃ pointer,
    e.producers[entry.2.producer.module.id]? = some (some pointer)

theorem resize_getElem? {producers : List (Option (Address L P))} {size : Nat}
    (larger : producers.length ≤ size) (i : Nat) (pointer : Address L P) :
    (resize producers size)[i]? = some (some pointer) ↔ producers[i]? = some (some pointer) := by
  rw [resize,List.take_of_length_le larger]
  constructor
  · intro found
    rw [List.getElem?_append] at found
    split at found
    · exact found
    · simp [List.getElem?_replicate] at found
  · intro found
    obtain ⟨inside,_⟩ := List.getElem?_eq_some_iff.mp found
    rw [List.getElem?_append_left inside]
    exact found

theorem Event.Pointed.resize {e : Event L P} (pointed : e.Pointed) {size : Nat}
    (larger : e.producers.length ≤ size) : Event.Pointed {e with producers := resize e.producers size} := by
  refine ⟨pointed.address,?_,?_⟩
  · intro id pointer found
    exact pointed.own id pointer ((resize_getElem? larger id pointer).mp found)
  · intro entry member
    obtain ⟨pointer,found⟩ := pointed.all entry member
    exact ⟨pointer,(resize_getElem? larger _ pointer).mpr found⟩

def Event.push (e : Event L P) (key : L × P) (cache : DataCache L P) : Event L P :=
  {e with
    lookupMap := e.lookupMap ++ [(key,cache)]
    producers := e.producers.set cache.producer.module.id (some cache.producer.address)}

theorem Event.Pointed.push {e : Event L P} (pointed : e.Pointed) {key : L × P} (cache : DataCache L P)
    (address : cache.producer.address = ⟨e.address.schedule,.producer key⟩)
    (inside : cache.producer.module.id < e.producers.length) : (e.push key cache).Pointed := by
  refine ⟨?_,?_,?_⟩
  · intro entry member
    rcases List.mem_append.mp member with member | member
    · exact pointed.address entry member
    · obtain rfl := List.mem_singleton.mp member
      exact address
  · intro id pointer found
    change (e.producers.set _ _)[id]? = _ at found
    rw [List.getElem?_set] at found
    split at found
    · rename_i same
      obtain rfl := Option.some.inj (Option.some.inj found)
      exact ⟨(key,cache),List.mem_append_right _ (List.mem_singleton.mpr rfl),same,rfl⟩
    · obtain ⟨entry,member,same,equal⟩ := pointed.own id pointer found
      exact ⟨entry,List.mem_append_left _ member,same,equal⟩
  · intro entry member
    change ∃ pointer, (e.producers.set _ _)[_]? = some (some pointer)
    rw [List.getElem?_set]
    split
    · exact ⟨_,rfl⟩
    · rename_i other
      rcases List.mem_append.mp member with member | member
      · exact pointed.all entry member
      · obtain rfl := List.mem_singleton.mp member
        exact absurd rfl other

variable [DecidableEq L] [DecidableEq P]

/-- Inserting a new key and registering its wrapper. -/
theorem Event.register_insert {e : Event L P} {key : L × P} (cache : DataCache L P)
    (fresh : key ∉ e.keys) : (e.insert key cache).find key =
        some (cache.copy ⟨e.address.schedule,.producer key⟩) ∧
      (e.insert key cache).register cache.producer.module.id key =
        e.push key (cache.copy ⟨e.address.schedule,.producer key⟩) := by
  have none_ : e.lookupMap.find? (fun entry => entry.1 = key) = none := by
    rw [List.find?_eq_none]
    intro entry member same
    exact fresh (List.mem_map.mpr ⟨entry,member,by simpa using same⟩)
  have inserted : e.insert key cache = {e with lookupMap := e.lookupMap ++
      [(key,cache.copy ⟨e.address.schedule,.producer key⟩)]} := by
    rw [Event.insert,Event.find,none_]
    rfl
  have found : (e.insert key cache).find key =
      some (cache.copy ⟨e.address.schedule,.producer key⟩) := by
    rw [inserted,Event.find,List.find?_append,none_]
    simp
  refine ⟨found,?_⟩
  rw [Event.register,found,inserted]
  rfl

structure Event.Holds (added : List (Module L × List P)) (e : Event L P) : Prop where
  pointed : e.Pointed
  keys : e.keys.Nodup
  entry : ∀ entry ∈ e.lookupMap, entry.2.producer.Routed ∧ ∃ m ∈ added,
    entry.2.producer.module = m.1 ∧ entry.1.1 = m.1.label ∧ entry.1.2 ∈ m.2
  complete : ∀ m ∈ added, ∀ product ∈ m.2, (m.1.label,product) ∈ e.keys

omit [DecidableEq L] [DecidableEq P] in
theorem Event.Pointed.sized {e : Event L P} (pointed : e.Pointed) (id : Nat) :
    (e.sized id).Pointed ∧ id < (e.sized id).producers.length := by
  unfold Event.sized
  split
  · rename_i short
    refine ⟨pointed.resize (Nat.le_succ_of_le short),?_⟩
    change id < (ScheduleClone.resize e.producers (id + 1)).length
    simp only [ScheduleClone.resize,List.length_append,List.length_take,List.length_replicate]
    omega
  · exact ⟨pointed,by omega⟩

omit [DecidableEq L] [DecidableEq P] in
theorem Event.sized_same (e : Event L P) (id : Nat) :
    (e.sized id).address = e.address ∧ (e.sized id).lookupMap = e.lookupMap := by
  unfold Event.sized
  split <;> exact ⟨rfl,rfl⟩

theorem Event.sized_insert (e : Event L P) (id : Nat) (key : L × P) (cache : DataCache L P) :
    (e.insert key cache).sized id = (e.sized id).insert key cache := by
  unfold Event.sized Event.insert Event.find
  cases found : e.lookupMap.find? (fun entry => entry.1 = key) <;>
    by_cases short : e.producers.length ≤ id <;> simp [found,short]

def Event.newCache (e : Event L P) (module : Module L) (made : Nat) (key : L × P) : DataCache L P :=
  ⟨.make ⟨e.address.schedule,.producer key⟩ module e.address (choseQueue made module.threadType).1,0,false⟩

/-- A product of a new producer brings an entry. -/
theorem Event.addProducer_cons {e : Event L P} {module : Module L} {product : P} (made : Nat)
    (products : List P) (fresh : (module.label,product) ∉ e.keys) :
    Event.addProducer module (e,made) (product :: products) = Event.addProducer module
      ((e.sized module.id).push (module.label,product) (e.newCache module made (module.label,product)),
        (choseQueue made module.threadType).2) products := by
  obtain ⟨address,same⟩ := e.sized_same module.id
  let temporary : Address L P := ⟨e.address.schedule,.temporary⟩
  let cache : DataCache L P :=
    ⟨.make temporary module e.address (choseQueue made module.threadType).1,0,false⟩
  have still : (module.label,product) ∉ (e.sized module.id).keys := by
    rw [Event.keys,same]
    exact fresh
  have registered := (Event.register_insert (cache.copy temporary) still).2
  rw [← Event.sized_insert,address] at registered
  rw [Event.addProducer]
  exact congrArg (fun e => Event.addProducer module (e,_) products) registered

omit [DecidableEq L] [DecidableEq P] in
theorem Event.Holds.push {added : List (Module L × List P)} {module : Module L} {before : List P}
    {e : Event L P} {product : P} (holds : e.Holds (added ++ [(module,before)])) (made : Nat)
    (fresh : (module.label,product) ∉ e.keys) :
    ((e.sized module.id).push (module.label,product)
      (e.newCache module made (module.label,product))).Holds (added ++ [(module,before ++ [product])]) := by
  obtain ⟨address,same⟩ := e.sized_same module.id
  obtain ⟨pointed,inside⟩ := holds.pointed.sized module.id
  have keys : ((e.sized module.id).push (module.label,product)
      (e.newCache module made (module.label,product))).keys = e.keys ++ [(module.label,product)] := by
    rw [Event.keys,Event.push,same,List.map_append]
    rfl
  refine ⟨pointed.push _ ?_ inside,?_,?_,?_⟩
  · rw [address]
    rfl
  · rw [keys,List.nodup_append]
    refine ⟨holds.keys,List.nodup_singleton _,?_⟩
    intro key member other singleton equal
    rw [equal,List.mem_singleton.mp singleton] at member
    exact fresh member
  · intro entry member
    rw [Event.push,same] at member
    rcases List.mem_append.mp member with member | member
    · obtain ⟨routed,m,known,of,label,listed⟩ := holds.entry entry member
      refine ⟨routed,?_⟩
      rcases List.mem_append.mp known with known | known
      · exact ⟨m,List.mem_append_left _ known,of,label,listed⟩
      · obtain rfl := List.mem_singleton.mp known
        exact ⟨(module,before ++ [product]),List.mem_append_right _ (List.mem_singleton.mpr rfl),of,label,
          List.mem_append_left _ listed⟩
    · obtain rfl := List.mem_singleton.mp member
      exact ⟨choseQueue_routed made module.threadType,(module,before ++ [product]),
        List.mem_append_right _ (List.mem_singleton.mpr rfl),rfl,rfl,
        List.mem_append_right _ (List.mem_singleton.mpr rfl)⟩
  · intro m known other listed
    rw [keys]
    rcases List.mem_append.mp known with known | known
    · exact List.mem_append_left _ (holds.complete m (List.mem_append_left _ known) other listed)
    · obtain rfl := List.mem_singleton.mp known
      rcases List.mem_append.mp listed with listed | listed
      · exact List.mem_append_left _ (holds.complete (module,before)
          (List.mem_append_right _ (List.mem_singleton.mpr rfl)) other listed)
      · rw [List.mem_singleton.mp listed]
        exact List.mem_append_right _ (List.mem_singleton.mpr rfl)

theorem Event.Holds.addProducer {added : List (Module L × List P)} {module : Module L}
    {products before : List P} {e : Event L P} {made : Nat}
    (holds : e.Holds (added ++ [(module,before)]))
    (labels : ∀ m ∈ added, m.1.label ≠ module.label) (distinct : (before ++ products).Nodup) :
    (Event.addProducer module (e,made) products).1.Holds (added ++ [(module,before ++ products)]) ∧
      (Event.addProducer module (e,made) products).1.address = e.address := by
  induction products generalizing before e made with
  | nil => exact ⟨by rw [List.append_nil]; exact holds,rfl⟩
  | cons product products ih =>
    have fresh : (module.label,product) ∉ e.keys := by
      intro member
      obtain ⟨entry,listed,same⟩ := List.mem_map.mp member
      obtain ⟨-,m,known,-,label,inside⟩ := holds.entry entry listed
      rw [same] at label inside
      rcases List.mem_append.mp known with known | known
      · exact labels m known label.symm
      · obtain rfl := List.mem_singleton.mp known
        exact (List.nodup_append.mp distinct).2.2 product inside product List.mem_cons_self rfl
    have split : before ++ product :: products = before ++ [product] ++ products := by simp
    rw [Event.addProducer_cons made products fresh,split]
    rw [split] at distinct
    obtain ⟨later,address⟩ :=
      @ih _ _ (choseQueue made module.threadType).2 (holds.push made fresh) distinct
    exact ⟨later,address.trans (e.sized_same module.id).1⟩

omit [DecidableEq L] [DecidableEq P] in
/-- A producer without products so far changes nothing. -/
theorem Event.Holds.start {added : List (Module L × List P)} {e : Event L P} (holds : e.Holds added)
    (module : Module L) : e.Holds (added ++ [(module,[])]) := by
  refine ⟨holds.pointed,holds.keys,?_,?_⟩
  · intro entry member
    obtain ⟨routed,m,known,rest⟩ := holds.entry entry member
    exact ⟨routed,m,List.mem_append_left _ known,rest⟩
  · intro m known product listed
    rcases List.mem_append.mp known with known | known
    · exact holds.complete m known product listed
    · obtain rfl := List.mem_singleton.mp known
      exact absurd listed List.not_mem_nil

def DataCache.cloned (address : Address L P) (entry : (L × P) × DataCache L P) : DataCache L P :=
  ((entry.2.copyFor ⟨address.schedule,.temporary⟩ address).copy ⟨address.schedule,.temporary⟩).copy
    ⟨address.schedule,.producer entry.1⟩

theorem Event.cloneEntry_eq {e : Event L P} {entry : (L × P) × DataCache L P} (fresh : entry.1 ∉ e.keys) :
    e.cloneEntry entry = e.push entry.1 (DataCache.cloned e.address entry) := by
  let temporary : Address L P := ⟨e.address.schedule,.temporary⟩
  obtain ⟨found,registered⟩ :=
    Event.register_insert ((entry.2.copyFor temporary e.address).copy temporary) fresh
  rw [Event.cloneEntry]
  simp only [temporary] at found
  rw [found]
  exact registered

/-- The entries are cloned one after the other. -/
theorem Event.foldl_cloneEntry {entries : List ((L × P) × DataCache L P)} {e : Event L P}
    (pointed : e.Pointed) (distinct : (e.keys ++ entries.map Prod.fst).Nodup)
    (inside : ∀ entry ∈ entries, entry.2.producer.module.id < e.producers.length) :
    (entries.foldl Event.cloneEntry e).Pointed ∧
      (entries.foldl Event.cloneEntry e).address = e.address ∧
      (entries.foldl Event.cloneEntry e).lookupMap =
        e.lookupMap ++ entries.map fun entry => (entry.1,DataCache.cloned e.address entry) := by
  induction entries generalizing e with
  | nil => exact ⟨pointed,rfl,(List.append_nil _).symm⟩
  | cons entry entries ih =>
    have fresh : entry.1 ∉ e.keys := by
      intro member
      exact (List.nodup_append.mp distinct).2.2 entry.1 member entry.1 List.mem_cons_self rfl
    rw [List.foldl_cons,Event.cloneEntry_eq fresh]
    have keys : (e.push entry.1 (DataCache.cloned e.address entry)).keys = e.keys ++ [entry.1] := by
      rw [Event.keys,Event.push,List.map_append]
      rfl
    have size : (e.push entry.1 (DataCache.cloned e.address entry)).producers.length =
        e.producers.length := List.length_set
    obtain ⟨pointed,address,lookupMap⟩ := ih
      (pointed.push (DataCache.cloned e.address entry) rfl (inside entry List.mem_cons_self))
      (by rw [keys,List.append_assoc]; exact distinct)
      (fun other member => by rw [size]; exact inside other (List.mem_cons_of_mem entry member))
    refine ⟨pointed,address,?_⟩
    rw [lookupMap]
    exact List.append_assoc _ _ _

theorem Event.clone_eq {e : Event L P} (pointed : e.Pointed) (keys : e.keys.Nodup) (number : Nat) :
    (e.clone number).Pointed ∧ (e.clone number).address = ⟨number,.event⟩ ∧
      (e.clone number).lookupMap =
        e.lookupMap.map fun entry => (entry.1,DataCache.cloned ⟨number,.event⟩ entry) := by
  apply Event.foldl_cloneEntry
  · refine ⟨by simp,?_,by simp⟩
    intro id pointer found
    simp [List.getElem?_replicate] at found
  · exact keys
  · intro entry member
    obtain ⟨pointer,found⟩ := pointed.all entry member
    obtain ⟨inside,-⟩ := List.getElem?_eq_some_iff.mp found
    simpa using inside

end ToyMtFramework.ScheduleClone
