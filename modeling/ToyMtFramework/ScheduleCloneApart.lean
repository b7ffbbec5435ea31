import ToyMtFramework.ScheduleCloneStructure

/-! A clone has the structure of the schedule it was made from, and nothing that belongs to
an event is shared: what the clone points to is its own. -/
namespace ToyMtFramework.ScheduleClone
open RunQueues (Module)

variable {L P : Type}

def Schedule.objects (s : Schedule L P) : List (Address L P) :=
  s.event.address :: (s.filters.map (fun w => w.address) ++
    (s.event.lookupMap.map (fun entry => entry.2.producer.address) ++ s.paths.map Path.address))

/-- What the parts of a schedule point to, apart from modules, queues and the fatal flag. -/
def Schedule.pointers (s : Schedule L P) : List (Address L P) :=
  s.filters.flatMap (fun w => [w.event,w.runTask]) ++
    (s.event.lookupMap.flatMap (fun entry => [entry.2.producer.event,entry.2.producer.runTask]) ++
      (s.event.producers.filterMap id ++
        s.paths.flatMap fun p => p.nextFilterTask :: p.filters.map FilterOnPathWrapper.filter))

structure CloneOf (s c : Schedule L P) : Prop where
  filters : c.filters.length = s.filters.length
  filter : ∀ (i : Nat) w, s.filters[i]? = some w → ∃ v, c.filters[i]? = some v ∧
    Copied c.event.address w.toModuleWrapper v.toModuleWrapper ∧ v.keep = false
  paths : c.paths.length = s.paths.length
  path : ∀ (i : Nat) p, s.paths[i]? = some p → ∃ q, c.paths[i]? = some q ∧
    q.filters.length = p.filters.length ∧ q.fatalJobErrorOccurredPtr = p.fatalJobErrorOccurredPtr ∧
    ∀ (j : Nat) f, p.filters[j]? = some f → ∃ g, q.filters[j]? = some g ∧ g.index = f.index ∧
      ∃ k : Nat, ∃ w v, s.filters[k]? = some w ∧ w.address = f.filter ∧
        c.filters[k]? = some v ∧ v.address = g.filter
  keys : c.event.keys = s.event.keys
  entry : ∀ (i : Nat) key cache, s.event.lookupMap[i]? = some (key,cache) →
    ∃ copy, c.event.lookupMap[i]? = some (key,copy) ∧
      Copied c.event.address cache.producer copy.producer ∧ copy.wasCached = false
  fatal : c.fatalJobErrorOccurredPtr = s.fatalJobErrorOccurredPtr

theorem pathsOf_getElem? (number : Nat) (fatal : Option Nat) (routes : List (List Nat)) (i : Nat) :
    (pathsOf number fatal routes : List (Path L P))[i]? =
      (routes[i]?).map fun positions => pathOf number fatal positions i := by
  rw [pathsOf,List.getElem?_map,List.getElem?_zipIdx]
  cases routes[i]? <;> simp

theorem pathOf_getElem? (number : Nat) (fatal : Option Nat) (positions : List Nat) (i j : Nat) :
    (pathOf number fatal positions i : Path L P).filters[j]? =
      (positions[j]?).map fun k => ⟨⟨number,.filter k⟩,j⟩ := by
  rw [pathOf,List.getElem?_map,List.getElem?_zipIdx,List.getElem?_map]
  cases positions[j]? <;> simp

variable [DecidableEq L] [DecidableEq P]

def cloned (s : Schedule L P) (routes : List (List Nat)) (number : Nat) : Schedule L P :=
  ⟨number,s.event.clone number,pathsOf number s.fatalJobErrorOccurredPtr routes,clonedFilters s number,
    s.fatalJobErrorOccurredPtr⟩

section Built
variable {added : List (Module L × List P)} {routes : List (List Nat)} {s : Schedule L P}
  (built : Built added routes s) (number : Nat)
include built

theorem Built.cloneOf : CloneOf s (cloned s routes number) := by
  obtain ⟨-,address,lookupMap⟩ := Event.clone_eq built.event.pointed built.event.keys number
  refine ⟨?_,?_,?_,?_,?_,?_,rfl⟩
  · simp [cloned,clonedFilters]
  · intro i w found
    refine ⟨w.copyFor ⟨number,.filter i⟩ ⟨number,.event⟩,?_,?_,rfl⟩
    · change (clonedFilters s number)[i]? = _
      rw [clonedFilters_getElem?,found]
      rfl
    · change Copied (s.event.clone number).address _ _
      rw [address]
      exact (built.filters i w found).2.copyFor _ _
  · rw [built.paths]
    simp [cloned,pathsOf]
  · intro i p found
    rw [built.paths,pathsOf_getElem?] at found
    obtain ⟨positions,listed,rfl⟩ := Option.map_eq_some_iff.mp found
    refine ⟨pathOf number s.fatalJobErrorOccurredPtr positions i,?_,?_,rfl,?_⟩
    · change (pathsOf number _ routes)[i]? = _
      rw [pathsOf_getElem?,listed]
      rfl
    · simp [pathOf]
    · intro j f here
      rw [pathOf_getElem?] at here
      obtain ⟨k,at_j,rfl⟩ := Option.map_eq_some_iff.mp here
      refine ⟨⟨⟨number,.filter k⟩,j⟩,?_,rfl,?_⟩
      · rw [pathOf_getElem?,at_j]
        rfl
      · obtain ⟨w,at_k,-⟩ := built.first positions (List.mem_of_getElem? listed) k (List.mem_of_getElem? at_j)
        refine ⟨k,w,w.copyFor ⟨number,.filter k⟩ ⟨number,.event⟩,at_k,(built.filters k w at_k).1,?_,rfl⟩
        change (clonedFilters s number)[k]? = _
        rw [clonedFilters_getElem?,at_k]
        rfl
  · change (s.event.clone number).lookupMap.map Prod.fst = s.event.lookupMap.map Prod.fst
    rw [lookupMap,List.map_map]
    rfl
  · intro i key cache found
    refine ⟨DataCache.cloned ⟨number,.event⟩ (key,cache),?_,?_,rfl⟩
    · change (s.event.clone number).lookupMap[i]? = _
      rw [lookupMap,List.getElem?_map,found]
      rfl
    · change Copied (s.event.clone number).address _ _
      rw [address]
      have routed := (built.event.entry (key,cache) (List.mem_of_getElem? found)).1
      exact ((routed.copyFor _ _).copy _).copy _

/-- The objects of a clone are numbered with it. -/
theorem Built.cloned_objects : ∀ object ∈ (cloned s routes number).objects, object.schedule = number := by
  obtain ⟨pointed,address,-⟩ := Event.clone_eq built.event.pointed built.event.keys number
  intro object member
  rcases List.mem_cons.mp member with rfl | member
  · exact congrArg Address.schedule address
  · rcases List.mem_append.mp member with filter | member
    · obtain ⟨v,listed,rfl⟩ := List.mem_map.mp filter
      obtain ⟨w,-,rfl⟩ := List.mem_map.mp listed
      rfl
    · rcases List.mem_append.mp member with producer | path
      · obtain ⟨entry,listed,rfl⟩ := List.mem_map.mp producer
        rw [pointed.address entry listed]
        exact congrArg Address.schedule address
      · obtain ⟨p,listed,rfl⟩ := List.mem_map.mp path
        obtain ⟨q,-,rfl⟩ := List.mem_map.mp listed
        rfl

omit [DecidableEq P] in
theorem Built.own_objects : ∀ object ∈ s.objects, object.schedule = s.number := by
  intro object member
  rcases List.mem_cons.mp member with rfl | member
  · exact congrArg Address.schedule built.address
  · rcases List.mem_append.mp member with filter | member
    · obtain ⟨w,listed,rfl⟩ := List.mem_map.mp filter
      obtain ⟨i,found⟩ := List.mem_iff_getElem?.mp listed
      rw [(built.filters i w found).1]
    · rcases List.mem_append.mp member with producer | path
      · obtain ⟨entry,listed,rfl⟩ := List.mem_map.mp producer
        rw [built.event.pointed.address entry listed]
        exact congrArg Address.schedule built.address
      · obtain ⟨p,listed,rfl⟩ := List.mem_map.mp path
        rw [built.paths] at listed
        obtain ⟨q,-,rfl⟩ := List.mem_map.mp listed
        rfl

/-- What a clone points to is its own. -/
theorem Built.cloned_pointers :
    ∀ pointer ∈ (cloned s routes number).pointers, pointer ∈ (cloned s routes number).objects := by
  obtain ⟨pointed,address,lookupMap⟩ := Event.clone_eq built.event.pointed built.event.keys number
  have event : (⟨number,.event⟩ : Address L P) ∈ (cloned s routes number).objects := by
    rw [← address]
    exact List.mem_cons_self
  have producer {entry : (L × P) × DataCache L P} (listed : entry ∈ (s.event.clone number).lookupMap) :
      entry.2.producer.address ∈ (cloned s routes number).objects :=
    List.mem_cons_of_mem _ (List.mem_append_right _ (List.mem_append_left _
      (List.mem_map.mpr ⟨entry,listed,rfl⟩)))
  have filter {v : FilterWrapper L P} (listed : v ∈ clonedFilters s number) :
      v.address ∈ (cloned s routes number).objects :=
    List.mem_cons_of_mem _ (List.mem_append_left _ (List.mem_map.mpr ⟨v,listed,rfl⟩))
  intro pointer member
  rcases List.mem_append.mp member with member | member
  · obtain ⟨v,listed,member⟩ := List.mem_flatMap.mp member
    obtain ⟨w,-,rfl⟩ := List.mem_map.mp listed
    rcases List.mem_cons.mp member with rfl | member
    · exact event
    · rw [List.mem_singleton.mp member]
      exact filter listed
  · rcases List.mem_append.mp member with member | member
    · obtain ⟨entry,listed,member⟩ := List.mem_flatMap.mp member
      have own := producer listed
      change entry ∈ (s.event.clone number).lookupMap at listed
      rw [lookupMap] at listed
      obtain ⟨original,-,rfl⟩ := List.mem_map.mp listed
      rcases List.mem_cons.mp member with rfl | member
      · exact event
      · rw [List.mem_singleton.mp member]
        exact own
    · rcases List.mem_append.mp member with member | member
      · obtain ⟨found,listed,rfl⟩ := List.mem_filterMap.mp member
        obtain ⟨id,at_id⟩ := List.mem_iff_getElem?.mp listed
        obtain ⟨entry,known,-,rfl⟩ := pointed.own id pointer at_id
        exact producer known
      · obtain ⟨p,listed,member⟩ := List.mem_flatMap.mp member
        obtain ⟨⟨positions,i⟩,route,rfl⟩ := List.mem_map.mp listed
        rcases List.mem_cons.mp member with rfl | member
        · exact List.mem_cons_of_mem _ (List.mem_append_right _ (List.mem_append_right _
            (List.mem_map.mpr ⟨_,listed,rfl⟩)))
        · obtain ⟨f,on_path,rfl⟩ := List.mem_map.mp member
          obtain ⟨j,at_j⟩ := List.mem_iff_getElem?.mp on_path
          rw [pathOf_getElem?] at at_j
          obtain ⟨k,known,rfl⟩ := Option.map_eq_some_iff.mp at_j
          have inside := List.mem_of_getElem? (List.mem_zipIdx_iff_getElem?.mp route)
          obtain ⟨w,at_k,-⟩ := built.first positions inside k (List.mem_of_getElem? known)
          have listed : w.copyFor ⟨number,.filter k⟩ ⟨number,.event⟩ ∈ clonedFilters s number := by
            apply List.mem_of_getElem? (i := k)
            rw [clonedFilters_getElem?,at_k]
            rfl
          exact filter listed

/-- `m_producers` points to a wrapper of each producer that has a product. -/
theorem Built.cloned_producers (labels : (added.map fun m => m.1.label).Nodup)
    (ids : (added.map fun m => m.1.id).Nodup) {m : Module L × List P}
    (member : m ∈ added) :
    (m.2 ≠ [] → ∃ entry ∈ (cloned s routes number).event.lookupMap, entry.2.producer.module = m.1 ∧
      (cloned s routes number).event.producers[m.1.id]? = some (some entry.2.producer.address)) ∧
    (m.2 = [] → ∀ pointer, (cloned s routes number).event.producers[m.1.id]? ≠ some (some pointer)) := by
  obtain ⟨pointed,address,lookupMap⟩ := Event.clone_eq built.event.pointed built.event.keys number
  have known {entry : (L × P) × DataCache L P} (listed : entry ∈ (s.event.clone number).lookupMap) :
      ∃ n ∈ added, entry.2.producer.module = n.1 ∧ entry.1.2 ∈ n.2 := by
    rw [lookupMap] at listed
    obtain ⟨original,old,rfl⟩ := List.mem_map.mp listed
    obtain ⟨-,n,inside,of,-,product⟩ := built.event.entry original old
    exact ⟨n,inside,of,product⟩
  have unique {n : Module L × List P} (inside : n ∈ added) (same : n.1.id = m.1.id) : n = m :=
    List.inj_on_of_nodup_map ids inside member same
  constructor
  · intro some_
    obtain ⟨product,one⟩ := List.exists_mem_of_ne_nil m.2 some_
    obtain ⟨original,old,key⟩ := List.mem_map.mp (built.event.complete m member product one)
    obtain ⟨-,n,inside,of,label,-⟩ := built.event.entry original old
    rw [key] at label
    obtain rfl : n = m := List.inj_on_of_nodup_map labels inside member label.symm
    have copied : (original.1,DataCache.cloned ⟨number,.event⟩ original) ∈ (s.event.clone number).lookupMap := by
      rw [lookupMap]
      exact List.mem_map_of_mem old
    obtain ⟨pointer,found⟩ := pointed.all _ copied
    change (s.event.clone number).producers[original.2.producer.module.id]? = _ at found
    rw [of] at found
    obtain ⟨entry,listed,same,rfl⟩ := pointed.own n.1.id pointer found
    obtain ⟨o,also,of',-⟩ := known listed
    rw [of'] at same
    obtain rfl := unique also same
    exact ⟨entry,listed,of',found⟩
  · intro none_ pointer found
    obtain ⟨entry,listed,same,-⟩ := pointed.own m.1.id pointer found
    obtain ⟨n,inside,of,product⟩ := known listed
    rw [of] at same
    obtain rfl := unique inside same
    rw [none_] at product
    exact absurd product List.not_mem_nil

end Built

theorem clones_cloned {added : List (Module L × List P)} {routes : List (List Nat)} {s : Schedule L P}
    (built : Built added routes s) (n : Nat) :
    clones s n = some ((List.range n).map fun k => cloned s routes (k + 1)) :=
  mapM_some fun k _ => built.clone_eq (k + 1)

/-- Each of any number of clones has the structure of the schedule that was built and points
to nothing but its own parts; its `m_producers` holds a wrapper of each producer that has
a product, and nothing for the others. -/
theorem clones_apart {fatal : Option Nat} {additions : List (Addition L P)}
    (labels : ((producers additions).map fun m => m.1.label).Nodup)
    (ids : ((producers additions).map fun m => m.1.id).Nodup)
    (sets : ∀ m ∈ producers additions, m.2.Nodup) {s : Schedule L P}
    (built : build fatal additions = some s) (n : Nat) : ∃ cs, clones s n = some cs ∧ cs.length = n ∧
      (∀ c ∈ cs, CloneOf s c ∧ (∀ pointer ∈ c.pointers, pointer ∈ c.objects) ∧
        ∀ m ∈ producers additions,
          (m.2 ≠ [] → ∃ entry ∈ c.event.lookupMap, entry.2.producer.module = m.1 ∧
            c.event.producers[m.1.id]? = some (some entry.2.producer.address)) ∧
          (m.2 = [] → ∀ pointer, c.event.producers[m.1.id]? ≠ some (some pointer))) ∧
      (s :: cs).Pairwise fun a b => a.objects.Disjoint b.objects := by
  obtain ⟨⟨routes,built⟩,first⟩ := build_built labels sets built
  refine ⟨_,clones_cloned built n,by simp,?_,?_⟩
  · intro c member
    obtain ⟨k,-,rfl⟩ := List.mem_map.mp member
    exact ⟨built.cloneOf (k + 1),built.cloned_pointers (k + 1),
      fun m known => built.cloned_producers (k + 1) labels ids known⟩
  · rw [List.pairwise_cons]
    constructor
    · intro c member object mine others
      obtain ⟨k,-,rfl⟩ := List.mem_map.mp member
      have number := built.own_objects object mine
      rw [built.cloned_objects (k + 1) object others,first] at number
      exact absurd number (Nat.succ_ne_zero k)
    · apply List.Pairwise.map _ _ List.pairwise_lt_range
      intro j k before object one other
      have number := built.cloned_objects (j + 1) object one
      rw [built.cloned_objects (k + 1) object other] at number
      omega

def twoProducers : List (Addition Nat Nat) :=
  [.producer ⟨0,0,.threadUnsafe,false⟩ [0,1],.producer ⟨1,1,.threadSafeBetweenModules,false⟩ [],
    .filter ⟨2,5,.threadSafeBetweenInstances,false⟩,.path [5],
    .filter ⟨3,5,.threadUnsafe,false⟩,.filter ⟨4,6,.threadSafeBetweenModules,false⟩,.path [6,5,6]]

theorem clones_apart_two : ∃ s cs, build (some 0) twoProducers = some s ∧ clones s 2 = some cs ∧
    ∀ c ∈ cs, CloneOf s c := by
  obtain ⟨s,built⟩ : ∃ s, build (some 0) twoProducers = some s := ⟨_,rfl⟩
  obtain ⟨cs,made,-,each,-⟩ := clones_apart (by decide) (by decide) (by decide) built 2
  exact ⟨s,cs,built,made,fun c member => (each c member).1⟩

/-- A producer without products has no wrapper, and `m_producers` has no entry for it. -/
theorem unproductive_unregistered : ∃ s c, build (some 0)
    [.producer ⟨0,0,.threadUnsafe,false⟩ ([] : List Nat)] = some s ∧ s.clone 1 = some c ∧
      ¬ ∃ entry ∈ c.event.lookupMap, entry.2.producer.module.id = 0 ∧
        c.event.producers[0]? = some (some entry.2.producer.address) := by
  obtain ⟨s,c,built,made,empty⟩ : ∃ s c, build (some 0)
      [.producer ⟨0,0,.threadUnsafe,false⟩ ([] : List Nat)] = some s ∧ s.clone 1 = some c ∧
        c.event.lookupMap = [] := ⟨_,_,rfl,rfl,rfl⟩
  refine ⟨s,c,built,made,?_⟩
  rintro ⟨entry,member,-⟩
  rw [empty] at member
  exact List.not_mem_nil member

end ToyMtFramework.ScheduleClone
