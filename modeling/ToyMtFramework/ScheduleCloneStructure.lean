import ToyMtFramework.ScheduleCloneEvent

/-! A clone of a schedule. A path holds positions among the filters, and each is the first
one with its label, so that looking for the labels among the wrappers of the clone gives
the same positions again. -/
namespace ToyMtFramework.ScheduleClone
open RunQueues (Module)

variable {L P : Type}

theorem mapM_some {α β : Type} {f : α → Option β} {g : α → β} {as : List α}
    (each : ∀ a ∈ as, f a = some (g a)) : as.mapM f = some (as.map g) := by
  induction as with
  | nil => rfl
  | cons a as ih =>
    rw [List.mapM_cons,each a List.mem_cons_self,ih fun b member => each b (List.mem_cons_of_mem a member)]
    rfl

/-- Each result of a traversal is that of one item. -/
theorem mapM_mem {α β : Type} {f : α → Option β} {as : List α} {bs : List β}
    (done : as.mapM f = some bs) : ∀ b ∈ bs, ∃ a ∈ as, f a = some b := by
  induction as generalizing bs with
  | nil =>
    obtain rfl := Option.some.inj done
    exact fun b member => absurd member List.not_mem_nil
  | cons a as ih =>
    rw [List.mapM_cons] at done
    obtain ⟨b,first,rest⟩ := Option.bind_eq_some_iff.mp done
    obtain ⟨others,later,last⟩ := Option.bind_eq_some_iff.mp rest
    obtain rfl := Option.some.inj last
    intro c member
    rcases List.mem_cons.mp member with rfl | member
    · exact ⟨a,List.mem_cons_self,first⟩
    · obtain ⟨d,listed,found⟩ := ih later c member
      exact ⟨d,List.mem_cons_of_mem a listed,found⟩

def First [DecidableEq L] (filters : List (FilterWrapper L P)) (k : Nat) : Prop :=
  ∃ w, filters[k]? = some w ∧ ∀ i < k, ∀ v, filters[i]? = some v → v.label ≠ w.label

def pathOf (number : Nat) (fatal : Option Nat) (positions : List Nat) (i : Nat) : Path L P :=
  ⟨⟨number,.path i⟩,(positions.map fun k => Address.mk number (.filter k)).zipIdx.map fun f => ⟨f.1,f.2⟩,
    fatal,⟨number,.path i⟩⟩

def pathsOf (number : Nat) (fatal : Option Nat) (routes : List (List Nat)) : List (Path L P) :=
  routes.zipIdx.map fun p => pathOf number fatal p.1 p.2

variable [DecidableEq L] [DecidableEq P]

omit [DecidableEq P] in
theorem First.append {filters : List (FilterWrapper L P)} {k : Nat} (first : First filters k)
    (more : List (FilterWrapper L P)) : First (filters ++ more) k := by
  obtain ⟨w,found,before⟩ := first
  obtain ⟨inside,_⟩ := List.getElem?_eq_some_iff.mp found
  refine ⟨w,by rw [List.getElem?_append_left inside]; exact found,fun i earlier v at_i => ?_⟩
  rw [List.getElem?_append_left (by omega)] at at_i
  exact before i earlier v at_i

omit [DecidableEq P] in
theorem First.find {filters : List (FilterWrapper L P)} {k : Nat} {w : FilterWrapper L P}
    (found : filters[k]? = some w)
    (before : ∀ i < k, ∀ v, filters[i]? = some v → v.label ≠ w.label) :
    (filters.find? fun v => v.label = w.label) = some w := by
  rw [List.find?_eq_some_iff_getElem]
  obtain ⟨inside,equal⟩ := List.getElem?_eq_some_iff.mp found
  refine ⟨by simp,k,inside,equal,fun j earlier => ?_⟩
  have differs := before j earlier _ (List.getElem?_eq_getElem (by omega))
  simpa using differs

structure Built (added : List (Module L × List P)) (routes : List (List Nat)) (s : Schedule L P) :
    Prop where
  address : s.event.address = ⟨s.number,.event⟩
  event : s.event.Holds added
  filters : ∀ (i : Nat) w, s.filters[i]? = some w →
    w.address = ⟨s.number,.filter i⟩ ∧ w.toModuleWrapper.Routed
  paths : s.paths = pathsOf s.number s.fatalJobErrorOccurredPtr routes
  first : ∀ positions ∈ routes, ∀ k ∈ positions, First s.filters k

omit [DecidableEq P] in
theorem Schedule.findFilter_first {added : List (Module L × List P)} {routes : List (List Nat)}
    {s : Schedule L P} (built : Built added routes s) {label : L} {address : Address L P}
    (found : s.findFilter label = some address) :
    ∃ k, address = ⟨s.number,.filter k⟩ ∧ First s.filters k := by
  obtain ⟨w,listed,rfl⟩ := Option.map_eq_some_iff.mp found
  obtain ⟨holds,k,inside,rfl,before⟩ := List.find?_eq_some_iff_getElem.mp listed
  have at_k := List.getElem?_eq_getElem inside
  refine ⟨k,(built.filters k _ at_k).1,_,at_k,fun i earlier v at_i same => ?_⟩
  obtain ⟨inside',rfl⟩ := List.getElem?_eq_some_iff.mp at_i
  have differs := before i earlier
  simp only [decide_eq_true_eq] at holds
  rw [same,holds] at differs
  simp at differs

omit [DecidableEq P] in
/-- A path of found filters is one of positions. -/
theorem mapM_findFilter {added : List (Module L × List P)} {routes : List (List Nat)}
    {s : Schedule L P} (built : Built added routes s) {labels : List L} {addresses : List (Address L P)}
    (found : labels.mapM s.findFilter = some addresses) : ∃ positions : List Nat,
      addresses = positions.map (fun k => ⟨s.number,.filter k⟩) ∧
        ∀ k ∈ positions, First s.filters k := by
  have each := mapM_mem found
  clear found
  induction addresses with
  | nil => exact ⟨[],rfl,by simp⟩
  | cons address addresses ih =>
    obtain ⟨positions,rfl,first⟩ := ih fun b member => each b (List.mem_cons_of_mem address member)
    obtain ⟨label,-,found⟩ := each address List.mem_cons_self
    obtain ⟨k,rfl,also⟩ := Schedule.findFilter_first built found
    refine ⟨k :: positions,rfl,fun j member => ?_⟩
    rcases List.mem_cons.mp member with rfl | member
    · exact also
    · exact first j member

omit [DecidableEq L] [DecidableEq P] in
theorem pathsOf_push (number : Nat) (fatal : Option Nat) (routes : List (List Nat)) (positions : List Nat) :
    (pathsOf number fatal (routes ++ [positions]) : List (Path L P)) =
      pathsOf number fatal routes ++ [pathOf number fatal positions routes.length] := by
  rw [pathsOf,List.zipIdx_append,List.map_append]
  simp [pathsOf]

omit [DecidableEq L] [DecidableEq P] in
theorem Schedule.pushPath_paths {s : Schedule L P} {routes : List (List Nat)}
    (same : s.paths = pathsOf s.number s.fatalJobErrorOccurredPtr routes) (positions : List Nat) :
    (s.pushPath (positions.map fun k => ⟨s.number,.filter k⟩)).paths =
      pathsOf s.number s.fatalJobErrorOccurredPtr (routes ++ [positions]) := by
  have size : s.paths.length = routes.length := by simp [same,pathsOf]
  rw [pathsOf_push,← same,← size]
  rfl

def producers : List (Addition L P) → List (Module L × List P)
  | [] => []
  | .producer module products :: additions => (module,products) :: producers additions
  | _ :: additions => producers additions

/-- Adding keeps the parts where they belong. -/
theorem Built.add {added : List (Module L × List P)} {routes : List (List Nat)} {s t : Schedule L P}
    {made made' : Nat} (built : Built added routes s) {addition : Addition L P}
    (labels : ((added ++ producers [addition]).map fun m => m.1.label).Nodup)
    (sets : ∀ m ∈ producers [addition], m.2.Nodup)
    (done : Schedule.add (s,made) addition = some (t,made')) :
    (∃ routes, Built (added ++ producers [addition]) routes t) ∧
      t.number = s.number ∧ t.fatalJobErrorOccurredPtr = s.fatalJobErrorOccurredPtr := by
  cases addition with
  | producer module products =>
    obtain ⟨rfl,-⟩ := Prod.mk.inj (Option.some.inj done)
    have other (m : Module L × List P) (known : m ∈ added) : m.1.label ≠ module.label := by
      rw [List.map_append,List.nodup_append] at labels
      exact labels.2.2 _ (List.mem_map_of_mem known) _ List.mem_cons_self
    obtain ⟨holds,address⟩ : (Event.addProducer module (s.event,made) products).1.Holds
        (added ++ [(module,[] ++ products)]) ∧
          (Event.addProducer module (s.event,made) products).1.address = s.event.address :=
      (built.event.start module).addProducer other
        (by simpa using sets (module,products) List.mem_cons_self)
    exact ⟨⟨routes,address.trans built.address,holds,built.filters,built.paths,built.first⟩,rfl,rfl⟩
  | filter module =>
    obtain ⟨rfl,-⟩ := Prod.mk.inj (Option.some.inj done)
    refine ⟨⟨routes,built.address,by simpa [producers] using built.event,?_,built.paths,?_⟩,rfl,rfl⟩
    · intro i w found
      change (s.filters ++ [_])[i]? = some w at found
      rw [List.getElem?_append] at found
      split at found
      · exact built.filters i w found
      · obtain ⟨_,rfl⟩ : i - s.filters.length = 0 ∧ _ = w := by simpa [List.getElem?_cons] using found
        have at_end : i = s.filters.length := by omega
        subst at_end
        exact ⟨rfl,choseQueue_routed made module.threadType⟩
    · exact fun positions member k listed => (built.first positions member k listed).append _
  | path labels =>
    obtain ⟨addresses,found,last⟩ := Option.bind_eq_some_iff.mp done
    obtain ⟨rfl,-⟩ := Prod.mk.inj (Option.some.inj last)
    obtain ⟨positions,rfl,first⟩ := mapM_findFilter built found
    refine ⟨⟨routes ++ [positions],built.address,by simpa [producers,Schedule.pushPath] using built.event,built.filters,
      Schedule.pushPath_paths built.paths positions,?_⟩,rfl,rfl⟩
    intro others member k listed
    rcases List.mem_append.mp member with member | member
    · exact built.first others member k listed
    · rw [List.mem_singleton.mp member] at listed
      exact first k listed

omit [DecidableEq L] [DecidableEq P] in
theorem producers_cons (addition : Addition L P) (additions : List (Addition L P)) :
    producers (addition :: additions) = producers [addition] ++ producers additions := by
  cases addition <;> rfl

theorem Built.foldlM {added : List (Module L × List P)} {routes : List (List Nat)} {s t : Schedule L P}
    {made made' : Nat} {additions : List (Addition L P)} (built : Built added routes s)
    (labels : ((added ++ producers additions).map fun m => m.1.label).Nodup)
    (sets : ∀ m ∈ producers additions, m.2.Nodup)
    (done : additions.foldlM Schedule.add (s,made) = some (t,made')) :
    (∃ routes, Built (added ++ producers additions) routes t) ∧
      t.number = s.number ∧ t.fatalJobErrorOccurredPtr = s.fatalJobErrorOccurredPtr := by
  induction additions generalizing added routes s made with
  | nil =>
    obtain ⟨rfl,-⟩ := Prod.mk.inj (Option.some.inj done)
    exact ⟨⟨routes,by rw [producers,List.append_nil]; exact built⟩,rfl,rfl⟩
  | cons addition additions ih =>
    rw [List.foldlM_cons] at done
    obtain ⟨⟨u,made''⟩,first,rest⟩ := Option.bind_eq_some_iff.mp done
    rw [producers_cons] at labels sets ⊢
    rw [← List.append_assoc] at labels ⊢
    have some_ : ((added ++ producers [addition]).map fun m => m.1.label).Nodup := by
      rw [List.map_append] at labels
      exact (List.nodup_append.mp labels).1
    obtain ⟨⟨routes,built⟩,number,fatal⟩ :=
      built.add some_ (fun m member => sets m (List.mem_append_left _ member)) first
    obtain ⟨whole,number',fatal'⟩ :=
      ih built labels (fun m member => sets m (List.mem_append_right _ member)) rest
    exact ⟨whole,number'.trans number,fatal'.trans fatal⟩

omit [DecidableEq P] in
theorem Built.initial (fatal : Option Nat) : Built [] [] (Schedule.initial L P fatal) := by
  refine ⟨rfl,⟨⟨?_,?_,?_⟩,List.nodup_nil,?_,?_⟩,?_,rfl,?_⟩
  · exact fun entry member => absurd member List.not_mem_nil
  · exact fun id pointer found => by simp [Schedule.initial] at found
  · exact fun entry member => absurd member List.not_mem_nil
  · exact fun entry member => absurd member List.not_mem_nil
  · exact fun m member => absurd member List.not_mem_nil
  · exact fun i w found => by simp [Schedule.initial] at found
  · exact fun positions member => absurd member List.not_mem_nil

/-- What the configuration builds. -/
theorem build_built {fatal : Option Nat} {additions : List (Addition L P)} {s : Schedule L P}
    (labels : ((producers additions).map fun m => m.1.label).Nodup)
    (sets : ∀ m ∈ producers additions, m.2.Nodup) (done : build fatal additions = some s) :
    (∃ routes, Built (producers additions) routes s) ∧ s.number = 0 := by
  obtain ⟨⟨t,made⟩,folded,last⟩ := Option.bind_eq_some_iff.mp done
  obtain rfl := Option.some.inj last
  obtain ⟨built,number,-⟩ := (Built.initial fatal).foldlM (by simpa using labels) sets folded
  exact ⟨by simpa using built,number⟩

def clonedFilters (s : Schedule L P) (number : Nat) : List (FilterWrapper L P) :=
  s.filters.zipIdx.map fun w => w.1.copyFor ⟨number,.filter w.2⟩ ⟨number,.event⟩

omit [DecidableEq L] [DecidableEq P] in
theorem clonedFilters_getElem? (s : Schedule L P) (number i : Nat) : (clonedFilters s number)[i]? =
    (s.filters[i]?).map fun w => w.copyFor ⟨number,.filter i⟩ ⟨number,.event⟩ := by
  rw [clonedFilters,List.getElem?_map,List.getElem?_zipIdx]
  cases s.filters[i]? <;> simp

/-- The clone finds the position of the original. -/
theorem Built.label_found {added : List (Module L × List P)} {routes : List (List Nat)} {s : Schedule L P}
    (built : Built added routes s) (number : Nat) {k : Nat} (first : First s.filters k) :
    (do
      let label ← s.labelOf ⟨s.number,.filter k⟩
      let found ← (clonedFilters s number).find? fun w => w.label = label
      return found.address) = some (Address.mk number (.filter k)) := by
  obtain ⟨w,found,before⟩ := first
  have located : s.labelOf ⟨s.number,.filter k⟩ = some w.label := by
    have here : (s.filters.find? fun v => v.address = ⟨s.number,.filter k⟩) = some w := by
      rw [List.find?_eq_some_iff_getElem]
      obtain ⟨inside,equal⟩ := List.getElem?_eq_some_iff.mp found
      refine ⟨by simp [(built.filters k w found).1],k,inside,equal,fun j earlier => ?_⟩
      have address := (built.filters j _ (List.getElem?_eq_getElem (by omega))).1
      simp [address,Nat.ne_of_lt earlier]
    rw [Schedule.labelOf,here]
    rfl
  have copied : (clonedFilters s number)[k]? = some (w.copyFor ⟨number,.filter k⟩ ⟨number,.event⟩) := by
    rw [clonedFilters_getElem?,found]
    rfl
  have also := First.find copied (by
    intro i earlier v at_i
    rw [clonedFilters_getElem?] at at_i
    obtain ⟨u,here,rfl⟩ := Option.map_eq_some_iff.mp at_i
    exact before i earlier u here)
  have label : (w.copyFor ⟨number,.filter k⟩ ⟨number,.event⟩ : FilterWrapper L P).label = w.label := rfl
  rw [label] at also
  rw [located]
  simp only [bind,Option.bind_some,also]
  rfl

/-- `Path::clone` keeps the positions. -/
theorem Built.path_clone {added : List (Module L × List P)} {routes : List (List Nat)} {s : Schedule L P}
    (built : Built added routes s) (number i : Nat) {positions : List Nat}
    (first : ∀ k ∈ positions, First s.filters k) :
    (pathOf s.number s.fatalJobErrorOccurredPtr positions i : Path L P).clone s.labelOf
      (clonedFilters s number) = some (positions.map fun k => ⟨number,.filter k⟩) := by
  let moved (f : FilterOnPathWrapper L P) : Address L P := ⟨number,f.filter.place⟩
  have each (f : FilterOnPathWrapper L P)
      (member : f ∈ (pathOf s.number s.fatalJobErrorOccurredPtr positions i : Path L P).filters) :
      (do
        let label ← s.labelOf f.filter
        let found ← (clonedFilters s number).find? fun w => w.label = label
        return found.address) = some (moved f) := by
    obtain ⟨⟨address,j⟩,listed,rfl⟩ := List.mem_map.mp member
    have inside := List.mem_zipIdx_iff_getElem?.mp listed
    obtain ⟨k,known,rfl⟩ := List.mem_map.mp (List.mem_of_getElem? inside)
    exact built.label_found number (first k known)
  refine (mapM_some each).trans (congrArg some ?_)
  change ((positions.map fun k => Address.mk s.number (.filter k)).zipIdx.map _).map moved = _
  rw [List.map_map]
  have same : (moved ∘ fun f : Address L P × Nat => FilterOnPathWrapper.mk f.1 f.2) =
      (fun address : Address L P => ⟨number,address.place⟩) ∘ Prod.fst := rfl
  rw [same,← List.map_map,List.zipIdx_map_fst,List.map_map]
  rfl

/-- The paths are cloned one after the other. -/
theorem Built.clone_paths {added : List (Module L × List P)} {routes : List (List Nat)} {s : Schedule L P}
    (built : Built added routes s) (number : Nat) {before rest : List (List Nat)}
    (first : ∀ positions ∈ rest, ∀ k ∈ positions, First s.filters k) {c : Schedule L P}
    (same : c.number = number) (filters : c.filters = clonedFilters s number)
    (paths : c.paths = pathsOf c.number c.fatalJobErrorOccurredPtr before) :
    ((rest.zipIdx before.length).map fun p => pathOf s.number s.fatalJobErrorOccurredPtr p.1 p.2).foldlM
        (fun c p => do
          let filters ← Path.clone p s.labelOf c.filters
          return c.pushPath filters) c =
      some {c with paths := pathsOf number c.fatalJobErrorOccurredPtr (before ++ rest)} := by
  subst same
  induction rest generalizing before c with
  | nil =>
    rw [List.append_nil,← paths]
    rfl
  | cons positions rest ih =>
    have step : (pathOf s.number s.fatalJobErrorOccurredPtr positions before.length : Path L P).clone
        s.labelOf c.filters = some (positions.map fun k => ⟨c.number,.filter k⟩) := by
      rw [filters]
      exact built.path_clone c.number before.length (first positions List.mem_cons_self)
    rw [List.zipIdx_cons,List.map_cons,List.foldlM_cons,step]
    have next := @ih (before ++ [positions])
      (fun others member => first others (List.mem_cons_of_mem positions member))
      (c.pushPath (positions.map fun k => ⟨c.number,.filter k⟩))
      (Schedule.pushPath_paths paths positions) filters
    rw [List.length_append,List.length_singleton,List.append_assoc] at next
    exact next

/-- A clone of a schedule that was built. -/
theorem Built.clone_eq {added : List (Module L × List P)} {routes : List (List Nat)} {s : Schedule L P}
    (built : Built added routes s) (number : Nat) : s.clone number =
      some ⟨number,s.event.clone number,pathsOf number s.fatalJobErrorOccurredPtr routes,
        clonedFilters s number,s.fatalJobErrorOccurredPtr⟩ := by
  obtain ⟨-,address,-⟩ := Event.clone_eq built.event.pointed built.event.keys number
  have cloned := @Built.clone_paths L P _ _ added routes s built number [] routes built.first
    ⟨number,s.event.clone number,[],clonedFilters s number,s.fatalJobErrorOccurredPtr⟩ rfl rfl rfl
  have filters : (s.filters.zipIdx.map fun w => w.1.copyFor ⟨number,.filter w.2⟩
      (s.event.clone number).address) = clonedFilters s number := by
    rw [address]
    rfl
  unfold Schedule.clone
  simp only [filters,built.paths]
  exact cloned

end ToyMtFramework.ScheduleClone
