import ToyMtFramework.DispatchEventLoop
import Mathlib.Data.List.Perm.Subperm
import Mathlib.Order.WellFounded

/-! Which events the contexts of the Dispatch framework are given. If no two calls of `setEventInfo` overlap,
these are all events of the source, each of them once. If two do overlap, an event can be given to both
contexts. -/
namespace ToyMtFramework.DispatchEventLoop
open Activities Transition
open EventLoop (sizeBound)

def control (i : Nat) : Frame → Nat
  | .processAll contexts => contexts.count i
  | .getAndProcess j | .increment j | .store j _ | .compare j _ | .process j | .launch j _
  | .scheduleCallback j | .filter j _ => if j = i then 1 else 0
  | _ => 0

def inLoop : Frame → Nat
  | .getAndProcess _ | .increment _ | .store _ _ | .compare _ _ | .process _ | .scheduleCallback _
  | .blockEnds => 1
  | .launch _ _ => 2
  | .filter _ inBlock | .leave inBlock => 1 + inBlock.toNat
  | _ => 0

def inPaths (i : Nat) : Frame → Nat
  | .processPresentPath j | .runAsync j | .pathBlockEnds j => if j = i then 1 else 0
  | _ => 0

def main : Frame → Nat
  | .processAll _ | .wait => 1
  | _ => 0

/-- An upper bound for the steps that follow from a frame before the source is asked again. -/
def effort (c : Config) : Frame → Nat
  | .processAll contexts => 8 * contexts.length + 2
  | .getAndProcess _ => 6
  | .increment _ => 5
  | .store _ _ => 4
  | .compare _ _ => 3
  | .process _ => 4 * c.paths + 15
  | .launch _ paths => 4 * paths + 14
  | .processPresentPath _ => 3
  | .scheduleCallback _ => 10
  | .filter _ _ => 9
  | .leave _ => 2
  | .wait | .runAsync _ | .pathBlockEnds _ | .blockEnds => 1

section Steps
variable {c : Config} {sh : Shared} {f : Frame} {r : Reaction Shared Frame}

theorem control_reacts (reacts : Reacts c sh f r) (i : Nat) :
    weigh (control i) r.frames + r.shared.refused.count i = control i f + sh.refused.count i := by
  cases reacts with
  | processAll j js =>
    simp [control,Shared.enterLoop,List.count_cons,add_comm]
  | refuse j n => simp [control,List.count_append,List.count_singleton,add_comm]
  | leave inBlock => cases inBlock <;> simp [control,Shared.leaveLoop]
  | _ => simp [control,Shared.enterLoop,Shared.leaveLoop,Shared.enterPaths,Shared.leavePaths]

theorem inLoop_reacts (reacts : Reacts c sh f r) (entered : inLoop f ≤ sh.eventLoopGroup) :
    r.shared.eventLoopGroup + inLoop f = sh.eventLoopGroup + weigh inLoop r.frames := by
  cases reacts with
  | leave inBlock =>
    cases inBlock <;> simp only [inLoop,Bool.toNat_true,Bool.toNat_false] at entered <;> simp [inLoop,Shared.leaveLoop] <;> omega
  | blockEnds =>
    simp only [inLoop] at entered
    simp [inLoop,Shared.leaveLoop]
    omega
  | filter i inBlock =>
    simp [inLoop,Shared.enterLoop]
    omega
  | _ => simp [inLoop,Shared.enterLoop,Shared.enterPaths,Shared.leavePaths]

theorem inPaths_reacts (reacts : Reacts c sh f r) (i : Nat) (entered : inPaths i f ≤ sh.allPathsDoneGroup i) :
    r.shared.allPathsDoneGroup i + inPaths i f = sh.allPathsDoneGroup i + weigh (inPaths i) r.frames := by
  cases reacts with
  | launch j paths =>
    by_cases own : j = i
    · simp [inPaths,Shared.enterPaths,own]
    · simp [inPaths,Shared.enterPaths,own,Function.update_of_ne (Ne.symm own)]
  | processPresentPath j =>
    by_cases own : j = i
    · simp [inPaths,Shared.enterPaths,own]
    · simp [inPaths,Shared.enterPaths,own,Function.update_of_ne (Ne.symm own)]
  | runAsync j | pathBlockEnds j =>
    by_cases own : j = i
    · subst j
      simp only [inPaths,if_true] at entered
      simp [inPaths,Shared.leavePaths,Nat.sub_add_cancel entered]
    · simp [inPaths,Shared.leavePaths,own,Function.update_of_ne (Ne.symm own)]
  | leave inBlock => cases inBlock <;> simp [inPaths,Shared.leaveLoop]
  | _ => simp [inPaths,Shared.enterLoop,Shared.leaveLoop]

theorem main_reacts (reacts : Reacts c sh f r) (once : main f + sh.returned.toNat ≤ 1) :
    weigh main r.frames + r.shared.returned.toNat = main f + sh.returned.toNat := by
  cases reacts with
  | wait empty =>
    have unset : sh.returned.toNat = 0 := by
      simp only [main] at once
      omega
    simp [main,unset]
  | leave inBlock => cases inBlock <;> simp [main,Shared.leaveLoop]
  | _ => simp [main,Shared.enterLoop,Shared.leaveLoop,Shared.enterPaths,Shared.leavePaths]

end Steps

structure Contexts (c : Config) (sh : Shared) (bag : Multiset Frame) : Prop where
  place : ∀ i, weigh (control i) bag + sh.refused.count i = c.contexts.count i
  loop : sh.eventLoopGroup = weigh inLoop bag
  paths : ∀ i, sh.allPathsDoneGroup i = weigh (inPaths i) bag
  main : weigh main bag + sh.returned.toNat = 1
  empty : sh.returned = true → sh.eventLoopGroup = 0

section Contexts
variable {c : Config} {sh : Shared} {f : Frame} {r : Reaction Shared Frame} {bag rest : Multiset Frame}

/-- Once the loop has returned no one enters its group. -/
theorem empty_reacts (reacts : Reacts c sh f r) (outside : inLoop f = 0) (other : main f = 0)
    (empty : sh.eventLoopGroup = 0) : r.shared.eventLoopGroup = 0 := by
  cases reacts with
  | processAll i is => simp [DispatchEventLoop.main] at other
  | process i | filter i inBlock => simp [inLoop] at outside
  | leave inBlock | blockEnds => simp [inLoop] at outside
  | _ => exact empty

theorem Contexts.next (contexts : Contexts c sh (f ::ₘ rest)) (reacts : Reacts c sh f r) :
    Contexts c r.shared (r.frames + rest) := by
  obtain ⟨place,loop,paths,main,empty⟩ := contexts
  simp only [weigh_cons] at place loop paths main
  constructor
  · intro i
    have moved := control_reacts reacts i
    have before := place i
    rw [weigh_add]
    omega
  · have moved := inLoop_reacts reacts (by omega)
    rw [weigh_add]
    omega
  · intro i
    have before := paths i
    have moved := inPaths_reacts reacts i (by omega)
    rw [weigh_add]
    omega
  · have moved := main_reacts reacts (by omega)
    rw [weigh_add]
    omega
  · intro returned
    cases before : sh.returned with
    | false =>
      cases reacts with
      | wait none => exact none
      | leave inBlock => simp [Shared.leaveLoop,before] at returned
      | _ => simp [Shared.enterLoop,Shared.leaveLoop,Shared.enterPaths,Shared.leavePaths,before] at returned
    | true =>
      have none := empty before
      simp only [before,Bool.toNat_true] at main
      exact empty_reacts reacts (by omega) (by omega) none

theorem Contexts.refused_lt (contexts : Contexts c sh bag) {i : Nat} (member : f ∈ bag)
    (controls : 0 < control i f) : sh.refused.length < c.contexts.length := by
  have inside : List.Subperm (i :: sh.refused) c.contexts := by
    rw [List.subperm_iff_count]
    intro j
    have place := contexts.place j
    rw [List.count_cons]
    by_cases own : i = j
    · subst j
      have here := weigh_pos member controls
      simp only [beq_self_eq_true,if_true]
      omega
    · simp only [beq_iff_eq,own,if_false]
      omega
  exact inside.length_le

end Contexts

def Shared.total (sh : Shared) : Nat :=
  sh.accepted.length + sh.refused.length

/-- What a call of `setEventInfo` has read and written, if no other one overlaps with it. -/
def Asks (sh : Shared) : Frame → Prop
  | .increment i => sh.index i = sh.total ∧ sh.seenEvents = sh.total
  | .store i n => sh.index i = sh.total ∧ sh.seenEvents = sh.total ∧ n = sh.total + 1
  | .compare i n => sh.index i = sh.total ∧ sh.seenEvents = sh.total + 1 ∧ n = sh.total + 1
  | _ => True

def asking (bag : Multiset Frame) : Nat :=
  weigh (fun f => f.asking.toNat) bag

structure Counted (c : Config) (sh : Shared) (bag : Multiset Frame) : Prop where
  one : asking bag ≤ 1
  frames : ∀ f ∈ bag, Asks sh f
  idle : asking bag = 0 → sh.seenEvents = sh.total
  indices : sh.accepted = List.range (min sh.total c.nEvents)

section Counted
variable {c : Config} {sh : Shared} {f : Frame} {r : Reaction Shared Frame} {rest : Multiset Frame}

theorem asks_other {f : Frame} (silent : f.asking = false) (sh : Shared) : Asks sh f := by
  cases f with
  | increment i | store i n | compare i n => cases silent
  | _ => trivial

theorem not_asking {bag : Multiset Frame} (none : asking bag = 0) {f : Frame} (member : f ∈ bag) :
    f.asking = false := by
  have light := weigh_eq_zero none member
  exact Bool.toNat_eq_zero.mp light

theorem Counted.plain (counted : Counted c sh (f ::ₘ rest)) (before : f.asking = false)
    (after : ∀ g ∈ r.frames, g.asking = false) (seen : r.shared.seenEvents = sh.seenEvents)
    (index : r.shared.index = sh.index) (accepted : r.shared.accepted = sh.accepted)
    (refused : r.shared.refused = sh.refused) : Counted c r.shared (r.frames + rest) := by
  have total : r.shared.total = sh.total := by rw [Shared.total,accepted,refused]; rfl
  have same : asking (r.frames + rest) = asking (f ::ₘ rest) := by
    have light : weigh (fun f => f.asking.toNat) r.frames = 0 := weigh_light fun g member => by
      rw [after g member]
      rfl
    rw [asking,asking,weigh_add,weigh_cons,light,before]
    rfl
  constructor
  · rw [same]
    exact counted.one
  · intro g member
    rcases Multiset.mem_add.mp member with new | old
    · exact asks_other (after g new) _
    · have asks := counted.frames g (Multiset.mem_cons_of_mem old)
      cases g with
      | increment i | store i n | compare i n => simpa only [Asks,total,seen,index] using asks
      | _ => trivial
  · rw [same,total,seen]
    exact counted.idle
  · rw [total,accepted]
    exact counted.indices

/-- The one call of `setEventInfo` that is not over makes an access. -/
theorem Counted.alone (counted : Counted c sh (f ::ₘ rest)) (before : f.asking = true) :
    asking rest = 0 ∧ Asks sh f := by
  have one := counted.one
  rw [asking,weigh_cons,before,Bool.toNat_true] at one
  have others : asking rest ≤ 0 := Nat.le_of_add_le_add_left one
  exact ⟨Nat.le_zero.mp others,counted.frames f (Multiset.mem_cons_self f rest)⟩

theorem asking_one (g : Frame) (rest : Multiset Frame) (none : asking rest = 0) :
    asking (↑[g] + rest) = g.asking.toNat := by
  rw [asking] at none
  rw [asking,weigh_one,none,Nat.add_zero]

/-- The frame that acts is replaced by `g` and no other one asks. -/
theorem counted_one {sh : Shared} {g : Frame} (none : asking rest = 0) (asks : Asks sh g)
    (idle : g.asking = false → sh.seenEvents = sh.total)
    (indices : sh.accepted = List.range (min sh.total c.nEvents)) : Counted c sh (↑[g] + rest) := by
  constructor
  · rw [asking_one g rest none]
    exact Bool.toNat_le g.asking
  · intro h member
    rcases Multiset.mem_add.mp member with new | old
    · obtain rfl : h = g := by simpa using new
      exact asks
    · exact asks_other (not_asking none old) sh
  · rw [asking_one g rest none]
    exact fun silent => idle (Bool.toNat_eq_zero.mp silent)
  · exact indices

theorem Counted.accepted_le {bag : Multiset Frame} (counted : Counted c sh bag) :
    sh.accepted.length ≤ c.nEvents := by
  rw [counted.indices,List.length_range]
  exact min_le_right _ _

theorem compared_eq (c : Config) {sh : Shared} {n : Nat} (same : sh.seenEvents = n) : compared c sh n = n := by
  rw [compared]
  split
  · exact same
  · rfl

theorem Counted.accepts {i n : Nat} (counted : Counted c sh (.compare i n ::ₘ rest))
    (more : compared c sh n ≤ c.nEvents) : sh.total < c.nEvents := by
  obtain ⟨_,_,seen,written⟩ := counted.alone rfl
  rw [compared_eq c (seen.trans written.symm)] at more
  omega

theorem Counted.next (counted : Counted c sh (f ::ₘ rest)) (contexts : Contexts c sh (f ::ₘ rest))
    (bound : c.nEvents + c.contexts.length < sizeBound) (reacts : Reacts c sh f r)
    (serial : ∀ i, f = .getAndProcess i → asking (f ::ₘ rest) = 0) : Counted c r.shared (r.frames + rest) := by
  have here : f ∈ f ::ₘ rest := Multiset.mem_cons_self f rest
  have indices := counted.indices
  cases reacts with
  | getAndProcess i =>
    have none := serial i rfl
    have seen := counted.idle none
    have others : asking rest = 0 := by simpa [asking,Frame.asking] using none
    refine counted_one others ⟨?_,seen⟩ (by simp [Frame.asking]) indices
    exact (Function.update_self i sh.seenEvents sh.index).trans seen
  | increment i =>
    obtain ⟨others,index,seen⟩ := counted.alone rfl
    have accepted := counted.accepted_le
    have refused := contexts.refused_lt (i := i) here (by simp [control])
    have small : sh.seenEvents + 1 < sizeBound := by
      rw [seen,Shared.total]
      omega
    refine counted_one others ⟨index,seen,?_⟩ (by simp [Frame.asking]) indices
    rw [Nat.mod_eq_of_lt small,seen]
  | store i n =>
    obtain ⟨others,index,_,written⟩ := counted.alone rfl
    exact counted_one others ⟨index,written,written⟩ (by simp [Frame.asking]) indices
  | accept i n more =>
    obtain ⟨others,index,seen,written⟩ := counted.alone rfl
    have left := counted.accepts more
    refine counted_one others trivial (fun _ => ?_) ?_
    · simp only [Shared.total,List.length_append,List.length_singleton] at seen ⊢
      omega
    · have total : Shared.total {sh with accepted := sh.accepted ++ [sh.index i]} = sh.total + 1 := by
        simp only [Shared.total,List.length_append,List.length_singleton]
        omega
      rw [total,min_eq_left left,List.range_succ,index]
      rw [min_eq_left left.le] at indices
      rw [indices]
  | refuse i n none =>
    obtain ⟨others,index,seen,written⟩ := counted.alone rfl
    rw [compared_eq c (seen.trans written.symm)] at none
    have total : Shared.total {sh with refused := sh.refused ++ [i]} = sh.total + 1 := by
      simp only [Shared.total,List.length_append,List.length_singleton]
      omega
    refine counted_one others trivial (fun _ => ?_) ?_
    · rw [total]
      exact seen
    · rw [total,min_eq_right (by omega)]
      rwa [min_eq_right (by omega)] at indices
  | leave inBlock =>
    refine counted.plain rfl ?_ rfl rfl rfl rfl
    cases inBlock <;> simp [Frame.asking]
  | _ => exact counted.plain rfl (by simp [Frame.asking]) rfl rfl rfl rfl

end Counted

section Progress
variable {c : Config} {s t : State}

structure Loop (c : Config) (s : State) : Prop where
  single : s.Single
  contexts : Contexts c s.shared s.bag
  counted : Counted c s.shared s.bag

theorem initial_loop (c : Config) : Loop c (initial c) := by
  have bag : (initial c).bag = {.processAll c.contexts} := rfl
  constructor
  · simp [initial,Pool.Single]
  · rw [bag]
    constructor <;> simp [initial,control,inLoop,inPaths,main]
  · rw [bag]
    constructor
    · simp [asking,Frame.asking]
    · simp [Asks]
    · simp [initial,Shared.total]
    · simp [initial,Shared.total]

theorem Loop.preserved {k : Nat} (loop : Loop c s) (bound : c.nEvents + c.contexts.length < sizeBound)
    (serial : Serial s k) (taken : next c s k = some t) : Loop c t := by
  obtain ⟨single,contexts,counted⟩ := loop
  constructor
  · refine single.step taken fun f r reacted => ?_
    cases react_reacts reacted with
    | leave inBlock => cases inBlock <;> simp
    | _ => simp
  all_goals
    obtain ⟨f,r,rest,reacted,shared,before,after,top⟩ := Pool.step_bag taken
    have reacts := react_reacts reacted
    rw [before] at contexts counted
    rw [shared,after]
  · exact contexts.next reacts
  · refine counted.next contexts bound reacts fun i equal => ?_
    have silent := serial i (by rw [top,equal])
    rw [← before]
    exact weigh_light fun g member => by
      rw [silent g member]
      rfl

theorem Loop.acts (loop : Loop c s) {f : Frame} (member : f ∈ s.bag) {r : Reaction Shared Frame}
    (reacted : react c s.shared f () = some r)
    (serial : ∀ i, f = .getAndProcess i → ∀ g ∈ s.bag, g.asking = false) : ∃ t, Step (next c) Serial s t := by
  obtain ⟨k,t,top,taken⟩ := loop.single.acts member reacted
  refine ⟨t,k,fun i begins => serial i ?_,taken⟩
  rw [top] at begins
  exact Option.some.inj begins

/-- Only the two waits can be held up. -/
theorem react_none {sh : Shared} {f : Frame} (stuck : react c sh f () = none) :
    f = .wait ∧ 0 < sh.eventLoopGroup ∨ ∃ i, f = .scheduleCallback i ∧ 0 < sh.allPathsDoneGroup i := by
  cases f with
  | wait =>
    refine Or.inl ⟨rfl,Nat.pos_of_ne_zero fun empty => ?_⟩
    simp [react,empty] at stuck
  | scheduleCallback i =>
    refine Or.inr ⟨i,rfl,Nat.pos_of_ne_zero fun empty => ?_⟩
    simp [react,empty] at stuck
  | processAll contexts => cases contexts <;> simp [react] at stuck
  | compare i n =>
    simp only [react] at stuck
    split at stuck <;> cases stuck
  | launch i paths =>
    cases paths with
    | zero =>
      simp only [react] at stuck
      split at stuck <;> cases stuck
    | succ paths => simp [react] at stuck
  | _ => simp [react] at stuck

/-- Until `processAll` has returned, some frame can act. -/
theorem Loop.busy (loop : Loop c s) (unreturned : s.shared.returned = false) :
    ∃ f ∈ s.bag, ∃ r, react c s.shared f () = some r := by
  by_contra idle
  have stuck (f : Frame) (member : f ∈ s.bag) : react c s.shared f () = none := by
    rw [Option.eq_none_iff_forall_ne_some]
    exact fun r reacted => idle ⟨f,member,r,reacted⟩
  have waits : 0 < weigh main s.bag := by
    have once := loop.contexts.main
    rw [unreturned,Bool.toNat_false] at once
    omega
  obtain ⟨f,member,waiting⟩ := (weigh_pos_iff main s.bag).mp waits
  rcases react_none (stuck f member) with ⟨rfl,entered⟩ | ⟨i,rfl,_⟩
  · rw [loop.contexts.loop] at entered
    obtain ⟨g,member,inside⟩ := (weigh_pos_iff inLoop s.bag).mp entered
    rcases react_none (stuck g member) with ⟨rfl,_⟩ | ⟨i,rfl,entered⟩
    · simp [inLoop] at inside
    · rw [loop.contexts.paths] at entered
      obtain ⟨h,member,inside⟩ := (weigh_pos_iff (inPaths i) s.bag).mp entered
      rcases react_none (stuck h member) with ⟨rfl,_⟩ | ⟨j,rfl,_⟩ <;> simp [inPaths] at inside
  · simp [main] at waiting

theorem Loop.moves (loop : Loop c s) (unreturned : s.shared.returned = false) :
    ∃ t, Step (next c) Serial s t := by
  by_cases asks : ∃ f ∈ s.bag, f.asking = true
  · obtain ⟨f,member,asks⟩ := asks
    cases reacted : react c s.shared f () with
    | none => rcases react_none reacted with ⟨rfl,_⟩ | ⟨i,rfl,_⟩ <;> cases asks
    | some r =>
      refine loop.acts member reacted ?_
      rintro i rfl
      cases asks
  · obtain ⟨f,member,r,reacted⟩ := loop.busy unreturned
    refine loop.acts member reacted fun i _ g inside => ?_
    by_contra asking
    exact asks ⟨g,inside,by simpa using asking⟩

def potential (c : Config) (s : State) : Nat :=
  weigh (effort c) s.bag + (c.nEvents - s.shared.accepted.length) * (4 * c.paths + 20)

theorem effort_reacts {sh : Shared} {f : Frame} {r : Reaction Shared Frame} (reacts : Reacts c sh f r) :
    r.shared.accepted = sh.accepted ∧ weigh (effort c) r.frames < effort c f ∨
    ∃ i n, f = .compare i n ∧ compared c sh n ≤ c.nEvents ∧ r.shared.accepted = sh.accepted ++ [sh.index i] ∧
      weigh (effort c) r.frames = 4 * c.paths + 15 := by
  cases reacts with
  | accept i n more => exact Or.inr ⟨i,n,rfl,more,rfl,by simp [effort]⟩
  | leave inBlock => exact Or.inl ⟨rfl,by cases inBlock <;> simp [effort]⟩
  | processAll i is =>
    refine Or.inl ⟨rfl,?_⟩
    simp [effort]
    omega
  | launch i paths =>
    refine Or.inl ⟨rfl,?_⟩
    simp [effort]
    omega
  | _ => exact Or.inl ⟨rfl,by simp [effort]⟩

theorem Loop.potential_lt {k : Nat} (loop : Loop c s) (taken : next c s k = some t) :
    potential c t < potential c s := by
  obtain ⟨f,r,rest,reacted,shared,before,after,_⟩ := Pool.step_bag taken
  have counted := loop.counted
  rw [before] at counted
  rw [potential,potential,shared,after,before,weigh_add,weigh_cons]
  rcases effort_reacts (react_reacts reacted) with ⟨same,less⟩ | ⟨i,n,rfl,more,grown,frames⟩
  · rw [same]
    omega
  · have left : s.shared.accepted.length < c.nEvents := by
      have total := counted.accepts more
      rw [Shared.total] at total
      omega
    have one : c.nEvents - s.shared.accepted.length = c.nEvents - (s.shared.accepted.length + 1) + 1 := by
      omega
    rw [frames,grown,List.length_append,List.length_singleton,one,Nat.succ_mul (c.nEvents - _)]
    simp only [effort]
    omega

theorem Loop.ends (loop : Loop c s) (bound : c.nEvents + c.contexts.length < sizeBound) :
    Acc (fun t u => Step (next c) Serial u t) s := by
  induction measured : potential c s using Nat.strong_induction_on generalizing s with
  | _ n ih =>
    refine Acc.intro s ?_
    rintro t ⟨k,serial,taken⟩
    have less := loop.potential_lt taken
    rw [measured] at less
    exact ih _ less (loop.preserved bound serial taken) rfl

end Progress

/-- What the event loop owes to a source of `nEvents` events: the events are accepted in order and each
once, all of them have been when `processAll` returns, and it does return. -/
structure Delivers (c : Config) (s : State) : Prop where
  counted : ∃ n ≤ c.nEvents, s.shared.accepted = List.range n
  all : s.shared.returned = true → s.shared.accepted = List.range c.nEvents
  moves : s.shared.returned = false → ∃ t, Step (next c) Serial s t
  ends : Acc (fun t u => Step (next c) Serial u t) s

theorem contexts_nonempty (c : Config) : 0 < c.contexts.count 0 := by
  rw [List.count_pos_iff]
  exact List.mem_append_right _ List.mem_cons_self

theorem Loop.all {c : Config} {s : State} (loop : Loop c s) (returned : s.shared.returned = true) :
    s.shared.accepted = List.range c.nEvents := by
  obtain ⟨_,contexts,counted⟩ := loop
  have empty := contexts.empty returned
  rw [contexts.loop] at empty
  have gone : weigh main s.bag = 0 := by
    have once := contexts.main
    rw [returned,Bool.toNat_true] at once
    omega
  have nowhere : weigh (control 0) s.bag = 0 := weigh_light fun f member => by
    have outside := weigh_eq_zero empty member
    have other := weigh_eq_zero gone member
    cases f with
    | processAll contexts => simp [main] at other
    | getAndProcess i | increment i | store i n | compare i n | process i | scheduleCallback i
    | launch i paths | filter i inBlock => simp [inLoop] at outside
    | _ => rfl
  have place := contexts.place 0
  have positive := contexts_nonempty c
  have refused : 0 < s.shared.refused.length := by
    have counts := List.count_le_length (a := 0) (l := s.shared.refused)
    omega
  have length := congrArg List.length counted.indices
  rw [List.length_range,Shared.total] at length
  have full : min s.shared.total c.nEvents = c.nEvents := by
    rw [Shared.total]
    omega
  rw [counted.indices,full]

/-- In every run in which no two calls of `setEventInfo` overlap. -/
theorem events_delivered (c : Config) (bound : c.nEvents + c.contexts.length < sizeBound) (s : State)
    (run : Reaches (next c) Serial (initial c) s) : Delivers c s := by
  have loop : Loop c s := run.invariant (fun _ _ _ loop serial taken => loop.preserved bound serial taken)
    (initial_loop c)
  refine ⟨⟨min s.shared.total c.nEvents,min_le_right _ _,loop.counted.indices⟩,loop.all,loop.moves,?_⟩
  exact loop.ends bound

def Frame.begins : Frame → Bool
  | .getAndProcess _ => true
  | _ => false

instance (s : State) (k : Nat) : Decidable (Serial s k) := by
  refine decidable_of_iff ((s.top k).any Frame.begins = true → ∀ f ∈ s.threads.flatten, f.asking = false) ?_
  constructor
  · intro serial i top
    exact serial (by rw [top]; rfl)
  · intro serial begins
    cases top : s.top k with
    | none => simp [top] at begins
    | some f =>
      rw [top] at begins
      cases f with
      | getAndProcess i => exact serial i top
      | _ => cases begins

/-- Two contexts and one event: the first context asks for both, and then the other one is refused. -/
def oneEvent : List Nat :=
  [0,0,0,1,1,1,1,1,1,1,1,2,2,2,2,2,3,3,5,4,4,4,6,6,6,6,6,0]

theorem events_delivered_oneEvent : ∃ s, execute (next ⟨2,1,1,false⟩) (initial ⟨2,1,1,false⟩) oneEvent = some s ∧
    s.shared.returned = true ∧ s.shared.accepted = [0] ∧ Delivers ⟨2,1,1,false⟩ s := by
  have ends : (execute (next ⟨2,1,1,false⟩) (initial ⟨2,1,1,false⟩) oneEvent).map
      (fun s => (s.shared.returned,s.shared.accepted)) = some (true,[0]) := by decide +kernel
  obtain ⟨s,ran,records⟩ := Option.map_eq_some_iff.mp ends
  obtain ⟨returned,accepted⟩ := Prod.mk.inj records
  refine ⟨s,ran,returned,accepted,events_delivered ⟨2,1,1,false⟩ (by decide) s ?_⟩
  exact execute_reaches oneEvent (by decide +kernel) ran

/-- Two contexts and two events: both contexts read the counter before one of them writes it. -/
def overlap : List Nat :=
  [0,0,1,2,1,1,1,2,2,2,0,1,1,1,1,2,2,2,2,3,3,5,5,7,4,4,4,8,6,6,6,9,9,9,9,9,10,10,10,10,10,0]

theorem overlap_repeats : ∃ s, Reachable (next ⟨2,2,1,false⟩) (initial ⟨2,2,1,false⟩) s ∧
    s.shared.returned = true ∧ s.shared.accepted = [0,0] ∧ ¬s.shared.accepted.Perm (List.range 2) := by
  have ends : (execute (next ⟨2,2,1,false⟩) (initial ⟨2,2,1,false⟩) overlap).map
      (fun s => (s.shared.returned,s.shared.accepted)) = some (true,[0,0]) := by decide +kernel
  obtain ⟨s,ran,records⟩ := Option.map_eq_some_iff.mp ends
  obtain ⟨returned,accepted⟩ := Prod.mk.inj records
  refine ⟨s,execute_reachable overlap ran,returned,accepted,?_⟩
  rw [accepted]
  decide

end ToyMtFramework.DispatchEventLoop
