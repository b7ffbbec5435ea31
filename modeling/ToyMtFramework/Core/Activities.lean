import ToyMtFramework.Core.Transition
import Mathlib.Algebra.BigOperators.Group.Multiset.Basic
import Mathlib.Algebra.GroupWithZero.Nat
import Mathlib.Algebra.Order.BigOperators.Group.Multiset

/-! Threads of activity that share a state: each is a stack of frames, of which the top one
is next to act. A frame acts on the shared state, is replaced by the frames it
calls and may spawn activities of its own. Invariants are stated on the shared
state and the bag of all frames, whatever thread they are on. -/
namespace ToyMtFramework.Activities

variable {σ φ χ : Type*}

structure Reaction (σ φ : Type*) where
  shared : σ
  calls : List φ
  spawned : List φ

def Reaction.frames (r : Reaction σ φ) : Multiset φ :=
  ↑(r.calls ++ r.spawned)

@[simp] theorem Reaction.frames_mk (s : σ) (calls spawned : List φ) :
    (Reaction.mk s calls spawned).frames = ↑(calls ++ spawned) := rfl

structure Pool (σ φ : Type*) where
  shared : σ
  threads : List (List φ)

def Pool.step (react : σ → φ → χ → Option (Reaction σ φ)) (s : Pool σ φ) (k : Nat) (choice : χ) :
    Option (Pool σ φ) :=
  match s.threads[k]? with
  | some (f :: rest) => (react s.shared f choice).map fun r =>
    ⟨r.shared,s.threads.set k (r.calls ++ rest) ++ r.spawned.map fun g => [g]⟩
  | _ => none

def Pool.top (s : Pool σ φ) (k : Nat) : Option φ :=
  s.threads[k]?.bind List.head?

def Pool.bag (s : Pool σ φ) : Multiset φ :=
  ↑s.threads.flatten

theorem Pool.top_mem {s : Pool σ φ} {k : Nat} {f : φ} (top : s.top k = some f) : f ∈ s.bag := by
  obtain ⟨stack,thread,first⟩ := Option.bind_eq_some_iff.mp top
  exact List.mem_flatten_of_mem (List.mem_of_getElem? thread) (List.mem_of_mem_head? first)

private theorem flatten_singletons (frames : List φ) :
    (frames.map fun f => [f]).flatten = frames := by
  induction frames with
  | nil => rfl
  | cons f frames ih => simp [ih]

private theorem flatten_set (threads : List (List φ)) (k : Nat) (f : φ) (stack : List φ)
    (top : threads[k]? = some (f :: stack)) : ∃ rest : Multiset φ,
      (↑threads.flatten : Multiset φ) = f ::ₘ rest ∧
      ∀ calls : List φ, (↑(threads.set k (calls ++ stack)).flatten : Multiset φ) = ↑calls + rest := by
  induction threads generalizing k with
  | nil => simp at top
  | cons first threads ih =>
    cases k with
    | zero =>
      obtain rfl : first = f :: stack := by simpa using top
      refine ⟨↑stack + ↑threads.flatten,?_,fun calls => ?_⟩
      · simp
      · simp
    | succ k =>
      obtain ⟨rest,before,after⟩ := ih k (by simpa using top)
      refine ⟨↑first + rest,?_,fun calls => ?_⟩
      · rw [List.flatten_cons,← Multiset.coe_add,before,Multiset.add_cons]
      · rw [List.set_cons_succ,List.flatten_cons,← Multiset.coe_add,after,add_left_comm]

theorem Pool.step_threads {react : σ → φ → χ → Option (Reaction σ φ)} {s t : Pool σ φ} {k : Nat}
    {choice : χ} (taken : s.step react k choice = some t) : ∃ f stack r, s.threads[k]? = some (f :: stack) ∧
      s.top k = some f ∧ react s.shared f choice = some r ∧
      t = ⟨r.shared,s.threads.set k (r.calls ++ stack) ++ r.spawned.map fun g => [g]⟩ := by
  unfold Pool.step at taken
  split at taken
  · rename_i f stack top
    obtain ⟨r,reacts,rfl⟩ := Option.map_eq_some_iff.mp taken
    exact ⟨f,stack,r,top,by simp [Pool.top,top],reacts,rfl⟩
  · simp at taken

/-- A step takes one frame out of the bag and puts in what it calls and spawns. -/
theorem Pool.step_bag {react : σ → φ → χ → Option (Reaction σ φ)} {s t : Pool σ φ} {k : Nat}
    {choice : χ} (taken : s.step react k choice = some t) : ∃ f r, ∃ rest : Multiset φ,
      react s.shared f choice = some r ∧ t.shared = r.shared ∧ s.bag = f ::ₘ rest ∧
        t.bag = r.frames + rest ∧ s.top k = some f := by
  obtain ⟨f,stack,r,thread,top,reacted,rfl⟩ := Pool.step_threads taken
  obtain ⟨rest,before,after⟩ := flatten_set s.threads k f stack thread
  refine ⟨f,r,rest,reacted,rfl,before,?_,top⟩
  rw [Pool.bag,List.flatten_append,← Multiset.coe_add,after,flatten_singletons,Reaction.frames,
    ← Multiset.coe_add,add_right_comm]

def Pool.map {ψ : Type*} (view : φ → ψ) (s : Pool σ φ) : Pool σ ψ :=
  ⟨s.shared,s.threads.map (List.map view)⟩

theorem Pool.map_bag {ψ : Type*} (view : φ → ψ) (s : Pool σ φ) : (s.map view).bag = s.bag.map view := by
  rw [Pool.bag,Pool.map,← List.map_flatten]
  rfl

theorem Pool.map_top {ψ : Type*} (view : φ → ψ) (s : Pool σ φ) (k : Nat) :
    (s.map view).top k = (s.top k).map view := by
  rw [Pool.top,Pool.map,List.getElem?_map,Pool.top]
  cases s.threads[k]? with
  | none => rfl
  | some stack => exact List.head?_map

/-- A step whose reaction is one of the other frames is a step with these. -/
theorem Pool.map_step {ψ ξ : Type*} {react : σ → φ → χ → Option (Reaction σ φ)}
    {other : σ → ψ → ξ → Option (Reaction σ ψ)} {view : φ → ψ} {s t : Pool σ φ} {k : Nat} {choice : χ}
    {chosen : ξ} (taken : s.step react k choice = some t)
    (reacts : ∀ f r, s.top k = some f → react s.shared f choice = some r →
      other s.shared (view f) chosen = some ⟨r.shared,r.calls.map view,r.spawned.map view⟩) :
    (s.map view).step other k chosen = some (t.map view) := by
  obtain ⟨f,stack,r,thread,top,reacted,rfl⟩ := Pool.step_threads taken
  have place : (s.map view).threads[k]? = some (view f :: stack.map view) := by
    rw [Pool.map,List.getElem?_map,thread]
    rfl
  unfold Pool.step
  simp only [place]
  rw [Pool.map,reacts f r top reacted]
  simp [Pool.map,List.map_set,Function.comp_def]

/-- A step that replaces the frame by one with the same view. -/
theorem Pool.map_still {ψ : Type*} {react : σ → φ → χ → Option (Reaction σ φ)} {view : φ → ψ}
    {s t : Pool σ φ} {k : Nat} {choice : χ} (taken : s.step react k choice = some t)
    (still : ∀ f r, s.top k = some f → react s.shared f choice = some r →
      r.shared = s.shared ∧ r.calls.map view = [view f] ∧ r.spawned = []) : t.map view = s.map view := by
  obtain ⟨f,stack,r,thread,top,reacted,rfl⟩ := Pool.step_threads taken
  obtain ⟨shared,calls,none⟩ := still f r top reacted
  have place : (s.threads.map (List.map view))[k]? = some (view f :: stack.map view) := by
    rw [List.getElem?_map,thread]
    rfl
  obtain ⟨inside,equal⟩ := List.getElem?_eq_some_iff.mp place
  simp only [Pool.map,shared,none,List.map_nil,List.append_nil,List.map_set,List.map_append,calls,
    List.singleton_append,← equal,List.set_getElem_self]

def Pool.Single (s : Pool σ φ) : Prop :=
  ∀ stack ∈ s.threads, stack.length ≤ 1

theorem Pool.Single.step {react : σ → φ → χ → Option (Reaction σ φ)} {s t : Pool σ φ} {k : Nat} {choice : χ}
    (single : s.Single) (taken : s.step react k choice = some t)
    (short : ∀ f r, react s.shared f choice = some r → r.calls.length ≤ 1) : t.Single := by
  obtain ⟨f,stack,r,thread,_,reacted,rfl⟩ := Pool.step_threads taken
  have alone := single _ (List.mem_of_getElem? thread)
  obtain rfl : stack = [] := by simpa using alone
  intro other member
  rcases List.mem_append.mp member with old | new
  · rcases List.mem_or_eq_of_mem_set old with old | rfl
    · exact single other old
    · rw [List.append_nil]
      exact short f r reacted
  · obtain ⟨g,_,rfl⟩ := List.mem_map.mp new
    exact Nat.le_refl 1

/-- Then every frame is next to act on its thread. -/
theorem Pool.Single.acts {react : σ → φ → χ → Option (Reaction σ φ)} {s : Pool σ φ} {f : φ} {choice : χ}
    {r : Reaction σ φ} (single : s.Single) (member : f ∈ s.bag) (reacted : react s.shared f choice = some r) :
    ∃ k t, s.top k = some f ∧ s.step react k choice = some t := by
  obtain ⟨stack,listed,inside⟩ := List.mem_flatten.mp (Multiset.mem_coe.mp member)
  obtain ⟨k,below,place⟩ := List.getElem_of_mem listed
  have short := single stack listed
  obtain rfl : stack = [f] := by
    cases stack with
    | nil => cases inside
    | cons g stack =>
      obtain rfl : stack = [] := by simpa using short
      rw [List.mem_singleton.mp inside]
  have thread : s.threads[k]? = some [f] := by rw [List.getElem?_eq_getElem below,place]
  refine ⟨k,⟨r.shared,s.threads.set k (r.calls ++ []) ++ r.spawned.map fun g => [g]⟩,by simp [Pool.top,thread],?_⟩
  simp only [Pool.step,thread,reacted,Option.map_some]

/-- Such a pool can let any frame act that reacts. -/
theorem Pool.Single.takes {react : σ → φ → χ → Option (Reaction σ φ)} {s : Pool σ φ} {f : φ} {choice : χ}
    {r : Reaction σ φ} {rest : Multiset φ} (single : s.Single) (before : s.bag = f ::ₘ rest)
    (reacted : react s.shared f choice = some r)
    (short : ∀ f r, react s.shared f choice = some r → r.calls.length ≤ 1) :
    ∃ k t, s.step react k choice = some t ∧ t.Single ∧ t.shared = r.shared ∧ t.bag = r.frames + rest := by
  have member : f ∈ s.bag := by
    rw [before]
    exact Multiset.mem_cons_self f rest
  obtain ⟨k,t,top,taken⟩ := single.acts member reacted
  refine ⟨k,t,taken,single.step taken short,?_⟩
  obtain ⟨g,_,others,reacted',shared,bag,after,top'⟩ := Pool.step_bag taken
  obtain rfl := Option.some.inj (top.symm.trans top')
  obtain rfl := Option.some.inj (reacted.symm.trans reacted')
  rw [before] at bag
  rw [after,Multiset.cons_inj_right f |>.mp bag]
  exact ⟨shared,rfl⟩

theorem Pool.bag_spawns (s : Pool σ φ) (sh : σ) (frames : List φ) :
    (Pool.mk sh (s.threads ++ frames.map fun f => [f])).bag = ↑frames + s.bag := by
  rw [Pool.bag,List.flatten_append,← Multiset.coe_add,flatten_singletons,add_comm]
  rfl

theorem Pool.bag_spawn (s : Pool σ φ) (sh : σ) (f : φ) :
    (Pool.mk sh (s.threads ++ [[f]])).bag = f ::ₘ s.bag :=
  s.bag_spawns sh [f]

/-- What each reaction preserves, whatever else is in the bag, every step preserves. -/
theorem Pool.step_invariant {react : σ → φ → χ → Option (Reaction σ φ)}
    {I : σ → Multiset φ → Prop}
    (preserved : ∀ s f choice r (rest : Multiset φ), I s (f ::ₘ rest) → react s f choice = some r →
      I r.shared (r.frames + rest))
    {s t : Pool σ φ} {k : Nat} {choice : χ} (holds : I s.shared s.bag)
    (taken : s.step react k choice = some t) : I t.shared t.bag := by
  obtain ⟨f,r,rest,reacts,shared,before,after,_⟩ := Pool.step_bag taken
  rw [before] at holds
  rw [shared,after]
  exact preserved _ _ _ _ _ holds reacts

def weigh (weight : φ → Nat) (bag : Multiset φ) : Nat :=
  (bag.map weight).sum

section Weigh
variable (weight : φ → Nat)

@[simp] theorem weigh_zero : weigh weight 0 = 0 := rfl

@[simp] theorem weigh_singleton (f : φ) : weigh weight {f} = weight f := by
  simp [weigh]

@[simp] theorem weigh_cons (f : φ) (bag : Multiset φ) :
    weigh weight (f ::ₘ bag) = weight f + weigh weight bag := by
  simp [weigh]

@[simp] theorem weigh_add (first second : Multiset φ) :
    weigh weight (first + second) = weigh weight first + weigh weight second := by
  simp [weigh]

@[simp] theorem weigh_coe (frames : List φ) :
    weigh weight (↑frames : Multiset φ) = (frames.map weight).sum := by
  simp [weigh]

theorem weigh_nil (rest : Multiset φ) : weigh weight (↑([] : List φ) + rest) = weigh weight rest := by
  simp

theorem weigh_one (f : φ) (rest : Multiset φ) :
    weigh weight (↑[f] + rest) = weight f + weigh weight rest := by
  simp

theorem weigh_sum (other : φ → Nat) (bag : Multiset φ) :
    weigh (fun f => weight f + other f) bag = weigh weight bag + weigh other bag :=
  Multiset.sum_map_add

theorem weigh_map {ψ : Type*} (g : ψ → φ) (bag : Multiset ψ) :
    weigh weight (bag.map g) = weigh (fun f => weight (g f)) bag := by
  simp [weigh]

theorem weigh_pos_iff (bag : Multiset φ) : 0 < weigh weight bag ↔ ∃ f ∈ bag, 0 < weight f := by
  induction bag using Multiset.induction_on with
  | empty => simp
  | cons f bag ih =>
    rw [weigh_cons,Nat.add_pos_iff_pos_or_pos,ih]
    simp

end Weigh

theorem weigh_pos {weight : φ → Nat} {bag : Multiset φ} {f : φ} (member : f ∈ bag)
    (heavy : 0 < weight f) : 0 < weigh weight bag :=
  (weigh_pos_iff weight bag).mpr ⟨f,member,heavy⟩

theorem weigh_eq_zero {weight : φ → Nat} {bag : Multiset φ} (light : weigh weight bag = 0) {f : φ}
    (member : f ∈ bag) : weight f = 0 := by
  by_contra heavy
  have positive := weigh_pos member (Nat.pos_of_ne_zero heavy)
  omega

theorem weigh_light {weight : φ → Nat} {bag : Multiset φ} (light : ∀ f ∈ bag, weight f = 0) :
    weigh weight bag = 0 := by
  by_contra heavy
  obtain ⟨f,member,positive⟩ := (weigh_pos_iff weight bag).mp (Nat.pos_of_ne_zero heavy)
  rw [light f member] at positive
  exact Nat.lt_irrefl 0 positive

theorem weigh_le_of_mem {lighter heavier : φ → Nat} {bag : Multiset φ}
    (le : ∀ f ∈ bag, lighter f ≤ heavier f) : weigh lighter bag ≤ weigh heavier bag := by
  induction bag using Multiset.induction_on with
  | empty => rfl
  | cons f bag ih =>
    rw [weigh_cons,weigh_cons]
    exact Nat.add_le_add (le f (Multiset.mem_cons_self f bag)) (ih fun g member =>
      le g (Multiset.mem_cons_of_mem member))

theorem weigh_le {lighter heavier : φ → Nat} (le : ∀ f, lighter f ≤ heavier f) (bag : Multiset φ) :
    weigh lighter bag ≤ weigh heavier bag :=
  weigh_le_of_mem fun f _ => le f

end ToyMtFramework.Activities
