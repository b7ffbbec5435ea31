import ToyMtFramework.ScheduleRound

/-! What an event means for a job whose modules depend on nothing but the event and what
they get. Each product and each filter decision has one value, and a path reaches its
filters up to the first that rejects; both frameworks have to agree with this. -/
namespace ToyMtFramework.Schedule

variable {L D E : Type} [DecidableEq L] [DecidableEq D]

def Job.modules (job : Job L D E) : List (Module L D E) :=
  job.filters ++ job.producers

/-- Labels are distinct, what modules and paths name is registered, each producer has
one product, and bodies return and depend on nothing else. -/
structure Job.Plain (job : Job L D E) : Prop where
  acyclic : job.Acyclic
  distinct : (job.modules.map Module.label).Nodup
  resolved : ∀ m ∈ job.modules, ∀ g ∈ m.getters, (job.find g.1 g.2).isSome = true
  registered : ∀ path ∈ job.paths, ∀ label ∈ path, (job.findFilter label).isSome = true
  steady : ∀ m ∈ job.modules, ∀ seed index values,
    m.perform seed index values = m.perform 0 index values
  returns : ∀ m ∈ job.modules, ∀ seed index values, (m.perform seed index values).thrown = none
  single : ∀ m ∈ job.producers, ∃ product, m.products = [product] ∧
    ∀ seed index values, ∃ value, (m.perform seed index values).puts = [(product,value)]

def Job.DependsOn (job : Job L D E) : Wrapper L D → Wrapper L D → Prop :=
  Relation.ReflTransGen fun w v => v ∈ job.getters w

theorem Job.Acyclic.not_depends {job : Job L D E} (acyclic : job.Acyclic) {v w : Wrapper L D}
    (needed : v ∈ job.getters w) : ¬job.DependsOn v w := by
  intro depends
  have cycle : Relation.TransGen (fun w v => v ∈ job.getters w) w w :=
    Relation.TransGen.head' needed depends
  exact acyclic w (Relation.transGen_swap.mp cycle)

def produced : Wrapper L D → Outcome D E → Int
  | .filter _, _ => 0
  | .producer _ product, outcome => (outcome.puts.lookup product).getD 0

section Meaning
variable (job : Job L D E) (acyclic : job.Acyclic) (index : Nat)

noncomputable def Job.value : Wrapper L D → Int :=
  Acyclic.evaluate job.getters (fun w values => produced w (job.perform w 0 index values))
    acyclic.below

noncomputable def Job.outcome (w : Wrapper L D) : Outcome D E :=
  job.perform w 0 index ((job.getters w).map (job.value acyclic index))

theorem value_eq (w : Wrapper L D) :
    job.value acyclic index w = produced w (job.outcome acyclic index w) :=
  Acyclic.evaluate_eq _ _ _ w

/-- The filters of a path up to the first that rejects the event. -/
noncomputable def Job.reached : List L → List L
  | [] => []
  | label :: rest =>
    label :: if (job.outcome acyclic index (.filter label)).keep then Job.reached rest else []

/-- The filters that some path reaches and the producers they depend on. -/
def Job.Needed (w : Wrapper L D) : Prop :=
  ∃ path ∈ job.paths, ∃ label ∈ job.reached acyclic index path,
    job.DependsOn (.filter label) w

end Meaning

theorem mem_reached {job : Job L D E} {acyclic : job.Acyclic} {index : Nat} {path : List L}
    {label : L} : label ∈ job.reached acyclic index path ↔ ∃ i : Nat, path[i]? = some label ∧
      ∀ j < i, ∀ other, path[j]? = some other →
        (job.outcome acyclic index (.filter other)).keep = true := by
  induction path with
  | nil => simp [Job.reached]
  | cons first rest ih =>
    rw [Job.reached,List.mem_cons]
    constructor
    · rintro (rfl | member)
      · exact ⟨0,rfl,fun j before => absurd before (Nat.not_lt_zero j)⟩
      · split at member
        · rename_i kept
          obtain ⟨i,at_i,passed⟩ := ih.mp member
          refine ⟨i + 1,at_i,fun j before other at_j => ?_⟩
          cases j with
          | zero =>
            obtain rfl : first = other := by simpa using at_j
            exact kept
          | succ j => exact passed j (by omega) other at_j
        · simp at member
    · rintro ⟨i,at_i,passed⟩
      cases i with
      | zero => exact Or.inl (by simpa using at_i.symm)
      | succ i =>
        have kept := passed 0 (Nat.succ_pos i) first rfl
        rw [if_pos kept]
        exact Or.inr (ih.mpr ⟨i,at_i,fun j before other at_j =>
          passed (j + 1) (by omega) other at_j⟩)

theorem reached_subset {job : Job L D E} {acyclic : job.Acyclic} {index : Nat} {path : List L}
    {label : L} (member : label ∈ job.reached acyclic index path) : label ∈ path := by
  obtain ⟨i,at_i,_⟩ := mem_reached.mp member
  exact List.mem_of_getElem? at_i

section Plain
variable {job : Job L D E} (plain : job.Plain)
include plain

theorem Job.Plain.getter_known {v w : Wrapper L D} (needed : v ∈ job.getters w) :
    (job.module v).isSome = true := by
  obtain ⟨m,found,g,member,rfl⟩ := getters_known job needed
  exact plain.resolved m (module_listed job found) g member

/-- A label belongs to one module. -/
theorem Job.Plain.same {m n : Module L D E} (first : m ∈ job.modules) (second : n ∈ job.modules)
    (equal : m.label = n.label) : m = n :=
  List.inj_on_of_nodup_map plain.distinct first second equal

theorem Job.Plain.thrown (w : Wrapper L D) (seed index : Nat) (values : List Int) :
    (job.perform w seed index values).thrown = none := by
  unfold Job.perform
  split
  · rfl
  · exact plain.returns _ (module_listed job ‹_›) seed index values

theorem Job.Plain.perform_eq (w : Wrapper L D) (seed index : Nat) (values : List Int) :
    job.perform w seed index values = job.perform w 0 index values := by
  unfold Job.perform
  split
  · rfl
  · exact plain.steady _ (module_listed job ‹_›) seed index values

/-- A producer puts its product and no other. -/
theorem Job.Plain.puts {label : L} {product : D}
    (known : (job.module (.producer label product)).isSome = true) (seed index : Nat)
    (values : List Int) : (job.perform (.producer label product) seed index values).puts =
      [(product,produced (.producer label product)
        (job.perform (.producer label product) seed index values))] := by
  obtain ⟨m,found⟩ := Option.isSome_iff_exists.mp known
  have member : m ∈ job.producers := List.mem_of_find?_eq_some found
  have listed : m.label = label ∧ product ∈ m.products := by simpa using List.find?_some found
  obtain ⟨only,products,puts⟩ := plain.single m member
  obtain rfl : product = only := by simpa [products] using listed.2
  obtain ⟨value,puts⟩ := puts seed index values
  simp [Job.perform,found,puts,produced]

/-- The wrappers of a producer are those of its one product. -/
theorem Job.Plain.product_eq {label : L} {first second : D}
    (known : (job.module (.producer label first)).isSome = true)
    (other : (job.module (.producer label second)).isSome = true) : first = second := by
  obtain ⟨m,found⟩ := Option.isSome_iff_exists.mp known
  obtain ⟨n,also⟩ := Option.isSome_iff_exists.mp other
  have listed : m.label = label ∧ first ∈ m.products := by simpa using List.find?_some found
  have also_listed : n.label = label ∧ second ∈ n.products := by simpa using List.find?_some also
  obtain rfl := plain.same (module_listed job found) (module_listed job also)
    (listed.1.trans also_listed.1.symm)
  obtain ⟨only,products,_⟩ := plain.single m (List.mem_of_find?_eq_some found)
  rw [products,List.mem_singleton] at listed also_listed
  rw [listed.2,also_listed.2]

theorem Job.Plain.needed_known {index : Nat} {w : Wrapper L D}
    (needed : job.Needed plain.acyclic index w) : (job.module w).isSome = true := by
  obtain ⟨path,listed,label,member,depends⟩ := needed
  rcases Relation.ReflTransGen.cases_tail depends with rfl | ⟨v,_,needs⟩
  · exact plain.registered path listed label (reached_subset member)
  · exact plain.getter_known needs

end Plain

end ToyMtFramework.Schedule
