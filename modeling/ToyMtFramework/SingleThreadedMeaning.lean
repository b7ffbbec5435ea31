import ToyMtFramework.SingleThreaded
import ToyMtFramework.ScheduleMeaning
import Mathlib.Order.Filter.AtTopBot.Basic
import Mathlib.Order.Filter.Finite

/-! The single-threaded framework computes what an event means. A call extends the set of
modules that were run by what its roots depend on, and keeps each of them right. -/
namespace ToyMtFramework.SingleThreaded
open Schedule
open Filter (atTop eventually_all_finite eventually_atTop)
open scoped Filter

variable {L D E : Type}

def Ran (s : State L D) : Wrapper L D → Prop
  | .filter label => s.filterWasRun label = true
  | .producer label _ => s.producerWasRun label = true

variable [DecidableEq L] [DecidableEq D] {job : Job L D E}

/-- What was run was run once, after what it needs, and has its value. -/
structure Sound (plain : job.Plain) (index : Nat) (s : State L D) : Prop where
  value : ∀ label product, (job.module (.producer label product)).isSome = true →
    s.producerWasRun label = true →
      s.value label product = job.value plain.acyclic index (.producer label product)
  keep : ∀ label, s.filterWasRun label = true →
    s.keep label = (job.outcome plain.acyclic index (.filter label)).keep
  closed : ∀ w, (job.module w).isSome = true → Ran s w → ∀ v ∈ job.getters w, Ran s v
  filtersRun : ∀ label, s.filtersRun.count label = if s.filterWasRun label then 1 else 0
  producersRun : ∀ label, s.producersRun.count label = if s.producerWasRun label then 1 else 0
  registered : ∀ label, s.filterWasRun label = true → (job.findFilter label).isSome = true
  product : ∀ label, s.producerWasRun label = true →
    ∃ product, (job.module (.producer label product)).isSome = true

theorem Unrun.sound {s : State L D} (unrun : Unrun s) (plain : job.Plain) (index : Nat) :
    Sound plain index s := by
  refine ⟨?_,?_,?_,?_,?_,?_,?_⟩
  · intro label product known ran
    simp [unrun.producerWasRun] at ran
  · intro label ran
    simp [unrun.filterWasRun] at ran
  · intro w known ran
    cases w <;> simp [Ran,unrun.filterWasRun,unrun.producerWasRun] at ran
  · intro label
    simp [unrun.filtersRun,unrun.filterWasRun]
  · intro label
    simp [unrun.producersRun,unrun.producerWasRun]
  · intro label ran
    simp [unrun.filterWasRun] at ran
  · intro label ran
    simp [unrun.producerWasRun] at ran

structure Extends (job : Job L D E) (roots : List (Wrapper L D)) (s t : State L D) : Prop where
  kept : ∀ w, Ran s w → Ran t w
  origin : ∀ w, (job.module w).isSome = true → Ran t w →
    Ran s w ∨ ∃ root ∈ roots, job.DependsOn root w
  roots : ∀ root ∈ roots, Ran t root

theorem Extends.nil (s : State L D) : Extends job [] s s :=
  ⟨fun _ ran => ran,fun _ _ ran => Or.inl ran,by simp⟩

theorem Extends.append {first second : List (Wrapper L D)} {s t u : State L D}
    (before : Extends job first s t) (after : Extends job second t u) :
    Extends job (first ++ second) s u := by
  refine ⟨fun w ran => after.kept w (before.kept w ran),?_,?_⟩
  · intro w known ran
    rcases after.origin w known ran with ran | ⟨root,member,depends⟩
    · rcases before.origin w known ran with ran | ⟨root,member,depends⟩
      · exact Or.inl ran
      · exact Or.inr ⟨root,List.mem_append_left _ member,depends⟩
    · exact Or.inr ⟨root,List.mem_append_right _ member,depends⟩
  · intro root member
    rcases List.mem_append.mp member with member | member
    · exact after.kept root (before.roots root member)
    · exact after.roots root member

/-- What a module needs is run before it. -/
theorem Extends.under {w : Wrapper L D} {s t : State L D}
    (extends_ : Extends job (job.getters w ++ [w]) s t) : Extends job [w] s t := by
  refine ⟨extends_.kept,?_,fun root member => extends_.roots root (List.mem_append_right _ member)⟩
  intro v known ran
  rcases extends_.origin v known ran with ran | ⟨root,member,depends⟩
  · exact Or.inl ran
  · rcases List.mem_append.mp member with needed | member
    · exact Or.inr ⟨w,List.mem_singleton.mpr rfl,Relation.ReflTransGen.head needed depends⟩
    · exact Or.inr ⟨root,member,depends⟩

section Calls
variable (plain : job.Plain) {index : Nat}

theorem lookup_eq (plain : job.Plain) (label : L) (product : D) :
    lookup job label product = job.find label product := by
  have unique {m n : Module L D E} (first : lookup job label product = some m)
      (second : job.find label product = some n) : m = n := by
    have listed : m.label = label ∧ product ∈ m.products := by simpa using List.find?_some first
    have also : n.label = label ∧ product ∈ n.products := by simpa using List.find?_some second
    have member : m ∈ job.producers := List.mem_reverse.mp (List.mem_of_find?_eq_some first)
    exact plain.same (List.mem_append_right _ member)
      (List.mem_append_right _ (List.mem_of_find?_eq_some second)) (listed.1.trans also.1.symm)
  cases first : lookup job label product with
  | none =>
    symm
    unfold Job.find
    rw [List.find?_eq_none]
    intro m member
    exact List.find?_eq_none.mp first m (List.mem_reverse.mpr member)
  | some m =>
    cases second : job.find label product with
    | none =>
      have member : m ∈ job.producers := List.mem_reverse.mp (List.mem_of_find?_eq_some first)
      exact absurd (List.find?_some first) (List.find?_eq_none.mp second m member)
    | some n => rw [unique first second]

def Gets (plain : job.Plain) (index : Nat)
    (get : State L D → L × D → Except (Stop E) (State L D × Int)) (g : L × D) : Prop :=
  ∀ s, Sound plain index s → ∃ t,
    get s g = .ok (t,job.value plain.acyclic index (.producer g.1 g.2)) ∧
      Sound plain index t ∧ Extends job [.producer g.1 g.2] s t

/-- Prefetching runs the producers of all getters and reads their products. -/
theorem prefetch_extends {get : State L D → L × D → Except (Stop E) (State L D × Int)}
    (getters : List (L × D))
    (gets : ∀ g ∈ getters, Gets plain index get g)
    (s : State L D) (sound : Sound plain index s) : ∃ t,
      prefetch get s getters =
        .ok (t,getters.map fun g => job.value plain.acyclic index (.producer g.1 g.2)) ∧
      Sound plain index t ∧ Extends job (getters.map fun g => .producer g.1 g.2) s t := by
  induction getters generalizing s with
  | nil => exact ⟨s,rfl,sound,Extends.nil s⟩
  | cons g gs ih =>
    obtain ⟨t,got,right,first⟩ := gets g (List.mem_cons_self) s sound
    obtain ⟨u,fetched,sound,second⟩ :=
      ih (fun h member => gets h (List.mem_cons_of_mem g member)) t right
    refine ⟨u,?_,sound,first.append second⟩
    unfold prefetch
    rw [got]
    simp only [bind,Except.bind,fetched]
    rfl

theorem put_single (value : L → D → Int) (label : L) (product : D) (x : Int) (other : L) (d : D) :
    put value label [(product,x)] other d =
      if other = label ∧ d = product then x else value other d := by
  by_cases same : other = label
  · subst other
    by_cases equal : d = product <;> simp [put,equal]
  · simp [put,same]

/-- A producer whose inputs are there is run. -/
theorem Sound.produced {t : State L D} (right : Sound plain index t) {label : L} {product : D}
    (known : (job.module (.producer label product)).isSome = true)
    (inputs : ∀ v ∈ job.getters (.producer label product), Ran t v)
    (unrun : t.producerWasRun label = false) : Sound plain index (t.produced label
      [(product,job.value plain.acyclic index (.producer label product))]) := by
  have only {d : D} (also : (job.module (.producer label d)).isSome = true) : d = product :=
    plain.product_eq also known
  refine ⟨?_,right.keep,?_,right.filtersRun,?_,right.registered,?_⟩
  · intro other d also ran
    change put _ _ _ _ _ = _
    rw [put_single]
    by_cases same : other = label
    · subst other
      rw [only also,if_pos ⟨rfl,rfl⟩]
    · rw [if_neg (fun equal => same equal.1)]
      exact right.value other d also (by simpa [State.produced,same] using ran)
  · intro w also ran v needed
    have first : Ran t v := by
      by_cases ours : w = .producer label product
      · subst w
        exact inputs v needed
      · refine right.closed w also ?_ v needed
        cases w with
        | filter other => exact ran
        | producer other d =>
          have distinct : other ≠ label := by
            rintro rfl
            exact ours (by rw [only also])
          simpa [Ran,State.produced,distinct] using ran
    cases v with
    | filter other => exact first
    | producer other d =>
      by_cases same : other = label
      · simp [Ran,State.produced,same]
      · simpa [Ran,State.produced,same] using first
  · intro other
    change (t.producersRun ++ [label]).count other = _
    rw [List.count_append,right.producersRun]
    by_cases same : other = label
    · subst other
      simp [State.produced,unrun]
    · simp [State.produced,same,Ne.symm same]
  · intro other ran
    by_cases same : other = label
    · exact ⟨product,same ▸ known⟩
    · exact right.product other (by simpa [State.produced,same] using ran)

theorem Extends.produced (plain : job.Plain) (t : State L D) {label : L} {product : D}
    (known : (job.module (.producer label product)).isSome = true) (puts : List (D × Int)) :
    Extends job [.producer label product] t (t.produced label puts) := by
  refine ⟨?_,?_,?_⟩
  · intro w ran
    cases w with
    | filter other => exact ran
    | producer other d =>
      by_cases same : other = label
      · simp [Ran,State.produced,same]
      · simpa [Ran,State.produced,same] using ran
  · intro w also ran
    cases w with
    | filter other => exact Or.inl ran
    | producer other d =>
      by_cases same : other = label
      · subst other
        rw [plain.product_eq also known]
        exact Or.inr ⟨_,List.mem_singleton.mpr rfl,Relation.ReflTransGen.refl⟩
      · exact Or.inl (by simpa [Ran,State.produced,same] using ran)
  · intro root member
    rw [List.mem_singleton.mp member]
    simp [Ran,State.produced]

/-- The body computes what the wrapper means from what its getters mean. -/
theorem perform_outcome {w : Wrapper L D} {m : Module L D E} (found : job.module w = some m)
    (seed index : Nat) : m.perform seed index (m.getters.map fun g =>
      job.value plain.acyclic index (.producer g.1 g.2)) = job.outcome plain.acyclic index w := by
  have steady := plain.perform_eq w seed index ((job.getters w).map (job.value plain.acyclic index))
  rw [Job.outcome,← steady,Job.getters,Job.perform,found,List.map_map]
  rfl

theorem doProduce_extends {get : State L D → L × D → Except (Stop E) (State L D × Int)} (seed : Nat)
    {label : L} {product : D} {m : Module L D E}
    (found : job.module (.producer label product) = some m)
    (gets : ∀ g ∈ m.getters, Gets plain index get g)
    (s : State L D) (sound : Sound plain index s) (unrun : s.producerWasRun label = false) :
    ∃ t, doProduce seed index get s m = .ok t ∧ Sound plain index t ∧
      Extends job [.producer label product] s t := by
  obtain ⟨t,fetched,right,before⟩ := prefetch_extends plain m.getters gets s sound
  have known : (job.module (.producer label product)).isSome = true := by simp [found]
  have listed : m.label = label ∧ product ∈ m.products := by simpa using List.find?_some found
  have getters : job.getters (.producer label product) = m.getters.map fun g => .producer g.1 g.2 := by
    simp [Job.getters,found]
  rw [← getters] at before
  have still : t.producerWasRun label = false := by
    by_contra ran
    rcases before.origin (.producer label product) known (by simpa [Ran] using ran) with
      ran | ⟨root,needed,depends⟩
    · simp [Ran,unrun] at ran
    · exact plain.acyclic.not_depends needed depends
  have puts : (job.outcome plain.acyclic index (.producer label product)).puts =
      [(product,job.value plain.acyclic index (.producer label product))] := by
    rw [value_eq]
    exact plain.puts known 0 index _
  refine ⟨_,?_,right.produced plain known before.roots still,
    (before.append (Extends.produced plain t known _)).under⟩
  unfold doProduce
  rw [fetched]
  simp only [bind,Except.bind,perform_outcome plain found seed index,puts,listed.1]
  rw [Job.outcome,plain.thrown]
  rfl

/-- Beyond some depth all calls of `get` return. -/
theorem get_gets (seed : Nat) (w : Wrapper L D) (known : (job.module w).isSome = true) (g : L × D)
    (equal : w = .producer g.1 g.2) :
    ∀ᶠ depth in atTop, Gets plain index (get job seed index depth) g := by
  induction w using plain.acyclic.below.induction generalizing g with
  | _ w ih =>
    subst equal
    obtain ⟨m,found⟩ := Option.isSome_iff_exists.mp known
    have inputs : ∀ᶠ depth in atTop, ∀ h ∈ m.getters, Gets plain index (get job seed index depth) h := by
      refine (eventually_all_finite (List.finite_toSet m.getters)).mpr fun h member => ?_
      have needed : .producer h.1 h.2 ∈ job.getters (.producer g.1 g.2) := by
        simp only [Job.getters,found]
        exact List.mem_map_of_mem member
      exact ih _ needed (plain.getter_known needed) h rfl
    obtain ⟨deep,inputs⟩ := eventually_atTop.mp inputs
    refine eventually_atTop.mpr ⟨deep + 1,fun depth enough s sound => ?_⟩
    obtain ⟨depth,rfl⟩ : ∃ n, depth = n + 1 := ⟨depth - 1,by omega⟩
    have listed : m.label = g.1 ∧ g.2 ∈ m.products := by simpa using List.find?_some found
    unfold get
    rw [lookup_eq plain,show job.find g.1 g.2 = some m from found]
    simp only [listed.1]
    cases ran : s.producerWasRun g.1 with
    | true =>
      refine ⟨s,?_,sound,⟨fun _ ran => ran,fun _ _ ran => Or.inl ran,?_⟩⟩
      · rw [if_pos rfl,sound.value g.1 g.2 known ran]
      · intro root member
        rw [List.mem_singleton.mp member]
        exact ran
    | false =>
      obtain ⟨t,done,right,after⟩ :=
        doProduce_extends plain seed found (inputs depth (by omega)) s sound ran
      refine ⟨t,?_,right,after⟩
      have value := right.value g.1 g.2 known (after.roots _ (List.mem_singleton.mpr rfl))
      simp [bind,Except.bind,done,value,pure,Except.pure]

theorem Sound.filtered {t : State L D} (right : Sound plain index t) {label : L}
    (known : (job.findFilter label).isSome = true)
    (inputs : ∀ v ∈ job.getters (.filter label), Ran t v) (unrun : t.filterWasRun label = false) :
    Sound plain index (t.filtered label (job.outcome plain.acyclic index (.filter label)).keep) := by
  refine ⟨right.value,?_,?_,?_,right.producersRun,?_,right.product⟩
  · intro other ran
    by_cases same : other = label
    · subst other
      simp [State.filtered]
    · have before := right.keep other (by simpa [State.filtered,same] using ran)
      simpa [State.filtered,same] using before
  · intro w also ran v needed
    have first : Ran t v := by
      by_cases ours : w = .filter label
      · subst w
        exact inputs v needed
      · refine right.closed w also ?_ v needed
        cases w with
        | producer other d => exact ran
        | filter other =>
          have distinct : other ≠ label := fun same => ours (by rw [same])
          simpa [Ran,State.filtered,distinct] using ran
    cases v with
    | producer other d => exact first
    | filter other =>
      by_cases same : other = label
      · simp [Ran,State.filtered,same]
      · simpa [Ran,State.filtered,same] using first
  · intro other
    change (t.filtersRun ++ [label]).count other = _
    rw [List.count_append,right.filtersRun]
    by_cases same : other = label
    · subst other
      simp [State.filtered,unrun]
    · simp [State.filtered,same,Ne.symm same]
  · intro other ran
    by_cases same : other = label
    · exact same ▸ known
    · exact right.registered other (by simpa [State.filtered,same] using ran)

theorem Extends.filtered (t : State L D) (label : L) (keep : Bool) :
    Extends job [.filter label] t (t.filtered label keep) := by
  refine ⟨?_,?_,?_⟩
  · intro w ran
    cases w with
    | producer other d => exact ran
    | filter other =>
      by_cases same : other = label
      · simp [Ran,State.filtered,same]
      · simpa [Ran,State.filtered,same] using ran
  · intro w also ran
    cases w with
    | producer other d => exact Or.inl ran
    | filter other =>
      by_cases same : other = label
      · subst other
        exact Or.inr ⟨_,List.mem_singleton.mpr rfl,Relation.ReflTransGen.refl⟩
      · exact Or.inl (by simpa [Ran,State.filtered,same] using ran)
  · intro root member
    rw [List.mem_singleton.mp member]
    simp [Ran,State.filtered]

theorem doFilter_extends (index seed : Nat) {label : L} (known : (job.findFilter label).isSome = true) :
    ∀ᶠ depth in atTop, ∀ s, Sound plain index s → ∃ t, doFilter job seed index depth s label =
      .ok (t,(job.outcome plain.acyclic index (.filter label)).keep) ∧
        Sound plain index t ∧ Extends job [.filter label] s t := by
  obtain ⟨m,found⟩ := Option.isSome_iff_exists.mp known
  have getters : job.getters (.filter label) = m.getters.map fun g => .producer g.1 g.2 := by
    simp [Job.getters,Job.module,found]
  have inputs : ∀ᶠ depth in atTop, ∀ g ∈ m.getters, Gets plain index (get job seed index depth) g := by
    refine (eventually_all_finite (List.finite_toSet m.getters)).mpr fun g member => ?_
    have needed : .producer g.1 g.2 ∈ job.getters (.filter label) := by
      rw [getters]
      exact List.mem_map_of_mem member
    exact get_gets plain seed _ (plain.getter_known needed) g rfl
  filter_upwards [inputs] with depth inputs s sound
  unfold doFilter
  rw [found]
  cases ran : s.filterWasRun label with
  | true =>
    refine ⟨s,?_,sound,⟨fun _ ran => ran,fun _ _ ran => Or.inl ran,?_⟩⟩
    · simp [sound.keep label ran]
    · intro root member
      rw [List.mem_singleton.mp member]
      exact ran
  | false =>
    obtain ⟨t,fetched,right,before⟩ := prefetch_extends plain m.getters inputs s sound
    rw [← getters] at before
    have still : t.filterWasRun label = false := by
      by_contra ran'
      rcases before.origin (.filter label) known (by simpa [Ran] using ran') with
        ran' | ⟨root,needed,depends⟩
      · simp [Ran,ran] at ran'
      · exact plain.acyclic.not_depends needed depends
    refine ⟨_,?_,right.filtered plain known before.roots still,
      (before.append (Extends.filtered t label _)).under⟩
    have performed := perform_outcome plain (show job.module (.filter label) = some m from found) seed index
    simp only [Bool.false_eq_true,if_false,bind,Except.bind,fetched,performed]
    rw [Job.outcome,plain.thrown]
    rfl

/-- A path runs the filters it reaches. -/
theorem run_extends (index seed : Nat) (path : List L)
    (known : ∀ label ∈ path, (job.findFilter label).isSome = true) :
    ∀ᶠ depth in atTop, ∀ s, Sound plain index s → ∃ t, run job seed index depth s path = .ok t ∧
      Sound plain index t ∧
        Extends job ((job.reached plain.acyclic index path).map .filter) s t := by
  induction path with
  | nil => exact Filter.Eventually.of_forall fun depth s sound => ⟨s,rfl,sound,Extends.nil s⟩
  | cons label rest ih =>
    filter_upwards [doFilter_extends plain index seed (known label List.mem_cons_self),
      ih fun other member => known other (List.mem_cons_of_mem label member)]
      with depth first others s sound
    obtain ⟨t,filtered,right,before⟩ := first s sound
    unfold run
    rw [filtered]
    simp only [bind,Except.bind,Job.reached]
    split
    · obtain ⟨u,ran,sound,after⟩ := others t right
      exact ⟨u,ran,sound,before.append after⟩
    · exact ⟨t,rfl,right,before⟩

theorem runPaths_extends (index seed : Nat) (paths : List (List L))
    (known : ∀ path ∈ paths, ∀ label ∈ path, (job.findFilter label).isSome = true) :
    ∀ᶠ depth in atTop, ∀ s, Sound plain index s → ∃ t, runPaths job seed index depth s paths = .ok t ∧
      Sound plain index t ∧ Extends job
        (paths.flatMap fun path => (job.reached plain.acyclic index path).map .filter) s t := by
  induction paths with
  | nil => exact Filter.Eventually.of_forall fun depth s sound => ⟨s,rfl,sound,Extends.nil s⟩
  | cons path paths ih =>
    filter_upwards [run_extends plain index seed path (known path List.mem_cons_self),
      ih fun other member => known other (List.mem_cons_of_mem path member)]
      with depth first others s sound
    obtain ⟨t,ran,right,before⟩ := first s sound
    obtain ⟨u,rest,sound,after⟩ := others t right
    refine ⟨u,?_,sound,before.append after⟩
    unfold runPaths
    rw [ran]
    exact rest

/-- The single-threaded framework runs exactly the modules the event needs. -/
theorem process_runs (index seed : Nat) {s : State L D} (unrun : Unrun s) :
    ∀ᶠ depth in atTop, ∃ t, process job seed index depth s = .ok t ∧ Sound plain index t ∧
      ∀ w, (job.module w).isSome = true → (Ran t w ↔ job.Needed plain.acyclic index w) := by
  have again : Unrun (reset job s) :=
    ⟨fun label => by simp [reset,unrun.filterWasRun],unrun.producerWasRun,unrun.filtersRun,
      unrun.producersRun⟩
  filter_upwards [runPaths_extends plain index seed job.paths plain.registered]
    with depth runs
  obtain ⟨t,ran,right,after⟩ := runs (reset job s) (again.sound plain index)
  refine ⟨t,ran,right,fun w known => ⟨fun done => ?_,?_⟩⟩
  · rcases after.origin w known done with before | ⟨root,member,depends⟩
    · cases w <;> simp [Ran,again.filterWasRun,again.producerWasRun] at before
    · obtain ⟨path,listed,member⟩ := List.mem_flatMap.mp member
      obtain ⟨label,reached,rfl⟩ := List.mem_map.mp member
      exact ⟨path,listed,label,reached,depends⟩
  · rintro ⟨path,listed,label,reached,depends⟩
    induction depends with
    | refl =>
      exact after.roots _ (List.mem_flatMap.mpr ⟨path,listed,List.mem_map_of_mem reached⟩)
    | @tail v w depends needed ih =>
      have needing : (job.module v).isSome = true :=
        plain.needed_known ⟨path,listed,label,reached,depends⟩
      exact right.closed v needing (ih needing) w needed

end Calls
end ToyMtFramework.SingleThreaded
