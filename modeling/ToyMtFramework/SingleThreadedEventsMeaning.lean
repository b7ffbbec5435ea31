import ToyMtFramework.SingleThreadedEvents
import ToyMtFramework.Core.Acyclic

/-! What an event of the single-threaded framework means. In an acyclic job each module has
one outcome in the event, whatever the order in which the modules are run, and the outcomes
of the filters decide which filters a path reaches and which products are read. -/
namespace ToyMtFramework.SingleThreadedEvents
open Schedule (Outcome)
open Relation (ReflTransGen TransGen)

variable {L D E : Type} [DecidableEq L]

section Job
variable (job : Job L D E)

def Job.module : Node L → Option (Module L D E)
  | .filter label => job.findFilter label
  | .producer label => job.producers.find? fun m => m.label = label

def Job.inputs (w : Node L) : List (L × D) :=
  match job.module w with
  | none => []
  | some m => m.getters ++ m.asks

def Job.needs (w : Node L) : List (Node L) :=
  (job.inputs w).map fun key => .producer key.1

def Job.DependsOn : Node L → Node L → Prop :=
  ReflTransGen fun w v => v ∈ job.needs w

/-- Labels of producers are distinct, and what modules and paths name is registered. -/
structure Job.Configured (job : Job L D E) : Prop where
  acyclic : ∀ w, ¬TransGen (fun v w => v ∈ job.needs w) w w
  distinct : (job.producers.map Module.label).Nodup
  resolved : ∀ m ∈ job.filters ++ job.producers, ∀ key ∈ m.getters ++ m.asks,
    ∃ n ∈ job.producers, n.label = key.1 ∧ key.2 ∈ n.products
  registered : ∀ path ∈ job.paths, ∀ label ∈ path, ∃ m ∈ job.filters, m.label = label

end Job

section Known
variable {job : Job L D E}

theorem module_listed {w : Node L} {m : Module L D E} (found : job.module w = some m) :
    m ∈ job.filters ++ job.producers := by
  cases w with
  | filter label => exact List.mem_append_left _ (List.mem_of_find?_eq_some found)
  | producer label => exact List.mem_append_right _ (List.mem_of_find?_eq_some found)

theorem inputs_known {w : Node L} {key : L × D} (input : key ∈ job.inputs w) :
    ∃ m ∈ job.filters ++ job.producers, key ∈ m.getters ++ m.asks := by
  unfold Job.inputs at input
  cases found : job.module w with
  | none =>
    rw [found] at input
    exact absurd input List.not_mem_nil
  | some m =>
    rw [found] at input
    exact ⟨m,module_listed found,input⟩

theorem needs_finite (job : Job L D E) : {v | ∃ w, v ∈ job.needs w}.Finite := by
  let keys := (job.filters ++ job.producers).flatMap fun m => m.getters ++ m.asks
  apply (List.finite_toSet (keys.map fun key => Node.producer key.1)).subset
  rintro v ⟨w,needed⟩
  obtain ⟨key,input,rfl⟩ := List.mem_map.mp needed
  obtain ⟨m,member,listed⟩ := inputs_known input
  have known : key ∈ keys := List.mem_flatMap.mpr ⟨m,member,listed⟩
  exact List.mem_map.mpr ⟨key,known,rfl⟩

theorem Job.Configured.below (configured : job.Configured) :
    WellFounded fun v w => v ∈ job.needs w :=
  Acyclic.wellFounded_of_acyclic (needs_finite job) configured.acyclic

theorem Job.Configured.not_depends (configured : job.Configured) {v w : Node L}
    (needed : v ∈ job.needs w) : ¬job.DependsOn v w := by
  intro depends
  have cycle : TransGen (fun w v => v ∈ job.needs w) w w := TransGen.head' needed depends
  exact configured.acyclic w (Relation.transGen_swap.mp cycle)

variable [DecidableEq D]

/-- The event finds a registered product with the producer of that label. -/
theorem Job.Configured.lookup_eq (configured : job.Configured) {key : L × D} {n : Module L D E}
    (member : n ∈ job.producers) (label : n.label = key.1) (product : key.2 ∈ n.products) :
    job.lookup key = some n ∧ job.module (.producer key.1) = some n := by
  have unique {m : Module L D E} (listed : m ∈ job.producers) (same : m.label = key.1) : m = n :=
    List.inj_on_of_nodup_map configured.distinct listed member (same.trans label.symm)
  constructor
  · obtain ⟨m,found⟩ : ∃ m, job.lookup key = some m := by
      apply Option.isSome_iff_exists.mp
      rw [Job.lookup,List.find?_isSome]
      exact ⟨n,List.mem_reverse.mpr member,by simp [label,product]⟩
    have holds : m.label = key.1 ∧ key.2 ∈ m.products := by simpa using List.find?_some found
    rw [found,unique (List.mem_reverse.mp (List.mem_of_find?_eq_some found)) holds.1]
  · obtain ⟨m,found⟩ : ∃ m, job.module (.producer key.1) = some m := by
      apply Option.isSome_iff_exists.mp
      rw [Job.module,List.find?_isSome]
      exact ⟨n,member,by simp [label]⟩
    have holds : m.label = key.1 := by simpa using List.find?_some found
    rw [found,unique (List.mem_of_find?_eq_some found) holds]

theorem Job.Configured.input_found (configured : job.Configured) {w : Node L} {key : L × D}
    (input : key ∈ job.inputs w) : ∃ n, n.label = key.1 ∧ n ∈ job.producers ∧
      key.2 ∈ n.products ∧ job.lookup key = some n ∧ job.module (.producer key.1) = some n := by
  obtain ⟨m,member,listed⟩ := inputs_known input
  obtain ⟨n,producer,label,product⟩ := configured.resolved m member key listed
  exact ⟨n,label,producer,product,configured.lookup_eq producer label product⟩

end Known

variable [DecidableEq D]

def Entry.putOf (key : L × D) : Entry L D → Option Int
  | .put other x => if other = key then some x else none
  | _ => none

def lastPut (log : List (Entry L D)) (key : L × D) : Option Int :=
  log.reverse.findSome? (Entry.putOf key)

def entries (label : L) (puts : List (D × Int)) : List (Entry L D) :=
  puts.map fun put => .put (label,put.1) put.2

@[simp] theorem lastPut_nil (key : L × D) : lastPut [] key = none := rfl

theorem lastPut_append (first second : List (Entry L D)) (key : L × D) :
    lastPut (first ++ second) key = (lastPut second key).or (lastPut first key) := by
  rw [lastPut,List.reverse_append,List.findSome?_append]
  rfl

theorem lastPut_note (log : List (Entry L D)) (entry : Entry L D) (key : L × D) :
    lastPut (log ++ [entry]) key = (entry.putOf key).or (lastPut log key) := by
  rw [lastPut_append]
  cases found : entry.putOf key <;> simp [lastPut,found]

theorem lastPut_entries_other {label : L} {key : L × D} (puts : List (D × Int))
    (other : key.1 ≠ label) : lastPut (entries label puts) key = none := by
  rw [lastPut,List.findSome?_eq_none_iff]
  intro entry member
  obtain ⟨put,-,rfl⟩ := List.mem_map.mp (List.mem_reverse.mp member)
  rw [Entry.putOf,if_neg]
  rintro rfl
  exact other rfl

section Meaning
variable (job : Job L D E)

def Job.perform (w : Node L) (seed index : Nat) (values : List Int) : Outcome D E :=
  match job.module w with
  | none => ⟨[],true,none⟩
  | some m => m.perform seed index values

/-- What an execution of its producer puts for a product. -/
def supplied (key : L × D) (outcome : Outcome D E) : Option Int :=
  lastPut (entries key.1 outcome.puts) key

variable {job} (configured : job.Configured) (seed index : Nat)

noncomputable def Job.outcome : Node L → Outcome D E :=
  Acyclic.evaluate job.needs (fun w outcomes => job.perform w seed index
    (List.zipWith (fun key outcome => (supplied key outcome).getD 0) (job.inputs w) outcomes))
    configured.below

noncomputable def Job.supply (key : L × D) : Option Int :=
  supplied key (Job.outcome configured seed index (.producer key.1))

theorem outcome_eq (w : Node L) : Job.outcome configured seed index w = job.perform w seed index
    ((job.inputs w).map fun key => (Job.supply configured seed index key).getD 0) := by
  rw [Job.outcome,Acyclic.evaluate_eq]
  change job.perform w seed index (List.zipWith _ (job.inputs w)
    ((job.needs w).map (Job.outcome configured seed index))) = _
  rw [Job.needs,List.map_map,List.zipWith_map_right,List.zipWith_self]
  rfl

/-- The filters of a path up to the first that rejects the event. -/
noncomputable def Job.reached : List L → List L
  | [] => []
  | label :: rest => label ::
    if (Job.outcome configured seed index (.filter label)).keep then Job.reached rest else []

/-- The filters that some path reaches and the producers they depend on. -/
def Job.Needed (w : Node L) : Prop :=
  ∃ path ∈ job.paths, ∃ label ∈ Job.reached configured seed index path,
    job.DependsOn (.filter label) w

/-- Each product that is read in the event is put in the event by its producer, and `m_wasRun`
is not set yet for that producer. -/
def Job.Supplied (start : Node L → Bool) : Prop :=
  ∀ w, Job.Needed configured seed index w → ∀ key ∈ job.inputs w,
    start (.producer key.1) = false ∧ (Job.supply configured seed index key).isSome = true

end Meaning

/-- Each product that was read had been put before, and the value was that of the last put. -/
def Faithful (log : List (Entry L D)) : Prop :=
  ∀ before key x after, log = before ++ .read key x :: after → lastPut before key = some x

omit [DecidableEq L] [DecidableEq D] in
/-- An entry of a longer log is one of the first or one of the later ones. -/
theorem split_append {log more before after : List (Entry L D)} {entry : Entry L D}
    (split : log ++ more = before ++ entry :: after) :
    (∃ between, log = before ++ entry :: between) ∨
      ∃ between, before = log ++ between ∧ more = between ++ entry :: after := by
  rcases List.append_eq_append_iff.mp split with ⟨between,rfl,later⟩ | ⟨between,rfl,later⟩
  · exact Or.inr ⟨between,rfl,later⟩
  · cases between with
    | nil => exact Or.inr ⟨[],by simp,by simpa using later.symm⟩
    | cons first between =>
      obtain ⟨rfl,-⟩ := List.cons_eq_cons.mp later
      exact Or.inl ⟨between,rfl⟩

theorem Faithful.earlier {log more : List (Entry L D)} (faithful : Faithful (log ++ more)) :
    Faithful log := by
  rintro before key x after rfl
  exact faithful before key x (after ++ more) (by simp)

theorem Faithful.read {log : List (Entry L D)} {key : L × D} {x : Int}
    (faithful : Faithful (log ++ [.read key x])) : lastPut log key = some x :=
  faithful log key x [] rfl

/-- A log stays faithful when nothing is read but what was put in it. -/
theorem Faithful.append {log more : List (Entry L D)} (faithful : Faithful log)
    (right : ∀ between key x after, more = between ++ .read key x :: after →
      lastPut (log ++ between) key = some x) : Faithful (log ++ more) := by
  intro before key x after split
  rcases split_append split with ⟨between,rfl⟩ | ⟨between,rfl,rfl⟩
  · exact faithful before key x between rfl
  · exact right between key x after rfl

/-- What an event has to do: of the filters that its paths reach and of the producers these
depend on each is executed once, producers before their consumers, and what is read was put. -/
structure Right (job : Job L D E) (log : List (Entry L D)) : Prop where
  once : ∀ label w, .reached label ∈ log → job.DependsOn (.filter label) w →
    log.count (.ran w) = 1
  ordered : ∀ before w after, log = before ++ .ran w :: after → ∀ v ∈ job.needs w, .ran v ∈ before
  faithful : Faithful log

end ToyMtFramework.SingleThreadedEvents
