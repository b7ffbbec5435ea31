import ToyMtFramework.SingleThreadedEventsRight
import Mathlib.Order.Filter.AtTopBot.Basic
import Mathlib.Order.Filter.Finite

/-! The loop of the single-threaded framework. In an acyclic job the recursion of
`Event::get` ends, and after the first event all producers are reset, so that from there
on only what the producers put decides whether an event is right. -/
namespace ToyMtFramework.SingleThreadedEvents
open Schedule (Outcome)
open Filter (atTop eventually_all_finite eventually_atTop)
open scoped Filter

variable {L D E : Type} [DecidableEq L] [DecidableEq D] {job : Job L D E} {seed index : Nat}

section Returns

/-- The body ended the event: it threw, or it put a product that is not registered. -/
def Stop.OfBody : Stop E → Prop
  | .notFound | .tooDeep => False
  | .unregistered | .thrown _ => True

theorem stop_of_bind {ε α β : Type} {call : Except ε α} {rest : α → Except ε β} {e : ε}
    (stopped : (call >>= rest) = .error e) :
    call = .error e ∨ ∃ a, call = .ok a ∧ rest a = .error e := by
  cases called : call with
  | error other => exact Or.inl (by simpa [called,bind,Except.bind] using stopped)
  | ok a => exact Or.inr ⟨a,rfl,by simpa [called,bind,Except.bind] using stopped⟩

/-- Only bodies keep the call from giving the product. -/
def Returns (get : State L D → L × D → Except (Stop E) (State L D × Int)) (key : L × D) : Prop :=
  ∀ s stop, get s key = .error stop → stop.OfBody

omit [DecidableEq L] [DecidableEq D] in
theorem getAll_returns {get : State L D → L × D → Except (Stop E) (State L D × Int)}
    {keys : List (L × D)} (returns : ∀ key ∈ keys, Returns get key) {s : State L D} {stop : Stop E}
    (stopped : getAll get s keys = .error stop) : stop.OfBody := by
  induction keys generalizing s with
  | nil => simp [getAll] at stopped
  | cons key keys ih =>
    rcases stop_of_bind stopped with first | ⟨⟨u,x⟩,-,later⟩
    · exact returns key List.mem_cons_self s stop first
    · rcases stop_of_bind later with rest | ⟨⟨v,xs⟩,-,last⟩
      · exact ih (fun other member => returns other (List.mem_cons_of_mem key member)) rest
      · simp [pure,Except.pure] at last

omit [DecidableEq L] [DecidableEq D] in
theorem execute_returns {get : State L D → L × D → Except (Stop E) (State L D × Int)}
    {m : Module L D E} (returns : ∀ key ∈ m.getters ++ m.asks, Returns get key) {s : State L D}
    {stop : Stop E} (stopped : execute seed index get s m = .error stop) : stop.OfBody := by
  rcases stop_of_bind stopped with first | ⟨⟨u,prefetched⟩,-,later⟩
  · exact getAll_returns (fun key member => returns key (List.mem_append_left _ member)) first
  · rcases stop_of_bind later with second | ⟨⟨v,asked⟩,-,last⟩
    · exact getAll_returns (fun key member => returns key (List.mem_append_right _ member)) second
    · simp only at last
      split at last
      · obtain rfl := Except.error.inj last
        trivial
      · simp [pure,Except.pure] at last

theorem putAll_returns {label : L} {puts : List (D × Int)} {s : State L D} {stop : Stop E}
    (stopped : putAll job label s puts = .error stop) : stop.OfBody := by
  induction puts generalizing s with
  | nil => simp [putAll] at stopped
  | cons first puts ih =>
    rcases stop_of_bind stopped with unregistered | ⟨u,-,later⟩
    · unfold put at unregistered
      split at unregistered
      · simp at unregistered
      · obtain rfl := Except.error.inj unregistered
        trivial
    · exact ih later

theorem doProduce_returns {get : State L D → L × D → Except (Stop E) (State L D × Int)}
    {m : Module L D E} (returns : ∀ key ∈ m.getters ++ m.asks, Returns get key) {s : State L D}
    {stop : Stop E} (stopped : doProduce job seed index get s m = .error stop) : stop.OfBody := by
  rcases stop_of_bind stopped with first | ⟨⟨u,outcome⟩,-,later⟩
  · exact execute_returns returns first
  · rcases stop_of_bind later with second | ⟨v,-,last⟩
    · exact putAll_returns second
    · simp [pure,Except.pure] at last

/-- Beyond some depth only bodies keep `Event::get` from giving a product. -/
theorem get_returns (configured : job.Configured) (w : Node L) (key : L × D)
    (equal : w = .producer key.1) {consumer : Node L} (input : key ∈ job.inputs consumer) :
    ∀ᶠ depth in atTop, ∀ seed index, Returns (get job seed index depth) key := by
  induction w using configured.below.induction generalizing key consumer with
  | _ w ih =>
    subst equal
    obtain ⟨m,label,-,-,lookup,found⟩ := configured.input_found input
    have inputs : job.inputs (.producer key.1) = m.getters ++ m.asks := by
      rw [Job.inputs,found]
    have deeper : ∀ᶠ depth in atTop, ∀ other ∈ m.getters ++ m.asks, ∀ seed index,
        Returns (get job seed index depth) other := by
      refine (eventually_all_finite (List.finite_toSet (m.getters ++ m.asks))).mpr fun other member => ?_
      have member : other ∈ job.inputs (.producer key.1) := by
        rw [inputs]
        exact member
      exact ih (.producer other.1) (List.mem_map_of_mem member) other rfl member
    obtain ⟨deep,deeper⟩ := eventually_atTop.mp deeper
    refine eventually_atTop.mpr ⟨deep + 1,fun depth enough seed index s stop stopped => ?_⟩
    obtain ⟨depth,rfl⟩ : ∃ n, depth = n + 1 := ⟨depth - 1,by omega⟩
    unfold get at stopped
    rw [lookup] at stopped
    simp only at stopped
    split at stopped
    · simp at stopped
    · rcases stop_of_bind stopped with produced | ⟨u,-,last⟩
      · exact doProduce_returns (fun other member => deeper depth (by omega) other member seed index) produced
      · simp [pure,Except.pure] at last

theorem doFilter_returns (configured : job.Configured) (label : L)
    (registered : ∃ m ∈ job.filters, m.label = label) : ∀ᶠ depth in atTop, ∀ seed index s stop,
      doFilter job seed index depth s label = .error stop → stop.OfBody := by
  obtain ⟨m,found⟩ : ∃ m, job.findFilter label = some m := by
    apply Option.isSome_iff_exists.mp
    rw [Job.findFilter,List.find?_isSome]
    obtain ⟨m,member,equal⟩ := registered
    exact ⟨m,member,by simp [equal]⟩
  have inputs : job.inputs (.filter label) = m.getters ++ m.asks := by
    rw [Job.inputs,Job.module,found]
  have deep : ∀ᶠ depth in atTop, ∀ key ∈ m.getters ++ m.asks, ∀ seed index,
      Returns (get job seed index depth) key := by
    refine (eventually_all_finite (List.finite_toSet (m.getters ++ m.asks))).mpr fun key member => ?_
    exact get_returns configured _ key rfl (inputs ▸ member)
  filter_upwards [deep] with depth returns seed index s stop stopped
  unfold doFilter at stopped
  rw [found] at stopped
  simp only at stopped
  split at stopped
  · simp at stopped
  · rcases stop_of_bind stopped with executed | ⟨⟨u,outcome⟩,-,last⟩
    · exact execute_returns (fun key member => returns key member seed index) executed
    · simp [pure,Except.pure] at last

theorem run_returns {depth : Nat} {path : List L} (returns : ∀ label ∈ path, ∀ s stop,
    doFilter job seed index depth s label = .error stop → stop.OfBody) {s : State L D} {stop : Stop E}
    (stopped : run job seed index depth s path = .error stop) : stop.OfBody := by
  induction path generalizing s with
  | nil => simp [run] at stopped
  | cons label rest ih =>
    rcases stop_of_bind stopped with first | ⟨⟨u,keep⟩,-,later⟩
    · exact returns label List.mem_cons_self _ stop first
    · simp only at later
      split at later
      · exact ih (fun other member => returns other (List.mem_cons_of_mem label member)) later
      · simp [pure,Except.pure] at later

theorem runPaths_returns {depth : Nat} {paths : List (List L)}
    (returns : ∀ path ∈ paths, ∀ label ∈ path, ∀ s stop,
      doFilter job seed index depth s label = .error stop → stop.OfBody) {s : State L D} {stop : Stop E}
    (stopped : runPaths job seed index depth s paths = .error stop) : stop.OfBody := by
  induction paths generalizing s with
  | nil => simp [runPaths] at stopped
  | cons path paths ih =>
    rcases stop_of_bind stopped with first | ⟨u,-,later⟩
    · exact run_returns (returns path List.mem_cons_self) first
    · exact ih (fun other member => returns other (List.mem_cons_of_mem path member)) later

/-- Beyond some depth only bodies keep an event from being processed. -/
theorem process_returns (configured : job.Configured) : ∀ᶠ depth in atTop, ∀ seed index s stop,
    process job seed index depth s = .error stop → stop.OfBody := by
  have deep : ∀ᶠ depth in atTop, ∀ label ∈ job.paths.flatten, ∀ seed index s stop,
      doFilter job seed index depth s label = .error stop → stop.OfBody := by
    refine (eventually_all_finite (List.finite_toSet job.paths.flatten)).mpr fun label member => ?_
    obtain ⟨path,listed,member⟩ := List.mem_flatten.mp member
    exact doFilter_returns configured label (configured.registered path listed label member)
  filter_upwards [deep] with depth returns seed index s stop stopped
  exact runPaths_returns (fun path listed label member => returns label
    (List.mem_flatten.mpr ⟨path,listed,member⟩) seed index) stopped

end Returns
section Loop
variable {σ : Type} {setEventInfo : σ → SimpleSource.Offer σ} {seeds : Nat → Nat}

theorem processAll_returns {depth calls : Nat} {source : σ} {trace : Trace L D} {stop : Stop E}
    (returns : ∀ seed index s stop, process job seed index depth s = .error stop → stop.OfBody)
    (stopped : SimpleSource.processAll setEventInfo (event job seeds depth) calls source trace =
      some (.error stop)) : stop.OfBody := by
  induction calls generalizing source trace with
  | zero => simp [SimpleSource.processAll] at stopped
  | succ calls ih =>
    rw [SimpleSource.processAll] at stopped
    split at stopped
    · split at stopped
      · rename_i failed
        obtain rfl := Except.error.inj (Option.some.inj stopped)
        rcases stop_of_bind failed with inner | ⟨u,-,last⟩
        · exact returns _ _ _ _ inner
        · simp [pure,Except.pure] at last
      · exact ih stopped
    · simp at stopped

/-- After an event all producers that can be read are reset. -/
theorem supplied_reset (configured : job.Configured) (wasRun : Node L → Bool) :
    Job.Supplied configured seed index (resetProducers job wasRun) ↔
      Job.Supplied configured seed index fun _ => false := by
  have unset {w : Node L} {key : L × D} (input : key ∈ job.inputs w) :
      resetProducers job wasRun (.producer key.1) = false := by
    obtain ⟨n,label,member,product,lookup,-⟩ := configured.input_found input
    apply if_pos
    refine ⟨n,member,key.2,product,?_⟩
    rw [label,lookup]
    simp [label]
  constructor
  · intro supplied w needed key input
    exact ⟨rfl,(supplied w needed key input).2⟩
  · intro supplied w needed key input
    exact ⟨unset input,(supplied w needed key input).2⟩

def startFlags (wasRun : Node L → Bool) : Nat → Node L → Bool
  | 0 => wasRun
  | _ + 1 => fun _ => false

/-- Each event that the source offers is processed, and is right exactly if its products can
be supplied. -/
theorem loop_right (configured : job.Configured) {depth calls : Nat} {source last : σ}
    {trace final : Trace L D}
    (done : SimpleSource.processAll setEventInfo (event job seeds depth) calls source trace =
      some (.ok (last,final))) : ∃ records, final.events = trace.events ++ records ∧
        records.map Record.index = (SimpleSource.offered setEventInfo calls source).map UInt64.toNat ∧
        ∀ k record, records[k]? = some record → (Right job record.log ↔ Job.Supplied configured
          (seeds (trace.events.length + k)) record.index (startFlags trace.state.wasRun k)) := by
  induction calls generalizing source trace with
  | zero => simp [SimpleSource.processAll] at done
  | succ calls ih =>
    rw [SimpleSource.processAll] at done
    rw [SimpleSource.offered]
    split at done
    · rename_i accepted
      rw [if_pos accepted]
      split at done
      · simp at done
      · rename_i next processed
        obtain ⟨s,first,made⟩ := ran_of_bind processed
        obtain rfl := Except.ok.inj made
        obtain ⟨records,events,indices,rights⟩ := ih done
        refine ⟨⟨(setEventInfo source).index.toNat,s.log⟩ :: records,?_,?_,?_⟩
        · rw [events,List.append_assoc]
          rfl
        · rw [List.map_cons,List.map_cons,indices]
        · intro k record found
          cases k with
          | zero =>
            obtain rfl := Option.some.inj found
            exact process_right_iff (s := {trace.state with log := []}) configured rfl first
          | succ k =>
            rw [rights k record found]
            simp only [List.length_append,List.length_singleton]
            rw [show trace.events.length + 1 + k = trace.events.length + (k + 1) by omega]
            cases k with
            | zero => exact supplied_reset configured s.wasRun
            | succ k => exact Iff.rfl
    · rename_i refused
      rw [if_neg refused]
      obtain ⟨-,rfl⟩ := Prod.mk.inj (Except.ok.inj (Option.some.inj done))
      exact ⟨[],by simp,rfl,by simp⟩

/-- From a depth on only bodies end the loop, and all events that the source offers are then
processed; each is right exactly if its products can be supplied, with the flags of the
start in the first event. -/
theorem events_right_iff (configured : job.Configured) (setEventInfo : σ → SimpleSource.Offer σ)
    (seeds : Nat → Nat) (source : σ) (s : State L D) :
    (∃ deep, ∀ depth ≥ deep, ∀ calls stop,
      processAll job setEventInfo seeds depth calls source s = some (.error stop) → stop.OfBody) ∧
    ∀ depth calls last trace,
      processAll job setEventInfo seeds depth calls source s = some (.ok (last,trace)) →
      trace.events.map Record.index =
          (SimpleSource.offered setEventInfo calls source).map UInt64.toNat ∧
        ((∀ record ∈ trace.events, Right job record.log) ↔
          ∀ (k : Nat) index, (SimpleSource.offered setEventInfo calls source)[k]? = some index →
            Job.Supplied configured (seeds k) index.toNat (startFlags s.wasRun k)) := by
  refine ⟨?_,?_⟩
  · obtain ⟨deep,returns⟩ := eventually_atTop.mp (process_returns configured)
    exact ⟨deep,fun depth enough calls stop stopped =>
      processAll_returns (returns depth enough) stopped⟩
  · intro depth calls last trace done
    obtain ⟨records,events,indices,rights⟩ := loop_right configured done
    obtain rfl : trace.events = records := events
    have indexed (k : Nat) : (trace.events[k]?).map Record.index =
        ((SimpleSource.offered setEventInfo calls source)[k]?).map UInt64.toNat := by
      rw [← List.getElem?_map,← List.getElem?_map,indices]
    refine ⟨indices,?_,?_⟩
    · intro right k index offered
      obtain ⟨record,found,equal⟩ : ∃ record, trace.events[k]? = some record ∧
          record.index = index.toNat := by
        have same := indexed k
        rw [offered] at same
        exact Option.map_eq_some_iff.mp same
      rw [← equal,← Nat.zero_add k]
      have supplied := (rights k record found).mp (right record (List.mem_of_getElem? found))
      simpa using supplied
    · intro supplied record member
      obtain ⟨k,found⟩ := List.mem_iff_getElem?.mp member
      obtain ⟨index,offered,equal⟩ := Option.map_eq_some_iff.mp
        ((indexed k).symm.trans (congrArg (Option.map Record.index) found))
      apply (rights k record found).mpr
      rw [← equal]
      simpa using supplied k index offered

end Loop

section Example

def oneProducer : Job Nat Nat Empty where
  filters := [⟨0,[(1,0)],[],[],fun _ _ _ => ⟨[],true,none⟩⟩]
  producers := [⟨1,[],[],[0],fun _ index _ => ⟨[(0,index + 7)],true,none⟩⟩]
  paths := [[0]]

/-- A state as constructors leave it; the flags have any values. -/
def constructed (wasRun : Node Nat → Bool) : State Nat Nat :=
  ⟨wasRun,fun _ => true,fun _ _ => 0,[]⟩

theorem oneProducer_inputs {w : Node Nat} {key : Nat × Nat} (input : key ∈ oneProducer.inputs w) :
    key = (1,0) ∧ w = .filter 0 := by
  obtain ⟨m,found,listed⟩ : ∃ m, oneProducer.module w = some m ∧ key ∈ m.getters ++ m.asks := by
    unfold Job.inputs at input
    cases found : oneProducer.module w with
    | none => simp [found] at input
    | some m => exact ⟨m,rfl,by simpa [found] using input⟩
  cases w with
  | filter label =>
    have found : oneProducer.filters.find? (fun m => m.label = label) = some m := found
    have same : m ∈ oneProducer.filters ∧ m.label = label :=
      ⟨List.mem_of_find?_eq_some found,by simpa using List.find?_some found⟩
    obtain rfl := List.mem_singleton.mp same.1
    obtain rfl : 0 = label := same.2
    exact ⟨by simpa using listed,rfl⟩
  | producer label =>
    have found : oneProducer.producers.find? (fun m => m.label = label) = some m := found
    obtain rfl := List.mem_singleton.mp (List.mem_of_find?_eq_some found)
    simp at listed

theorem oneProducer_configured : oneProducer.Configured := by
  have edge {v w : Node Nat} (needed : v ∈ oneProducer.needs w) : v = .producer 1 ∧ w = .filter 0 := by
    obtain ⟨key,input,rfl⟩ := List.mem_map.mp needed
    obtain ⟨rfl,rfl⟩ := oneProducer_inputs input
    exact ⟨rfl,rfl⟩
  refine ⟨?_,by decide,by decide,by decide⟩
  intro w cycle
  obtain ⟨v,first,-⟩ := Relation.TransGen.head'_iff.mp cycle
  obtain ⟨u,-,last⟩ := Relation.TransGen.tail'_iff.mp cycle
  exact absurd ((edge first).1.symm.trans (edge last).2) (by simp)

/-- The one event of the run when no flag is set. -/
theorem oneProducer_supplied (seed index : Nat) (wasRun : Node Nat → Bool)
    (unset : wasRun (.producer 1) = false) :
    Job.Supplied oneProducer_configured seed index wasRun := by
  intro w needed key input
  obtain ⟨rfl,-⟩ := oneProducer_inputs input
  refine ⟨unset,?_⟩
  rw [Job.supply,outcome_eq]
  rfl

/-- Two events with no flag set: both are right. -/
theorem events_right_twice : ∃ last trace,
    processAll oneProducer SimpleSource.SingleThreaded.setEventInfo (fun _ => 0) 2 3
      (SimpleSource.SingleThreaded.construct 2) (constructed fun _ => false) =
        some (.ok (last,trace)) ∧
      trace.events.length = 2 ∧ ∀ record ∈ trace.events, Right oneProducer record.log := by
  obtain ⟨last,trace,done,length⟩ : ∃ last trace,
      processAll oneProducer SimpleSource.SingleThreaded.setEventInfo (fun _ => 0) 2 3
        (SimpleSource.SingleThreaded.construct 2) (constructed fun _ => false) =
          some (.ok (last,trace)) ∧ trace.events.length = 2 := ⟨_,_,rfl,rfl⟩
  refine ⟨last,trace,done,length,?_⟩
  have exact_ := (events_right_iff oneProducer_configured _ _ _ _).2 2 3 last trace done
  refine exact_.2.mpr fun k index offered => oneProducer_supplied _ _ _ ?_
  cases k <;> rfl

/-- The flag of the producer happens to be set: the first event reads what no one put. -/
theorem first_event_stale : oneProducer.Configured ∧ ∃ last trace,
    processAll oneProducer SimpleSource.SingleThreaded.setEventInfo (fun _ => 0) 2 2
      (SimpleSource.SingleThreaded.construct 1) (constructed fun _ => true) =
        some (.ok (last,trace)) ∧
      ¬ ∀ record ∈ trace.events, Right oneProducer record.log := by
  obtain ⟨last,trace,done,logs⟩ : ∃ last trace,
      processAll oneProducer SimpleSource.SingleThreaded.setEventInfo (fun _ => 0) 2 2
        (SimpleSource.SingleThreaded.construct 1) (constructed fun _ => true) =
          some (.ok (last,trace)) ∧
        trace.events.map Record.log = [[.reached 0,.read (1,0) 0,.ran (.filter 0)]] := ⟨_,_,rfl,rfl⟩
  refine ⟨oneProducer_configured,last,trace,done,fun right => ?_⟩
  obtain ⟨record,member,log⟩ := List.mem_map.mp
    (logs ▸ List.mem_singleton.mpr rfl : [.reached 0,.read (1,0) 0,.ran (.filter 0)] ∈ trace.events.map Record.log)
  have put_ := (right record member).faithful [.reached 0] (1,0) 0 [.ran (.filter 0)] (by rw [log]; rfl)
  exact absurd put_ (by decide)

end Example
end ToyMtFramework.SingleThreadedEvents
