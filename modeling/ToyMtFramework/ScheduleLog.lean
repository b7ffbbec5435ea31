import ToyMtFramework.ScheduleLoopRule
import ToyMtFramework.ScheduleExceptions

/-! What the modules of an event have done, as its log has it. A waiting list that is done was
told so once, a filter keeps what its last body returned, a product is cached if and only if it was
put in this event, and a body is only run when all that it gets has been produced. -/
namespace ToyMtFramework.Schedule
open Activities Transition
open Loop (filterLabels lookupMap wrappers wrappers_known History)

variable {L D E : Type} [DecidableEq L] [DecidableEq D]

def Entry.finish (w : Wrapper L D) : Entry L D E → Option (Option E)
  | .finished v e => if w = v then some e else none
  | _ => none

def Entry.puts (label : L) (product : D) : Entry L D E → List Int
  | .performed (.producer l _) outcome =>
    if l = label then outcome.puts.filterMap fun put => if put.1 = product then some put.2 else none else []
  | _ => []

def finishes (w : Wrapper L D) (log : List (Entry L D E)) : List (Option E) :=
  log.filterMap (Entry.finish w)

def puts (label : L) (product : D) (log : List (Entry L D E)) : List Int :=
  log.flatMap (Entry.puts label product)

def DataCache.cached (cache : DataCache) : Option Int :=
  if cache.wasCached then some cache.value else none

theorem mem_finishes {w : Wrapper L D} {e : Option E} {log : List (Entry L D E)} :
    e ∈ finishes w log ↔ .finished w e ∈ log := by
  unfold finishes
  rw [List.mem_filterMap]
  constructor
  · rintro ⟨entry,member,equal⟩
    cases entry with
    | finished v x =>
      by_cases same : w = v
      · simp only [Entry.finish,if_pos same,Option.some.injEq] at equal
        rwa [same,← equal]
      · simp [Entry.finish,same] at equal
    | _ => cases equal
  · intro member
    exact ⟨.finished w e,member,by simp [Entry.finish]⟩

theorem mem_puts {label : L} {product : D} {v : Int} {log : List (Entry L D E)} :
    v ∈ puts label product log ↔
      ∃ d outcome, .performed (.producer label d) outcome ∈ log ∧ (product,v) ∈ outcome.puts := by
  unfold puts
  rw [List.mem_flatMap]
  constructor
  · rintro ⟨entry,logged,put⟩
    cases entry with
    | performed w outcome =>
      cases w with
      | filter l => cases put
      | producer l d =>
        by_cases same : l = label
        · subst l
          rw [Entry.puts,if_pos rfl] at put
          obtain ⟨⟨other,value⟩,inside,equal⟩ := List.mem_filterMap.mp put
          by_cases same : other = product
          · subst other
            rw [if_pos rfl] at equal
            obtain rfl := Option.some.inj equal
            exact ⟨d,outcome,logged,inside⟩
          · simp [same] at equal
        · simp [Entry.puts,same] at put
    | _ => cases put
  · rintro ⟨d,outcome,logged,put⟩
    refine ⟨_,logged,?_⟩
    rw [Entry.puts,if_pos rfl]
    exact List.mem_filterMap.mpr ⟨(product,v),put,by simp⟩

section Cache
variable (cache : L → D → DataCache) (label l : L) (product : D)

theorem putAll_other (list : List (D × Int)) (other : l ≠ label) :
    putAll cache label list l = cache l := by
  induction list generalizing cache with
  | nil => rfl
  | cons put rest ih =>
    rw [putAll,List.foldl_cons,← putAll,ih,Function.update_of_ne other]

/-- What `Event::put` leaves in the cache is the last value that was put. -/
theorem putAll_cached (list : List (D × Int)) : (putAll cache label list label product).cached =
    ((list.filterMap fun put => if put.1 = product then some put.2 else none).getLast?).or
      (cache label product).cached := by
  induction list generalizing cache with
  | nil => rfl
  | cons put rest ih =>
    rw [putAll,List.foldl_cons,← putAll,ih]
    by_cases same : put.1 = product
    · subst product
      rw [List.filterMap_cons_some (by rw [if_pos rfl])]
      cases last : (rest.filterMap fun other => if other.1 = put.1 then some other.2 else none).getLast? with
      | none =>
        have nothing := List.getLast?_eq_none_iff.mp last
        rw [nothing]
        simp [DataCache.cached]
      | some value => simp [List.getLast?_cons,last]
    · rw [List.filterMap_cons_none (by rw [if_neg same])]
      simp [Ne.symm same]

end Cache

section Steps
variable {job : Job L D E} {sh : Shared L D E} {f : Frame L D E} {r : Reaction (Shared L D E) (Frame L D E)}
  {rest : Multiset (Frame L D E)} {log es : List (Entry L D E)}

def Told (sh : Shared L D E) (log : List (Entry L D E)) : Prop :=
  ∀ w, finishes w log = if (sh.list (.waitingTasks w)).waiting then []
    else [(sh.list (.waitingTasks w)).exceptionPtr]

theorem Told.finished (told : Told sh log) {w : Wrapper L D} {e : Option E} :
    .finished w e ∈ log ↔
      (sh.list (.waitingTasks w)).waiting = false ∧ e = (sh.list (.waitingTasks w)).exceptionPtr := by
  rw [← mem_finishes,told w]
  cases (sh.list (.waitingTasks w)).waiting <;> simp

theorem Told.unique (told : Told sh log) {w : Wrapper L D} {e x : Option E}
    (first : .finished w e ∈ log) (second : .finished w x ∈ log) : e = x := by
  rw [(told.finished.mp first).2,(told.finished.mp second).2]

theorem waitingTasks_react (reacts : Reacts job sh f r) (w : Wrapper L D)
    (other : ∀ e, f ≠ .doneWaiting (.waitingTasks w) e) :
    r.shared.list (.waitingTasks w) = sh.list (.waitingTasks w) := by
  cases reacts with
  | doneWaiting l e =>
    have distinct : .waitingTasks w ≠ l := by
      rintro rfl
      exact other e rfl
    simp [Shared.setList,distinct]
  | _ => simp [Shared.hold,Shared.drop,Shared.setList,Shared.setIndex,Shared.request,Shared.start,
      Shared.dependentTaskFailed,Shared.fail,Shared.finish]

theorem Told.react (told : Told sh log) (counts : Counts job sh (f ::ₘ rest)) (logs : Logs job sh f r es) :
    Told r.shared (log ++ es) := by
  intro w
  have before := told w
  have kept (none : es.filterMap (Entry.finish w) = []) (other : ∀ e, f ≠ .doneWaiting (.waitingTasks w) e) :
      finishes w (log ++ es) = if (r.shared.list (.waitingTasks w)).waiting then []
        else [(r.shared.list (.waitingTasks w)).exceptionPtr] := by
    rw [waitingTasks_react logs.reacts w other,← before,finishes,List.filterMap_append,none,List.append_nil]
    rfl
  cases logs with
  | silent _ _ reacts silent _ =>
    refine kept rfl ?_
    rintro e rfl
    cases silent
  | finished v e =>
    by_cases same : w = v
    · subst v
      rw [counts.closing_waiting (Multiset.mem_cons_self _ _),if_pos rfl] at before
      rw [finishes,List.filterMap_append]
      rw [finishes] at before
      simp [before,Entry.finish,Shared.setList]
    · exact kept (by simp [Entry.finish,same]) (by simp [Ne.symm same])
  | _ => exact kept (by simp [Entry.finish]) (by simp)

theorem filter_listed {label : L} (known : (job.module (.filter label)).isSome = true) :
    label ∈ filterLabels job := by
  have member := wrappers_known known
  simpa [wrappers] using member

theorem product_listed {label : L} {product : D}
    (known : (job.module (.producer label product)).isSome = true) : (label,product) ∈ lookupMap job := by
  have member := wrappers_known known
  simpa [wrappers] using member

/-- A module that is worked for is known and was asked for. -/
theorem working_asked (counts : Counts job sh (f ::ₘ rest)) (history : History job sh (f ::ₘ rest))
    {w : Wrapper L D} (working : working w f = 1) : (job.module w).isSome = true ∧ ∃ t, WaitsFor job w t := by
  have module := counts.modules w
  rw [weigh_cons,working] at module
  have started : sh.workStarted w = true := by
    by_contra unstarted
    rw [if_neg unstarted] at module
    omega
  obtain ⟨known,t,request⟩ := history.started w started
  exact ⟨known,t,history.requests _ request⟩

def Kept (job : Job L D E) (sh : Shared L D E) (log : List (Entry L D E)) : Prop :=
  ∀ label, sh.keep label = true → label ∈ filterLabels job ∧
    ∃ outcome, .performed (.filter label) outcome ∈ log ∧ outcome.keep = true ∧ outcome.thrown = none

theorem Kept.react (kept : Kept job sh log) (counts : Counts job sh (f ::ₘ rest))
    (history : History job sh (f ::ₘ rest)) (logs : Logs job sh f r es) : Kept job r.shared (log ++ es) := by
  intro label keeps
  have old (was : sh.keep label = true) : label ∈ filterLabels job ∧ ∃ outcome,
      .performed (.filter label) outcome ∈ log ++ es ∧ outcome.keep = true ∧ outcome.thrown = none := by
    obtain ⟨listed,outcome,member,kept⟩ := kept label was
    exact ⟨listed,outcome,List.mem_append_left _ member,kept⟩
  cases logs with
  | performed w values seed outcome performed =>
    cases w with
    | producer l product => exact old keeps
    | filter l =>
      cases thrown : outcome.thrown with
      | some x => exact old (by simpa [Shared.finish,thrown] using keeps)
      | none =>
        by_cases same : label = l
        · subst l
          have returned : outcome.keep = true := by simpa [Shared.finish,thrown] using keeps
          refine ⟨filter_listed (working_asked counts history (by simp [working])).1,outcome,?_,returned,thrown⟩
          exact List.mem_append_right _ (List.mem_singleton.mpr rfl)
        · exact old (by simpa [Shared.finish,thrown,same] using keeps)
  | silent _ _ reacts silent _ =>
    cases reacts with
    | body _ _ _ _ _ => cases silent
    | _ => exact old keeps
  | runAsync p _ reacts =>
    cases reacts <;> exact old keeps
  | _ => exact old keeps

def Cached (job : Job L D E) (sh : Shared L D E) (log : List (Entry L D E)) : Prop :=
  ∀ k ∈ lookupMap job, (sh.cache k.1 k.2).cached = (puts k.1 k.2 log).getLast?

theorem Cached.react (cached : Cached job sh log) (logs : Logs job sh f r es) :
    Cached job r.shared (log ++ es) := by
  intro k listed
  have old (same : r.shared.cache k.1 = sh.cache k.1) (none : es.flatMap (Entry.puts k.1 k.2) = []) :
      (r.shared.cache k.1 k.2).cached = (puts k.1 k.2 (log ++ es)).getLast? := by
    rw [same,cached k listed,puts,puts,List.flatMap_append,none,List.append_nil]
  cases logs with
  | performed w values seed outcome performed =>
    cases w with
    | filter l => exact old rfl rfl
    | producer l product =>
      by_cases same : l = k.1
      · subst l
        have before := cached k listed
        rw [puts] at before ⊢
        rw [List.flatMap_append,List.getLast?_append,← before]
        simp [Shared.finish,putAll_cached,Entry.puts]
      · refine old ?_ (by simp [Entry.puts,same])
        exact putAll_other _ _ _ _ (Ne.symm same)
  | silent _ _ reacts silent _ =>
    cases reacts with
    | body _ _ _ _ _ => cases silent
    | _ => exact old rfl rfl
  | runAsync p _ reacts =>
    cases reacts <;> exact old rfl rfl
  | _ => exact old rfl rfl

def Supplied (job : Job L D E) (log : List (Entry L D E)) (w : Wrapper L D) : Prop :=
  ∀ g ∈ job.getters w, .finished g none ∈ log

/-- What is known when a frame that works for a module is on a thread. -/
def Backed (job : Job L D E) (log : List (Entry L D E)) : Frame L D E → Prop
  | .queued w none | .runModule w none | .body w _ _ => Supplied job log w
  | .doneWaiting (.waitingTasks w) none => ∃ outcome, .performed w outcome ∈ log ∧ outcome.thrown = none
  | _ => True

omit [DecidableEq L] [DecidableEq D] in
theorem mem_extended {entry : Entry L D E} (member : entry ∈ log) : entry ∈ log ++ es :=
  List.mem_append_left es member

theorem Backed.extend {g : Frame L D E} (backed : Backed job log g) : Backed job (log ++ es) g := by
  unfold Backed at backed ⊢
  split at backed
  · exact fun h needed => mem_extended (backed h needed)
  · exact fun h needed => mem_extended (backed h needed)
  · exact fun h needed => mem_extended (backed h needed)
  · obtain ⟨outcome,member,returned⟩ := backed
    exact ⟨outcome,mem_extended member,returned⟩
  · trivial

/-- A frame that is on the way to get `g` for module `w`. -/
def Fetches (log : List (Entry L D E)) (w g : Wrapper L D) : Frame L D E → Prop
  | .prefetch v gs => v = w ∧ g ∈ gs
  | .doWorkAsync h (.runModule v) | .node (.waitingTasks h) (.runModule v) => v = w ∧ h = g
  | .doneWaitingTask (.runModule v) e => v = w ∧ .finished g e ∈ log
  | _ => False

/-- The task that runs module `w` knows how `g` finished. -/
def Delivered (sh : Shared L D E) (log : List (Entry L D E)) (w g : Wrapper L D) : Prop :=
  ∃ e, .finished g e ∈ log ∧ (e ≠ none → sh.exceptionPtr (.runModule w) ≠ none)

def Fetched (job : Job L D E) (sh : Shared L D E) (bag : Multiset (Frame L D E)) (log : List (Entry L D E)) :
    Prop :=
  ∀ w, sh.workStarted w = true → ∀ g ∈ job.getters w,
    (∃ h ∈ bag, Fetches log w g h) ∨ Delivered sh log w g

theorem Fetches.owner {w g : Wrapper L D} {h : Frame L D E} (fetches : Fetches log w g h) :
    0 < owns (.runModule w) h := by
  unfold Fetches at fetches
  split at fetches
  · simp [owns,fetches.1]
  · simp [owns,fetches.1]
  · simp [owns,fetches.1]
  · simp [owns,fetches.1]
  · exact absurd fetches id

omit [DecidableEq L] [DecidableEq D] in
theorem Fetches.extend {w g : Wrapper L D} {h : Frame L D E} (fetches : Fetches log w g h) :
    Fetches (log ++ es) w g h := by
  unfold Fetches at fetches ⊢
  split at fetches
  · exact fetches
  · exact fetches
  · exact fetches
  · exact ⟨fetches.1,mem_extended fetches.2⟩
  · exact absurd fetches id

theorem Delivered.react {w g : Wrapper L D} (delivered : Delivered sh log w g) (reacts : Reacts job sh f r) :
    Delivered r.shared (log ++ es) w g := by
  obtain ⟨e,member,failed⟩ := delivered
  exact ⟨e,mem_extended member,fun raised => exceptionPtr_react (failed raised) reacts⟩

/-- The frame that was on the way hands over to the next one, or delivers. -/
theorem Fetches.react {w g : Wrapper L D} (fetches : Fetches log w g f) (told : Told sh log)
    (reacts : Reacts job sh f r) :
    (∃ h ∈ r.frames, Fetches (log ++ es) w g h) ∨ Delivered r.shared (log ++ es) w g := by
  cases reacts with
  | prefetched v => simp [Fetches] at fetches
  | prefetch v h gs =>
    obtain ⟨rfl,needed⟩ := fetches
    rcases List.mem_cons.mp needed with rfl | later
    · exact Or.inl ⟨.doWorkAsync g (.runModule v),by simp,rfl,rfl⟩
    · exact Or.inl ⟨.prefetch v gs,by simp,rfl,later⟩
  | add v t known waiting =>
    cases t with
    | runModule u => exact Or.inl ⟨.node (.waitingTasks v) (.runModule u),by simp,fetches⟩
    | nextFilter p => exact absurd fetches id
    | allPathsDone => exact absurd fetches id
  | addLate v t known waiting =>
    cases t with
    | runModule u =>
      obtain ⟨rfl,rfl⟩ := fetches
      refine Or.inl ⟨.doneWaitingTask (.runModule u) (sh.list (.waitingTasks v)).exceptionPtr,by simp,rfl,
        mem_extended ?_⟩
      exact told.finished.mpr ⟨waiting,rfl⟩
    | nextFilter p => exact absurd fetches id
    | allPathsDone => exact absurd fetches id
  | node l t waiting =>
    cases l with
    | callback p => exact absurd fetches id
    | waitingTasks v =>
      cases t with
      | runModule u =>
        obtain ⟨rfl,rfl⟩ := fetches
        refine Or.inl ⟨.doneWaitingTask (.runModule u) (sh.list (.waitingTasks v)).exceptionPtr,by simp,rfl,
        mem_extended ?_⟩
        exact told.finished.mpr ⟨waiting,rfl⟩
      | nextFilter p => exact absurd fetches id
      | allPathsDone => exact absurd fetches id
  | doneWaitingTask t e =>
    cases t with
    | runModule v =>
      obtain ⟨rfl,finished⟩ := fetches
      refine Or.inr ⟨e,mem_extended finished,fun raised => ?_⟩
      simp only [Shared.dependentTaskFailed,Function.update_self]
      intro cleared
      exact raised (Option.or_eq_none_iff.mp cleared).2
    | nextFilter p => exact absurd fetches id
    | allPathsDone => exact absurd fetches id
  | _ => exact absurd fetches id

theorem started_react {w : Wrapper L D} (reacts : Reacts job sh f r) (started : r.shared.workStarted w = true) :
    sh.workStarted w = true ∨ .prefetch w (job.getters w) ∈ r.frames := by
  cases reacts with
  | startWork v added unstarted =>
    by_cases same : w = v
    · subst v
      exact Or.inr (by simp)
    · exact Or.inl (by simpa [Shared.hold,Shared.start,same] using started)
  | _ => exact Or.inl started

theorem Fetched.react (fetched : Fetched job sh (f ::ₘ rest) log) (told : Told sh log)
    (reacts : Reacts job sh f r) : Fetched job r.shared (r.frames + rest) (log ++ es) := by
  intro w started g needed
  rcases started_react reacts started with was | begun
  · rcases fetched w was g needed with ⟨h,member,fetches⟩ | delivered
    · rcases Multiset.mem_cons.mp member with rfl | other
      · have goes : (∃ h ∈ r.frames, Fetches (log ++ es) w g h) ∨ Delivered r.shared (log ++ es) w g :=
          fetches.react told reacts
        rcases goes with ⟨h,member,fetches⟩ | delivered
        · exact Or.inl ⟨h,Multiset.mem_add.mpr (Or.inl member),fetches⟩
        · exact Or.inr delivered
      · exact Or.inl ⟨h,Multiset.mem_add.mpr (Or.inr other),fetches.extend⟩
    · exact Or.inr (delivered.react reacts)
  · exact Or.inl ⟨.prefetch w (job.getters w),Multiset.mem_add.mpr (Or.inl begun),rfl,needed⟩

/-- When its task is run without an exception, a module has all that it gets. -/
theorem Fetched.supplied {bag : Multiset (Frame L D E)} (fetched : Fetched job sh bag log)
    (counts : Counts job sh bag) {w : Wrapper L D} (member : .execute (.runModule w) ∈ bag)
    (succeeded : sh.exceptionPtr (.runModule w) = none) : Supplied job log w := by
  have module := counts.modules w
  have working : 0 < weigh (working w) bag := weigh_pos member (by simp [working])
  have started : sh.workStarted w = true := by
    by_contra unstarted
    rw [if_neg unstarted] at module
    omega
  rw [if_pos started] at module
  intro g needed
  rcases fetched w started g needed with ⟨h,inside,fetches⟩ | ⟨e,finished,failed⟩
  · have held := counts.owned inside fetches.owner
    omega
  · have normal : e = none := by
      by_contra raised
      exact failed raised succeeded
    rwa [normal] at finished

theorem Backed.react (backed : Backed job log f) (fetched : Fetched job sh (f ::ₘ rest) log)
    (counts : Counts job sh (f ::ₘ rest)) (logs : Logs job sh f r es) :
    ∀ g ∈ r.frames, Backed job (log ++ es) g := by
  have executed (w : Wrapper L D) (same : f = .execute (.runModule w))
      (succeeded : sh.exceptionPtr (.runModule w) = none) : Supplied job log w :=
    fetched.supplied counts (by rw [same]; exact Multiset.mem_cons_self _ _) succeeded
  cases logs with
  | silent _ _ reacts silent _ =>
    cases reacts with
    | executeQueued w queue =>
      intro g member
      obtain rfl : g = .queued w _ := by simpa using member
      cases failed : sh.exceptionPtr (.runModule w) with
      | none => exact fun h needed => mem_extended (executed w rfl failed h needed)
      | some x => trivial
    | executeModule w queue =>
      intro g member
      obtain rfl : g = .runModule w _ := by simpa using member
      cases failed : sh.exceptionPtr (.runModule w) with
      | none => exact fun h needed => mem_extended (executed w rfl failed h needed)
      | some x => trivial
    | queued w e =>
      intro g member
      obtain rfl : g = .runModule w e := by simpa using member
      cases e with
      | none => exact fun h needed => mem_extended (backed h needed)
      | some x => trivial
    | runModule w =>
      intro g member
      obtain rfl : g = .body w (job.getters w) [] := by simpa using member
      exact fun h needed => mem_extended (backed h needed)
    | read w h gs values =>
      intro g member
      obtain rfl : g = .body w gs (values ++ [sh.get h]) := by simpa using member
      exact fun h needed => mem_extended (backed h needed)
    | moduleFailed w e | runFatal p i fatal | filterStopped p i e label at_i stopped =>
      intro g member
      simp only [Reaction.frames_mk,List.append_nil,Multiset.mem_coe,List.mem_singleton] at member
      subst member
      trivial
    | body _ _ _ _ _ => cases silent
    | runEmpty _ _ => cases silent
    | runAsync _ _ => cases silent
    | doneWaiting _ _ => cases silent
    | _ => simp [Backed]
  | runAsync p _ reacts =>
    cases reacts <;> simp [Backed]
  | performed w values seed outcome performed =>
    intro g member
    obtain rfl : g = .doneWaiting (.waitingTasks w) outcome.thrown := by simpa using member
    cases thrown : outcome.thrown with
    | none => exact ⟨outcome,by simp,thrown⟩
    | some x => trivial
  | requested p i label fatal at_i => simp [Backed]
  | finished w e => simp
  | reported p e => simp

structure Performed (job : Job L D E) (log : List (Entry L D E)) (w : Wrapper L D) (outcome : Outcome D E) :
    Prop where
  known : (job.module w).isSome = true
  asked : ∃ t, WaitsFor job w t
  returned : ∃ seed index values, outcome = job.perform w seed index values
  supplied : Supplied job log w

structure ModulesLogged (job : Job L D E) (log : List (Entry L D E)) : Prop where
  once : ∀ w, (finishes w log).length ≤ 1
  performed : ∀ w outcome, .performed w outcome ∈ log → Performed job log w outcome
  normal : ∀ w, .finished w none ∈ log → ∃ outcome, .performed w outcome ∈ log ∧ outcome.thrown = none

structure ModulesRight (job : Job L D E) (sh : Shared L D E) (bag : Multiset (Frame L D E))
    (log : List (Entry L D E)) : Prop where
  told : Told sh log
  kept : Kept job sh log
  cached : Cached job sh log
  backed : ∀ f ∈ bag, Backed job log f
  fetched : Fetched job sh bag log
  logged : ModulesLogged job log
  unstarted : ∀ w, sh.workStarted w = false → sh.exceptionPtr (.runModule w) = none

theorem Told.once (told : Told sh log) (w : Wrapper L D) : (finishes w log).length ≤ 1 := by
  rw [told w]
  split <;> simp

theorem ModulesLogged.unique (logged : ModulesLogged job log) {w : Wrapper L D} {e x : Option E}
    (first : .finished w e ∈ log) (second : .finished w x ∈ log) : e = x := by
  have once := logged.once w
  have first := mem_finishes.mpr first
  have second := mem_finishes.mpr second
  cases list : finishes w log with
  | nil =>
    rw [list] at first
    cases first
  | cons y ys =>
    rw [list,List.length_cons] at once
    have none : ys = [] := List.length_eq_zero_iff.mp (by omega)
    rw [list,none,List.mem_singleton] at first second
    rw [first,second]

theorem ModulesLogged.react (right : ModulesRight job sh (f ::ₘ rest) log)
    (counts : Counts job sh (f ::ₘ rest)) (history : History job sh (f ::ₘ rest))
    (logs : Logs job sh f r es) : ModulesLogged job (log ++ es) := by
  have told := right.told.react counts logs
  have backed := right.backed f (Multiset.mem_cons_self f rest)
  have old {w : Wrapper L D} {outcome : Outcome D E} (member : .performed w outcome ∈ log) :
      Performed job (log ++ es) w outcome := by
    obtain ⟨known,asked,returned,supplied⟩ := right.logged.performed w outcome member
    exact ⟨known,asked,returned,fun g needed => mem_extended (supplied g needed)⟩
  have earlier {w : Wrapper L D} (member : .finished w none ∈ log) :
      ∃ outcome, .performed w outcome ∈ log ++ es ∧ outcome.thrown = none := by
    obtain ⟨outcome,member,returned⟩ := right.logged.normal w member
    exact ⟨outcome,mem_extended member,returned⟩
  refine ⟨told.once,?_,?_⟩
  · intro w outcome member
    rcases List.mem_append.mp member with member | new
    · exact old member
    · cases logs with
      | performed v values seed other performed =>
        cases List.mem_singleton.mp new
        obtain ⟨known,asked⟩ := working_asked counts history (w := w) (by simp [working])
        exact ⟨known,asked,⟨seed,_,values,performed⟩,fun g needed => mem_extended (backed g needed)⟩
      | silent _ _ _ _ _ => cases new
      | _ => cases List.mem_singleton.mp new
  · intro w member
    rcases List.mem_append.mp member with member | new
    · exact earlier member
    · cases logs with
      | finished v e =>
        cases List.mem_singleton.mp new
        obtain ⟨outcome,member,returned⟩ := backed
        exact ⟨outcome,mem_extended member,returned⟩
      | silent _ _ _ _ _ => cases new
      | _ => cases List.mem_singleton.mp new

theorem unstarted_react (counts : Counts job sh (f ::ₘ rest)) (reacts : Reacts job sh f r)
    (unstarted : ∀ w, sh.workStarted w = false → sh.exceptionPtr (.runModule w) = none) (w : Wrapper L D)
    (still : r.shared.workStarted w = false) : r.shared.exceptionPtr (.runModule w) = none := by
  cases reacts with
  | doneWaitingTask t e =>
    have other : .runModule w ≠ t := by
      rintro rfl
      have started := counts.owner_started (Multiset.mem_cons_self _ _) (w := w) (by simp [owns])
      have contra : sh.workStarted w = false := still
      rw [started] at contra
      cases contra
    simpa [Shared.dependentTaskFailed,other] using unstarted w still
  | startWork v added fresh =>
    by_cases same : w = v
    · simp [Shared.hold,Shared.start,same] at still
    · exact unstarted w (by simpa [Shared.hold,Shared.start,same] using still)
  | _ => exact unstarted w still

theorem ModulesRight.react (right : ModulesRight job sh (f ::ₘ rest) log)
    (counts : Counts job sh (f ::ₘ rest)) (history : History job sh (f ::ₘ rest))
    (logs : Logs job sh f r es) : ModulesRight job r.shared (r.frames + rest) (log ++ es) := by
  refine ⟨right.told.react counts logs,right.kept.react counts history logs,right.cached.react logs,?_,
    right.fetched.react right.told logs.reacts,ModulesLogged.react right counts history logs,
    unstarted_react counts logs.reacts right.unstarted⟩
  intro g member
  rcases Multiset.mem_add.mp member with new | old
  · exact (right.backed f (Multiset.mem_cons_self f rest)).react right.fetched counts logs g new
  · exact (right.backed g (Multiset.mem_cons_of_mem old)).extend

end Steps
end ToyMtFramework.Schedule
