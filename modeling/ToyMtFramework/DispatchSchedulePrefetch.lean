import ToyMtFramework.DispatchScheduleGroups
import ToyMtFramework.ScheduleEventMeaning
import ToyMtFramework.SchedulePrefetch

/-! What the groups of the Dispatch framework are for. The work of a module is submitted when its prefetch
group is empty, and by then all that it gets is cached; the group of a product is empty when the
producer was run. A body is executed in the run queue of its wrapper, so no module is executed twice. -/
namespace ToyMtFramework.DispatchSchedule
open Activities Transition
open Schedule (Job Wrapper performers)
open Schedule.Loop (PutsAll)
open DispatchQueues (mark mark_self)

variable {L D E : Type} [DecidableEq L] [DecidableEq D]

def Fetched (job : Job L D E) (sh : Shared L D E) (w : Wrapper L D) : Prop :=
  ∀ g ∈ job.getters w, sh.wasCached g = true

def Asked (job : Job L D E) (sh : Shared L D E) (w : Wrapper L D) : Prop :=
  job.getters w = [] ∨ sh.requestedPrefetch w = true

def Known (job : Job L D E) (t : Worker L D) : Prop :=
  (job.module t.wrapper).isSome = true

@[simp] theorem fetched_withGroups (job : Job L D E) (sh : Shared L D E)
    (groups : DispatchGroups (GroupId L D)) (w : Wrapper L D) :
    Fetched job (sh.withGroups groups) w ↔ Fetched job sh w := Iff.rfl

@[simp] theorem asked_withGroups (job : Job L D E) (sh : Shared L D E)
    (groups : DispatchGroups (GroupId L D)) (w : Wrapper L D) :
    Asked job (sh.withGroups groups) w ↔ Asked job sh w := Iff.rfl

@[simp] theorem fetched_withQueues (job : Job L D E) (sh : Shared L D E)
    (queues : DispatchQueues (QueueId L D)) (w : Wrapper L D) :
    Fetched job (sh.withQueues queues) w ↔ Fetched job sh w := Iff.rfl

@[simp] theorem fetched_addTask (job : Job L D E) (sh : Shared L D E) (task : Task L D) (w : Wrapper L D) :
    Fetched job (sh.addTask task) w ↔ Fetched job sh w := Iff.rfl

def Covers (sh : Shared L D E) (puts : List (D × Int)) : Worker L D → Prop
  | .filterOnPath _ _ _ => True
  | .producer label product => sh.wasCached (.producer label product) = true ∨ product ∈ puts.map Prod.fst

def Stands (job : Job L D E) (sh : Shared L D E) : Frame L D E → Prop
  | .requestPrefetch t => Known job t
  | .prefetch t _ | .doProduceAsync t _ _ | .produceAsync t _ _ | .waitForGet t _ _ | .notifyGet t _ _
  | .notify _ (.work t) =>
    Known job t ∧ Asked job sh t.wrapper
  | .notified g since (.work t) =>
    Known job t ∧ Asked job sh t.wrapper ∧ Awaits sh.groups g since (Fetched job sh t.wrapper)
  | .notified (.produced g) since (.doneWithGet _) => Awaits sh.groups (.produced g) since (sh.wasRun g = true)
  | .block (.work t) | .addUnsafe t | .addWork t | .doWork t false => Known job t ∧ Fetched job sh t.wrapper
  | .queued _ task | .task task => Known job task.worker ∧ Fetched job sh task.worker.wrapper
  | .body t direct gs _ => direct = false ∧ sh.wasRun t.wrapper = false ∧ Known job t ∧ Fetched job sh t.wrapper ∧
    ∀ g ∈ gs, g ∈ job.getters t.wrapper
  | .put t direct puts => direct = false ∧ sh.wasRun t.wrapper = false ∧ Covers sh puts t
  | .setWasRun t direct => direct = false ∧ sh.wasRun t.wrapper = false ∧ Covers sh [] t
  | .doWork t true | .worked t _ => sh.wasRun t.wrapper = true
  | _ => True

def producing (g : Wrapper L D) : Frame L D E → Nat
  | .doProduceAsyncImpl w => mark (GroupId.produced w) (.produced g)
  | .doPrefetchAndWork t | .requestPrefetch t | .prefetch t _ | .doProduceAsync t _ _ | .produceAsync t _ _
  | .waitForGet t _ _ | .notifyGet t _ _ | .notify _ (.work t) | .notified _ _ (.work t) | .block (.work t) | .addUnsafe t
  | .addWork t | .doWork t _ | .body t _ _ _ | .put t _ _ | .setWasRun t _ => mark t.group (.produced g)
  | .queued _ task | .task task => mark task.worker.group (.produced g)
  | _ => 0

def Expects (g : Wrapper L D) : Frame L D E → Prop
  | .waitForGet _ v _ | .notifyGet _ v _ => v = g
  | .notify h (.doneWithGet _) | .notified h _ (.doneWithGet _) => h = .produced g
  | _ => False

def Fetches (w g : Wrapper L D) : Frame L D E → Prop
  | .prefetch t gs => t.wrapper = w ∧ g ∈ gs
  | .doProduceAsync t v gs | .produceAsync t v gs | .waitForGet t v gs | .notifyGet t v gs =>
    t.wrapper = w ∧ (g = v ∨ g ∈ gs)
  | .notify h (.doneWithGet v) | .notified h _ (.doneWithGet v) => v = w ∧ h = .produced g
  | _ => False

def performed (w : Wrapper L D) : Frame L D E → Nat
  | .put t _ _ | .setWasRun t _ => if t.wrapper = w then 1 else 0
  | _ => 0

structure Prefetching (job : Job L D E) (sh : Shared L D E) (bag : Multiset (Frame L D E)) : Prop where
  stands : ∀ f ∈ bag, Stands job sh f
  coming : ∀ g, ∀ f ∈ bag, Expects g f → sh.wasRun g = true ∨ 0 < weigh (producing g) bag
  fetching : ∀ w, sh.requestedPrefetch w = true → ∀ g ∈ job.getters w,
    sh.wasCached g = true ∨ ∃ f ∈ bag, Fetches w g f
  cached : ∀ label product, sh.wasRun (.producer label product) = true →
    sh.wasCached (.producer label product) = true
  once : ∀ w, (performers sh.log).count w = (sh.wasRun w).toNat + weigh (performed w) bag

section Steps
variable {job : Job L D E} {sh : Shared L D E} {f : Frame L D E} {r : Reaction (Shared L D E) (Frame L D E)}
  {bag rest : Multiset (Frame L D E)}

structure Grows (sh after : Shared L D E) : Prop where
  wasRun : ∀ w, sh.wasRun w = true → after.wasRun w = true
  wasCached : ∀ w, sh.wasCached w = true → after.wasCached w = true
  requestedPrefetch : ∀ w, sh.requestedPrefetch w = true → after.requestedPrefetch w = true

theorem setValue_wasCached (sh : Shared L D E) (label : L) (product : D) (value : Int) (w : Wrapper L D) :
    (sh.setValue label product value).wasCached w = true ↔
      w = .producer label product ∨ sh.wasCached w = true := by
  cases w with
  | filter other => simp [Shared.wasCached]
  | producer other item =>
    by_cases same : other = label
    · subst same
      by_cases equal : item = product
      · simp [Shared.wasCached,Shared.setValue,equal]
      · simp [Shared.wasCached,Shared.setValue,equal]
    · simp [Shared.wasCached,Shared.setValue,same]

theorem grows_react (reacts : Reacts job sh f r) : Grows sh r.shared := by
  cases reacts with
  | requestPrefetch t some first =>
    refine ⟨fun _ => id,fun _ => id,fun w set => ?_⟩
    by_cases same : w = t.wrapper
    · simp [same]
    · simpa [same] using set
  | put label product direct put puts known =>
    exact ⟨fun _ => id,fun w set => (setValue_wasCached sh label put.1 put.2 w).mpr (Or.inr set),fun _ => id⟩
  | setWasRun t direct =>
    refine ⟨fun w set => ?_,fun _ => id,fun _ => id⟩
    by_cases same : w = t.wrapper
    · simp [Shared.setWasRun,same]
    · simpa [Shared.setWasRun,same] using set
  | _ => exact ⟨fun _ => id,fun _ => id,fun _ => id⟩

theorem Grows.fetched {after : Shared L D E} {w : Wrapper L D} (grows : Grows sh after)
    (fetched : Fetched job sh w) : Fetched job after w :=
  fun g member => grows.wasCached g (fetched g member)

theorem Grows.asked {after : Shared L D E} {w : Wrapper L D} (grows : Grows sh after)
    (asked : Asked job sh w) : Asked job after w :=
  asked.imp id (grows.requestedPrefetch w)

theorem fetches_owes {w g : Wrapper L D} (fetches : Fetches w g f) : 0 < owes (.prefetch w) f := by
  cases f with
  | prefetch t gs | doProduceAsync t v gs | produceAsync t v gs | waitForGet t v gs =>
    obtain ⟨rfl,_⟩ := fetches
    simp [owes,mark]
  | notifyGet t v gs =>
    obtain ⟨rfl,_⟩ := fetches
    simp [owes,mark]
  | notify h b | notified h since b =>
    cases b with
    | doneWithGet v =>
      obtain ⟨rfl,_⟩ := fetches
      simp [owes,Block.owes,mark]
    | _ => cases fetches
  | _ => cases fetches

theorem producing_owes (g : Wrapper L D) (f : Frame L D E) : producing g f ≤ owes (.produced g) f := by
  cases f with
  | notify h b | notified h since b | block b => cases b <;> simp [producing,owes,Block.owes]
  | _ => simp [producing,owes]

/-- When the prefetch group is empty everything has been fetched. -/
theorem fetched_of_empty {w : Wrapper L D} (balanced : Balanced owes sh.groups bag)
    (fetching : ∀ w, sh.requestedPrefetch w = true → ∀ g ∈ job.getters w,
      sh.wasCached g = true ∨ ∃ f ∈ bag, Fetches w g f)
    (asked : Asked job sh w) (empty : sh.groups.count (.prefetch w) = 0) : Fetched job sh w := by
  intro g member
  rcases asked with none | requested
  · rw [none] at member
    cases member
  · rcases fetching w requested g member with there | ⟨f,present,fetches⟩
    · exact there
    · rw [balanced.count] at empty
      exact absurd (weigh_eq_zero empty present) (Nat.ne_of_gt (fetches_owes fetches))

/-- When the group of a product is empty the producer was run. -/
theorem ran_of_empty {g : Wrapper L D} (balanced : Balanced owes sh.groups bag)
    (coming : sh.wasRun g = true ∨ 0 < weigh (producing g) bag) (empty : sh.groups.count (.produced g) = 0) :
    sh.wasRun g = true := by
  rcases coming with ran | some
  · exact ran
  · have le := weigh_le (producing_owes (E := E) g) bag
    rw [balanced.count] at empty
    omega

theorem setWasRun_self (sh : Shared L D E) (t : Worker L D) : (sh.setWasRun t.wrapper).wasRun t.wrapper = true := by
  simp [Shared.setWasRun]

/-- The worker whose group is that of the product. -/
theorem group_produced {t : Worker L D} {g : Wrapper L D} (own : 0 < mark t.group (.produced g)) :
    t.wrapper = g := by
  unfold mark at own
  split at own
  · rename_i same
    cases t with
    | filterOnPath p i label => cases same
    | producer label product =>
      cases same
      rfl
  · cases own

theorem producing_react {g : Wrapper L D} (reacts : Reacts job sh f r) :
    r.shared.wasRun g = true ∨ producing g f ≤ weigh (producing g) r.frames := by
  have ran (t : Worker L D) (after : r.shared.wasRun t.wrapper = true) :
      r.shared.wasRun g = true ∨ mark t.group (.produced g) = 0 := by
    by_cases own : 0 < mark t.group (GroupId.produced g)
    · rw [← group_produced own]
      exact Or.inl after
    · exact Or.inr (by omega)
  cases reacts with
  | workDone t direct done =>
    refine (ran t done).imp id fun none => ?_
    simp [producing,none]
  | setWasRun t direct =>
    refine (ran t (setWasRun_self sh t)).imp id fun none => ?_
    simp [producing,none]
  | alreadyProduced label product done =>
    refine (ran (.producer label product) done).imp id fun none => ?_
    simpa [producing,Worker.group] using Nat.le_of_eq none
  | addTask t task kind =>
    subst kind
    right
    cases isUnsafe job t.wrapper <;> simp [producing,Shared.waits,Task.worker]
  | notifyNow h b empty | notify h b busy | notified h since b became =>
    right
    cases b <;> simp [producing]
  | _ =>
    right
    simp [producing,Shared.waits,Task.worker,Worker.group]

theorem expects_react {g : Wrapper L D} {h : Frame L D E} (member : h ∈ r.frames) (expects : Expects g h)
    (reacts : Reacts job sh f r) :
    Expects g f ∨ r.shared.wasRun g = true ∨ 0 < weigh (producing g) r.frames := by
  cases reacts with
  | produceDone t v gs ran =>
    obtain rfl : h = .waitForGet t v gs := by simpa using member
    obtain rfl : v = g := expects
    exact Or.inr (Or.inl ran)
  | produceAsync t v gs =>
    right
    right
    have place : h = .waitForGet t v gs ∨ h = .doProduceAsyncImpl v := by simpa using member
    rcases place with rfl | rfl
    · obtain rfl : v = g := expects
      simp [producing,mark_self]
    · cases expects
  | waitForGet t v gs =>
    obtain rfl : h = .notifyGet t v gs := by simpa using member
    exact Or.inl expects
  | notifyGet t v gs =>
    left
    have place : h = .notify (.produced v) (.doneWithGet t.wrapper) ∨ h = .prefetch t gs := by simpa using member
    rcases place with rfl | rfl
    · exact GroupId.produced.inj expects
    · cases expects
  | notify k b busy =>
    left
    obtain rfl : h = .notified k (sh.groups.emptied k) b := by simpa using member
    cases b with
    | doneWithGet w => exact expects
    | _ => cases expects
  | addTask t task kind =>
    obtain rfl : h = sh.waits task := by simpa using member
    cases expects
  | worked t direct =>
    cases t <;> cases direct <;> simp [Shared.informs] at member <;>
      rcases member with rfl | rfl <;> cases expects
  | _ =>
    exfalso
    simp only [Reaction.frames_mk,List.nil_append,List.cons_append,List.append_nil,Multiset.mem_coe,
      List.mem_cons,List.not_mem_nil,or_false] at member <;>
      first
      | (subst h; cases expects)
      | (rcases member with rfl | rfl <;> cases expects)

/-- What is being fetched will be cached, or it still is being fetched. -/
theorem fetches_react {w g : Wrapper L D} (fetches : Fetches w g f) (stands : Stands job sh f)
    (cached : sh.wasRun g = true → sh.wasCached g = true)
    (ran : Expects g f → sh.groups.count (.produced g) = 0 → sh.wasRun g = true) (reacts : Reacts job sh f r) :
    r.shared.wasCached g = true ∨ ∃ h ∈ r.frames, Fetches w g h := by
  cases reacts with
  | prefetched t =>
    obtain ⟨_,member⟩ := fetches
    cases member
  | cached t v gs known there =>
    obtain ⟨same,member⟩ := fetches
    rcases List.mem_cons.mp member with rfl | later
    · exact Or.inl there
    · exact Or.inr ⟨.prefetch t gs,by simp,same,later⟩
  | getAsync t v gs known missing =>
    obtain ⟨same,member⟩ := fetches
    exact Or.inr ⟨.doProduceAsync t v gs,by simp,same,List.mem_cons.mp member⟩
  | doProduceAsync t v gs unrun => exact Or.inr ⟨.produceAsync t v gs,by simp,fetches⟩
  | produceDone t v gs done | produceAsync t v gs => exact Or.inr ⟨.waitForGet t v gs,by simp,fetches⟩
  | waitForGet t v gs => exact Or.inr ⟨.notifyGet t v gs,by simp,fetches⟩
  | notifyGet t v gs =>
    right
    obtain ⟨same,rfl | later⟩ := fetches
    · exact ⟨.notify (.produced g) (.doneWithGet t.wrapper),by simp,same,rfl⟩
    · exact ⟨.prefetch t gs,by simp,same,later⟩
  | notifyNow h b empty =>
    cases b with
    | doneWithGet v =>
      obtain ⟨_,rfl⟩ := fetches
      exact Or.inl (cached (ran rfl empty))
    | _ => cases fetches
  | notify h b busy =>
    cases b with
    | doneWithGet v => exact Or.inr ⟨.notified h (sh.groups.emptied h) (.doneWithGet v),by simp,fetches⟩
    | _ => cases fetches
  | notified h since b became =>
    cases b with
    | doneWithGet v =>
      obtain ⟨_,rfl⟩ := fetches
      exact Or.inl (cached (stands.found became))
    | _ => cases fetches
  | _ => cases fetches

/-- The flag of a module is only set after its body. -/
theorem wasRun_react {w : Wrapper L D} (reacts : Reacts job sh f r) (ran : r.shared.wasRun w = true) :
    sh.wasRun w = true ∨ ∃ t direct, f = .setWasRun t direct ∧ t.wrapper = w := by
  cases reacts with
  | setWasRun t direct =>
    by_cases same : t.wrapper = w
    · exact Or.inr ⟨t,direct,rfl,same⟩
    · left
      simpa [Shared.setWasRun,Ne.symm same] using ran
  | _ => exact Or.inl ran

theorem requested_react {w : Wrapper L D} (reacts : Reacts job sh f r) (set : r.shared.requestedPrefetch w = true) :
    sh.requestedPrefetch w = true ∨ ∃ t, t.wrapper = w ∧ r.frames = {.prefetch t (job.getters w)} := by
  cases reacts with
  | requestPrefetch t some first =>
    by_cases same : t.wrapper = w
    · subst same
      exact Or.inr ⟨t,rfl,by simp⟩
    · left
      simpa [Ne.symm same] using set
  | _ => exact Or.inl set

/-- The body puts the product that its worker is for. -/
theorem covers_puts (putsAll : PutsAll job) {t : Worker L D} (known : Known job t) {seed index : Nat}
    {values : List Int} (returned : (job.perform t.wrapper seed index values).thrown = none) :
    Covers sh (t.puts (job.perform t.wrapper seed index values)) t := by
  cases t with
  | filterOnPath p i label => trivial
  | producer label product =>
    obtain ⟨m,found⟩ := Option.isSome_iff_exists.mp known
    have performed : job.perform (.producer label product) seed index values = m.perform seed index values := by
      simp only [Worker.wrapper] at found
      simp only [Schedule.Job.perform,found]
    have listed : m.label = label ∧ product ∈ m.products := by simpa using List.find?_some found
    simp only [Worker.wrapper,performed] at returned ⊢
    obtain ⟨value,put⟩ := putsAll m (List.mem_of_find?_eq_some found) seed index values returned product listed.2
    exact Or.inr (List.mem_map_of_mem put)

theorem Prefetching.fetched (prefetching : Prefetching job sh bag) (balanced : Balanced owes sh.groups bag)
    {w : Wrapper L D} (asked : Asked job sh w) (empty : sh.groups.count (.prefetch w) = 0) : Fetched job sh w :=
  fetched_of_empty balanced prefetching.fetching asked empty

theorem Prefetching.ran (prefetching : Prefetching job sh bag) (balanced : Balanced owes sh.groups bag)
    {g : Wrapper L D} (member : f ∈ bag) (expects : Expects g f) (empty : sh.groups.count (.produced g) = 0) :
    sh.wasRun g = true :=
  ran_of_empty balanced (prefetching.coming g f member expects) empty

theorem stands_new (putsAll : PutsAll job) (ordered : Ordered job sh (f ::ₘ rest))
    (prefetching : Prefetching job sh (f ::ₘ rest)) (reacts : Reacts job sh f r) :
    ∀ h ∈ r.frames, Stands job r.shared h := by
  have first := Multiset.mem_cons_self f rest
  have stands := prefetching.stands f first
  have proper := ordered.proper f first
  cases reacts with
  | filterDone p i label calm at_i ran => simpa [Stands,Worker.wrapper] using ran
  | doPrefetchAndWork t known => simpa [Stands,Known] using known
  | requested t before => simpa [Stands,Asked] using And.intro stands before
  | requestPrefetch t some first =>
    have asked : Asked job {sh with requestedPrefetch := Function.update sh.requestedPrefetch t.wrapper true}
        t.wrapper := Or.inr (Function.update_self ..)
    simpa [Stands] using And.intro stands asked
  | prefetched t | cached t v gs known there | getAsync t v gs known missing | produceDone t v gs ran
  | doProduceAsync t v gs unrun | produceAsync t v gs | waitForGet t v gs | notifyGet t v gs =>
    simpa [Stands] using stands
  | notifyNow g b empty =>
    cases b with
    | work t =>
      obtain ⟨known,asked⟩ := stands
      obtain rfl : g = .prefetch t.wrapper := proper
      simpa [Stands] using And.intro known (prefetching.fetched ordered.balanced asked empty)
    | _ => simp [Stands]
  | notify g b busy =>
    cases b with
    | work t =>
      obtain ⟨known,asked⟩ := stands
      simpa [Stands] using ⟨known,asked,Awaits.start _ (Nat.pos_of_ne_zero busy)⟩
    | doneWithGet w =>
      obtain ⟨v,_,rfl⟩ := proper
      simpa [Stands] using Awaits.start _ (Nat.pos_of_ne_zero busy)
    | scheduleCallback => simp [Stands]
  | notified g since b became =>
    cases b with
    | work t =>
      obtain ⟨known,_,awaits⟩ := stands
      simpa [Stands] using And.intro known (awaits.found became)
    | _ => simp [Stands]
  | addTask t task kind =>
    have worker : task.worker = t := by
      subst kind
      cases isUnsafe job t.wrapper <;> rfl
    simpa [Stands,Shared.waits,worker] using stands
  | queued turn task queues began => simpa [Stands] using stands
  | doWorkTask t | suspendRunQueue t | addUnsafe t | suspendUnsafeQueue t | addWork t =>
    simpa [Stands,Shared.waits,Task.worker] using stands
  | workDone t direct ran => simpa [Stands] using ran
  | doWork t direct unrun =>
    cases direct with
    | false => simpa [Stands] using And.intro unrun stands
    | true => exact absurd stands (Bool.eq_false_iff.mp unrun)
  | get t direct g gs values there =>
    obtain ⟨queued,unrun,known,fetched,needed⟩ := stands
    have later : ∀ v ∈ gs, v ∈ job.getters t.wrapper := fun v member => needed v (List.mem_cons_of_mem g member)
    simpa [Stands] using ⟨queued,unrun,known,fetched,later⟩
  | body t direct values seed returned =>
    obtain ⟨queued,unrun,known,_⟩ := stands
    simpa [Stands] using ⟨queued,unrun,covers_puts putsAll known returned⟩
  | putsDone t direct => simpa [Stands] using stands
  | put label product direct put puts known =>
    obtain ⟨queued,unrun,covers⟩ := stands
    have later : Covers (sh.setValue label put.1 put.2) puts (.producer label product) := by
      rcases covers with there | member
      · exact Or.inl ((setValue_wasCached ..).mpr (Or.inr there))
      · rcases List.mem_cons.mp member with rfl | member
        · exact Or.inl ((setValue_wasCached ..).mpr (Or.inl rfl))
        · exact Or.inr member
    simpa [Stands] using ⟨queued,unrun,later⟩
  | setWasRun t direct => simpa [Stands] using setWasRun_self sh t
  | worked t direct => cases t <;> cases direct <;> simp [Stands,Shared.informs]
  | _ => simp [Stands]

/-- Where other frames are stays true: only the worker of a module sets its flag. -/
theorem stands_keep (ordered : Ordered job sh (f ::ₘ rest)) (prefetching : Prefetching job sh (f ::ₘ rest))
    (reacts : Reacts job sh f r) (balanced : Balanced owes r.shared.groups (r.frames + rest))
    (coming : ∀ g, ∀ h ∈ r.frames + rest, Expects g h →
      r.shared.wasRun g = true ∨ 0 < weigh (producing g) (r.frames + rest))
    (fetching : ∀ w, r.shared.requestedPrefetch w = true → ∀ g ∈ job.getters w,
      r.shared.wasCached g = true ∨ ∃ h ∈ r.frames + rest, Fetches w g h) :
    ∀ h ∈ rest, Stands job r.shared h := by
  intro h member
  have grows := grows_react reacts
  have stands := prefetching.stands h (Multiset.mem_cons_of_mem member)
  have still (t : Worker L D) (unrun : sh.wasRun t.wrapper = false)
      (works : 0 < DispatchSchedule.working t.wrapper h) : r.shared.wasRun t.wrapper = false := by
    refine Bool.eq_false_iff.mpr fun ran => ?_
    rcases wasRun_react reacts ran with before | ⟨u,direct,rfl,same⟩
    · exact Bool.eq_false_iff.mp unrun before
    · obtain ⟨rfl,_⟩ := prefetching.stands _ (Multiset.mem_cons_self _ _)
      have one := ordered.working_le_one t.wrapper
      have other : 0 < weigh (DispatchSchedule.working t.wrapper) rest := weigh_pos member works
      rw [weigh_cons] at one
      simp only [DispatchSchedule.working,if_pos same] at one
      omega
  cases h with
  | requestPrefetch t => exact stands
  | prefetch t gs | doProduceAsync t g gs | produceAsync t g gs | waitForGet t g gs | notifyGet t g gs =>
    exact ⟨stands.1,grows.asked stands.2⟩
  | notify g b =>
    cases b with
    | work t => exact ⟨stands.1,grows.asked stands.2⟩
    | _ => trivial
  | notified g since b =>
    have proper := ordered.proper _ (Multiset.mem_cons_of_mem member)
    cases b with
    | work t =>
      obtain ⟨known,asked,awaits⟩ := stands
      obtain rfl : g = .prefetch t.wrapper := proper
      exact ⟨known,grows.asked asked,awaits.step (advances_react reacts) grows.fetched
        (fetched_of_empty balanced fetching (grows.asked asked))⟩
    | doneWithGet w =>
      obtain ⟨v,_,rfl⟩ := proper
      have here : .notified (.produced v) since (.doneWithGet w) ∈ r.frames + rest := Multiset.mem_add.mpr (Or.inr member)
      exact Awaits.step stands (advances_react reacts) (grows.wasRun v)
        (ran_of_empty balanced (coming v _ here rfl))
    | scheduleCallback => cases g <;> trivial
  | block b =>
    cases b with
    | work t => exact ⟨stands.1,grows.fetched stands.2⟩
    | _ => trivial
  | addUnsafe t | addWork t | queued turn task | task task => exact ⟨stands.1,grows.fetched stands.2⟩
  | doWork t direct =>
    cases direct with
    | false => exact ⟨stands.1,grows.fetched stands.2⟩
    | true => exact grows.wasRun _ stands
  | body t direct gs values =>
    obtain ⟨rfl,unrun,known,fetched,needed⟩ := stands
    exact ⟨rfl,still t unrun (by simp [DispatchSchedule.working]),known,grows.fetched fetched,needed⟩
  | put t direct puts | setWasRun t direct =>
    obtain ⟨rfl,unrun,covers⟩ := stands
    refine ⟨rfl,still t unrun (by simp [DispatchSchedule.working]),?_⟩
    cases t with
    | filterOnPath p i label => trivial
    | producer label product => exact covers.imp (grows.wasCached _) id
  | worked t direct => exact grows.wasRun _ stands
  | _ => trivial

/-- A body that is executed is one that has not been, and its flag is set once. -/
theorem performed_react (stands : Stands job sh f) (reacts : Reacts job sh f r) (w : Wrapper L D) :
    (performers r.shared.log).count w + (sh.wasRun w).toNat + performed w f =
      (performers sh.log).count w + (r.shared.wasRun w).toNat + weigh (performed w) r.frames := by
  cases reacts with
  | body t direct values seed returned =>
    obtain ⟨_,_,known,_⟩ := stands
    have entry (outcome : Schedule.Outcome D E) :
        performers (sh.log ++ [.performed t.wrapper outcome]) = performers sh.log ++ [t.wrapper] := by
      simp [performers,Schedule.Entry.performer]
    simp only [Shared.ran,entry,List.count_append,List.count_singleton,performed,Reaction.frames_mk]
    simp [performed]
    omega
  | setWasRun t direct =>
    obtain ⟨_,unrun,_⟩ := stands
    by_cases same : t.wrapper = w
    · subst same
      simp [Shared.setWasRun,performed,unrun]
    · simp [Shared.setWasRun,performed,same,Ne.symm same]
  | putsDone t direct | put label product direct put puts known => simp [performed,Shared.setValue]
  | worked t direct => cases t <;> cases direct <;> simp [performed,Shared.informs]
  | _ => simp [performed,Shared.withGroups,Shared.withQueues,Shared.addTask,Shared.waits]

theorem Prefetching.react (putsAll : PutsAll job) (ordered : Ordered job sh (f ::ₘ rest))
    (prefetching : Prefetching job sh (f ::ₘ rest)) (reacts : Reacts job sh f r) :
    Prefetching job r.shared (r.frames + rest) := by
  have grows := grows_react reacts
  have first := Multiset.mem_cons_self f rest
  have stands := prefetching.stands f first
  have balanced := (ordered.react reacts).balanced
  have coming (g : Wrapper L D) (h : Frame L D E) (member : h ∈ r.frames + rest) (expects : Expects g h) :
      r.shared.wasRun g = true ∨ 0 < weigh (producing g) (r.frames + rest) := by
    have later (counts : sh.wasRun g = true ∨ 0 < weigh (producing g) (f ::ₘ rest)) :
        r.shared.wasRun g = true ∨ 0 < weigh (producing g) (r.frames + rest) := by
      rcases counts with ran | some
      · exact Or.inl (grows.wasRun g ran)
      · refine (producing_react reacts).imp id fun le => ?_
        rw [weigh_cons] at some
        rw [weigh_add]
        omega
    rcases Multiset.mem_add.mp member with new | old
    · rcases expects_react new expects reacts with before | ran | some
      · exact later (prefetching.coming g f first before)
      · exact Or.inl ran
      · right
        rw [weigh_add]
        omega
    · exact later (prefetching.coming g h (Multiset.mem_cons_of_mem old) expects)
  have fetching (w : Wrapper L D) (set : r.shared.requestedPrefetch w = true) (g : Wrapper L D)
      (needed : g ∈ job.getters w) : r.shared.wasCached g = true ∨ ∃ h ∈ r.frames + rest, Fetches w g h := by
    rcases requested_react reacts set with before | ⟨t,same,frames⟩
    · rcases prefetching.fetching w before g needed with there | ⟨h,member,fetches⟩
      · exact Or.inl (grows.wasCached g there)
      · rcases Multiset.mem_cons.mp member with rfl | old
        · have cached : sh.wasRun g = true → sh.wasCached g = true := by
            obtain ⟨m,_,named,_,rfl⟩ := Schedule.getters_known job needed
            exact prefetching.cached named.1 named.2
          refine (fetches_react fetches stands cached (prefetching.ran ordered.balanced first) reacts).imp id ?_
          rintro ⟨g,new,fetches⟩
          exact ⟨g,Multiset.mem_add.mpr (Or.inl new),fetches⟩
        · exact Or.inr ⟨h,Multiset.mem_add.mpr (Or.inr old),fetches⟩
    · rw [frames]
      exact Or.inr ⟨.prefetch t (job.getters w),by simp,same,needed⟩
  refine ⟨fun h member => ?_,coming,fetching,?_,?_⟩
  · rcases Multiset.mem_add.mp member with new | old
    · exact stands_new putsAll ordered prefetching reacts h new
    · exact stands_keep ordered prefetching reacts balanced coming fetching h old
  · intro label product ran
    rcases wasRun_react reacts ran with before | ⟨t,direct,rfl,same⟩
    · exact grows.wasCached _ (prefetching.cached label product before)
    · obtain ⟨_,_,covers⟩ := stands
      cases t with
      | filterOnPath p i other => cases same
      | producer other item =>
        cases same
        rcases covers with there | none
        · exact grows.wasCached _ there
        · cases none
  · intro w
    have before := prefetching.once w
    have change := performed_react stands reacts w
    rw [weigh_cons] at before
    rw [weigh_add]
    omega

theorem Ready.prefetching {eventIndex : Nat} (ready : Ready sh eventIndex) :
    Prefetching job (processing job sh).shared (processing job sh).bag := by
  refine ⟨?_,?_,?_,?_,?_⟩
  · simp [processing,Pool.bag,Stands]
  · simp [processing,Pool.bag,Expects]
  · intro w set
    simp [processing,ready.requestedPrefetch] at set
  · intro label product ran
    simp [processing,ready.wasRun] at ran
  · intro w
    simp [processing,Pool.bag,ready.log,ready.wasRun,performed,performers]

end Steps
end ToyMtFramework.DispatchSchedule
