import ToyMtFramework.OpenMPGet

/-! What the frames of the OpenMP framework can do, branch by branch. -/
namespace ToyMtFramework.OpenMP
open Activities

variable {L D E : Type} [DecidableEq L] [DecidableEq D]

inductive Reacts (job : Job L D E) (sh : Shared L D E) :
    Frame L D E → Reaction (Shared L D E) (Frame L D E) → Prop
  | add (r : Option Nat) (w : ModuleWrapper L D) (t : TaskId L D) (waiting : (sh.list w).waiting = true) :
      Reacts job sh ⟨r,.doWorkAsync w t⟩ ⟨sh,[⟨r,.startWork w⟩],[⟨none,.node w t⟩]⟩
  | addLate (r : Option Nat) (w : ModuleWrapper L D) (t : TaskId L D)
      (waiting : (sh.list w).waiting = false) : Reacts job sh ⟨r,.doWorkAsync w t⟩
        ⟨sh,[⟨r,.doneWaitingTask t (sh.list w).exceptionPtr⟩,⟨r,.startWork w⟩],[]⟩
  | startRefused (r : Option Nat) (w : ModuleWrapper L D) (started : sh.workStarted w = true) :
      Reacts job sh ⟨r,.startWork w⟩ ⟨sh,[],[]⟩
  | startWork (r : Option Nat) (w : ModuleWrapper L D) (started : sh.workStarted w = false) :
      Reacts job sh ⟨r,.startWork w⟩ ⟨sh.start w,[⟨r,.prefetch w (job.getters w)⟩],[]⟩
  | prefetched (r : Option Nat) (w : ModuleWrapper L D) :
      Reacts job sh ⟨r,.prefetch w []⟩ ⟨sh,[⟨r,.decrement (.runModule w)⟩],[]⟩
  | prefetch (r : Option Nat) (w g : ModuleWrapper L D) (gs : List (ModuleWrapper L D)) :
      Reacts job sh ⟨r,.prefetch w (g :: gs)⟩
        ⟨sh.hold (.runModule w),[⟨r,.doWorkAsync g (.runModule w)⟩,⟨r,.prefetch w gs⟩],[]⟩
  | doneWaitingTask (r : Option Nat) (t : TaskId L D) (e : Option E) :
      Reacts job sh ⟨r,.doneWaitingTask t e⟩ ⟨sh.dependentTaskFailed t e,[⟨r,.decrement t⟩],[]⟩
  | decrementLast (r : Option Nat) (t : TaskId L D) (last : sh.refCount t = 1) :
      Reacts job sh ⟨r,.decrement t⟩ ⟨sh.drop t,[],t.spawned r⟩
  | decrement (r : Option Nat) (t : TaskId L D) (more : sh.refCount t ≠ 1) :
      Reacts job sh ⟨r,.decrement t⟩ ⟨sh.drop t,[],[]⟩
  | node (r q : Option Nat) (w : ModuleWrapper L D) (t : TaskId L D)
      (waiting : (sh.list w).waiting = false) :
      Reacts job sh ⟨r,.node w t⟩ ⟨sh,[⟨q,.doneWaitingTask t (sh.list w).exceptionPtr⟩],[]⟩
  | execute (r : Option Nat) (w : ModuleWrapper L D) : Reacts job sh ⟨r,.execute w⟩
      ⟨sh,[⟨r,.runModule w (sh.exceptionPtr (.runModule w))⟩],[]⟩
  | push (r : Option Nat) (w : ModuleWrapper L D) : Reacts job sh ⟨r,.execute w⟩
      ⟨sh,[],[⟨none,.queued w (sh.exceptionPtr (.runModule w))⟩]⟩
  | queued (r k : Option Nat) (w : ModuleWrapper L D) (e : Option E) (q : Queue L D) :
      Reacts job sh ⟨r,.queued w e⟩ ⟨sh.choose q true,[⟨k,.runModule w e⟩,⟨k,.finishedTask q⟩],[]⟩
  | finishedTask (r : Option Nat) (q : Queue L D) :
      Reacts job sh ⟨r,.finishedTask q⟩ ⟨sh.choose q false,[],[]⟩
  | runModule (r : Option Nat) (w : ModuleWrapper L D) (program : Program L D E) :
      Reacts job sh ⟨r,.runModule w none⟩ ⟨sh,[⟨r,.body w program⟩],[]⟩
  | moduleFailed (r : Option Nat) (w : ModuleWrapper L D) (e : E) :
      Reacts job sh ⟨r,.runModule w (some e)⟩ ⟨sh,[⟨r,.doneWaiting w (some e)⟩],[]⟩
  | get (r : Option Nat) (w target : ModuleWrapper L D) (label : L) (product : D)
      (next : Except E Int → Program L D E) (known : target = ⟨w.stream,.producer label product⟩)
      (producer : (job.producerOf target.key).isSome = true) :
      Reacts job sh ⟨r,.body w (.get label product next)⟩
        ⟨sh.beginGet job w,[⟨r,.get w target sh.pauseCount next⟩],[]⟩
  | getPrefetched (r : Option Nat) (w : ModuleWrapper L D) (label : L) (product : D)
      (next : Int → Program L D E) (value : Int) :
      Reacts job sh ⟨r,.body w (.getPrefetched label product next)⟩ ⟨sh,[⟨r,.body w (next value)⟩],[]⟩
  | put (r : Option Nat) (w : ModuleWrapper L D) (label : L) (key product : D) (value : Int)
      (next : Program L D E) (producer : w.key = .producer label key)
      (known : (job.producerOf (.producer label product)).isSome = true) :
      Reacts job sh ⟨r,.body w (.put product value next)⟩
        ⟨sh.setValue ⟨w.stream,.producer label product⟩ value,[⟨r,.body w next⟩],[]⟩
  | finish (r : Option Nat) (w : ModuleWrapper L D) :
      Reacts job sh ⟨r,.body w .finish⟩ ⟨sh.ended w none,[⟨r,.doneWaiting w none⟩],[]⟩
  | throw (r : Option Nat) (w : ModuleWrapper L D) (e : E) :
      Reacts job sh ⟨r,.body w (.throw e)⟩ ⟨sh.ended w (some e),[⟨r,.doneWaiting w (some e)⟩],[]⟩
  | cached (r : Option Nat) (w target : ModuleWrapper L D) (found : Nat)
      (next : Except E Int → Program L D E) (wasCached : (sh.cache target).wasCached = true) :
      Reacts job sh ⟨r,.get w target found next⟩
        ⟨sh.endGet w target found (.ok (sh.cache target).value),
          [⟨r,.body w (next (.ok (sh.cache target).value))⟩],[]⟩
  | parallel (r : Option Nat) (w target : ModuleWrapper L D) (found : Nat)
      (next : Except E Int → Program L D E) (missing : (sh.cache target).wasCached = false) :
      Reacts job sh ⟨r,.get w target found next⟩
        ⟨{sh.hold (.doneTask sh.regions target) with regions := sh.regions + 1},
          [⟨some sh.regions,.doWorkAsync target (.doneTask sh.regions target)⟩,
            ⟨r,.regionEnd sh.regions w target found next⟩],[]⟩
  | regionEnd (r : Option Nat) (k : Nat) (w target : ModuleWrapper L D) (found : Nat)
      (next : Except E Int → Program L D E) : Reacts job sh ⟨r,.regionEnd k w target found next⟩
        ⟨sh.endGet w target found (sh.waited k target),[⟨r,.body w (next (sh.waited k target))⟩],[]⟩
  | doneWaiting (r : Option Nat) (w : ModuleWrapper L D) (e : Option E) :
      Reacts job sh ⟨r,.doneWaiting w e⟩ ⟨sh.doneWaiting w e,[],[]⟩

theorem react_reacts {job : Job L D E} {sh : Shared L D E} {f : Frame L D E} {choice : Choice}
    {r : Reaction (Shared L D E) (Frame L D E)} (reacted : react job sh f choice = some r) :
    Reacts job sh f r := by
  obtain ⟨region,stage⟩ := f
  unfold react at reacted
  simp only at reacted
  split at reacted
  · split at reacted
    · cases reacted
    · split at reacted <;> cases reacted
      · exact .add _ _ _ ‹_›
      · exact .addLate _ _ _ (by simpa using ‹¬_ = true›)
  · split at reacted <;> cases reacted
    · exact .startRefused _ _ ‹_›
    · exact .startWork _ _ (by simpa using ‹¬_ = true›)
  · cases reacted
    exact .prefetched _ _
  · cases reacted
    exact .prefetch _ _ _ _
  · cases reacted
    exact .doneWaitingTask _ _ _
  · cases reacted
    split
    · exact .decrementLast _ _ ‹_›
    · exact .decrement _ _ ‹_›
  · split at reacted <;> cases reacted
    exact .node _ _ _ _ (by simpa using ‹¬_ = true›)
  · split at reacted <;> cases reacted
    · exact .execute _ _
    · exact .push _ _
  · split at reacted
    · cases reacted
    · split at reacted <;> cases reacted
      exact .queued _ _ _ _ _
  · cases reacted
    exact .finishedTask _ _
  · cases reacted
    exact .runModule _ _ _
  · cases reacted
    exact .moduleFailed _ _ _
  · split at reacted <;> cases reacted
    exact .get _ _ _ _ _ _ rfl (Option.isNone_eq_false_iff.mp (Bool.eq_false_iff.mpr ‹_›))
  · split at reacted <;> cases reacted
    exact .getPrefetched _ _ _ _ _ _
  · split at reacted
    · cases reacted
    · rename_i producer
      split at reacted <;> cases reacted
      exact .put _ _ _ _ _ _ _ producer (Option.isNone_eq_false_iff.mp (Bool.eq_false_iff.mpr ‹_›))
  · cases reacted
    exact .finish _ _
  · cases reacted
    exact .throw _ _ _
  · split at reacted <;> cases reacted
    · exact .cached _ _ _ _ _ ‹_›
    · exact .parallel _ _ _ _ _ (by simpa using ‹¬_ = true›)
  · cases reacted
    exact .regionEnd _ _ _ _ _ _
  · cases reacted
    exact .doneWaiting _ _ _

end ToyMtFramework.OpenMP
