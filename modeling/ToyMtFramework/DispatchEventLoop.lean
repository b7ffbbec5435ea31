import ToyMtFramework.Core.Activities
import ToyMtFramework.EventLoop

/-! The event loop of the Dispatch framework. Each context gets an event from the source in a block on the
global queue, which is concurrent, and comes back when all paths of its schedule are done. The source
counts in a plain variable, and each read and each write of it is a step. Modules do not fail. -/
namespace ToyMtFramework.DispatchEventLoop
open Activities Transition
open EventLoop (sizeBound)

/-- Whether the comparison in `setEventInfo` reads the counter again or uses the value just written is up
to the compiler. -/
structure Config where
  numConcurrentEvents : Nat
  nEvents : Nat
  paths : Nat
  rereads : Bool

/-- The counts of the two kinds of groups are of the blocks and paths that have entered and not left. -/
structure Shared where
  seenEvents : Nat
  index : Nat → Nat
  eventLoopGroup : Nat
  allPathsDoneGroup : Nat → Nat
  returned : Bool
  /-- The indices of the events accepted and the contexts that were refused, in order. -/
  accepted : List Nat
  refused : List Nat

/-- What a thread is about to do for context `i`. The frames from `getAndProcess` to `compare` are the
call of `setEventInfo`; `inBlock` tells that the callback is made by the block itself. -/
inductive Frame where
  | processAll (contexts : List Nat)
  | wait
  | getAndProcess (i : Nat)
  | increment (i : Nat)
  | store (i n : Nat)
  | compare (i n : Nat)
  | process (i : Nat)
  | launch (i paths : Nat)
  | processPresentPath (i : Nat)
  | runAsync (i : Nat)
  | pathBlockEnds (i : Nat)
  | scheduleCallback (i : Nat)
  | filter (i : Nat) (inBlock : Bool)
  | leave (inBlock : Bool)
  | blockEnds
  deriving DecidableEq

def Shared.enterLoop (sh : Shared) : Shared :=
  {sh with eventLoopGroup := sh.eventLoopGroup + 1}

def Shared.leaveLoop (sh : Shared) : Shared :=
  {sh with eventLoopGroup := sh.eventLoopGroup - 1}

def Shared.enterPaths (sh : Shared) (i : Nat) : Shared :=
  {sh with allPathsDoneGroup := Function.update sh.allPathsDoneGroup i (sh.allPathsDoneGroup i + 1)}

def Shared.leavePaths (sh : Shared) (i : Nat) : Shared :=
  {sh with allPathsDoneGroup := Function.update sh.allPathsDoneGroup i (sh.allPathsDoneGroup i - 1)}

def compared (c : Config) (sh : Shared) (n : Nat) : Nat :=
  if c.rereads then sh.seenEvents else n

def react (c : Config) (sh : Shared) : Frame → Unit → Option (Reaction Shared Frame)
  | .processAll [], _ => some ⟨sh,[.wait],[]⟩
  | .processAll (i :: is), _ => some ⟨sh.enterLoop,[.processAll is],[.getAndProcess i]⟩
  | .wait, _ => if sh.eventLoopGroup = 0 then some ⟨{sh with returned := true},[],[]⟩ else none
  | .getAndProcess i, _ =>
    some ⟨{sh with index := Function.update sh.index i sh.seenEvents},[.increment i],[]⟩
  | .increment i, _ => some ⟨sh,[.store i ((sh.seenEvents + 1) % sizeBound)],[]⟩
  | .store i n, _ => some ⟨{sh with seenEvents := n},[.compare i n],[]⟩
  | .compare i n, _ =>
    if c.nEvents ≥ compared c sh n then
      some ⟨{sh with accepted := sh.accepted ++ [sh.index i]},[.process i],[]⟩
    else some ⟨{sh with refused := sh.refused ++ [i]},[.blockEnds],[]⟩
  | .process i, _ => some ⟨sh.enterLoop,[.launch i c.paths],[]⟩
  | .launch i 0, _ =>
    if c.paths = 0 then some ⟨sh,[.filter i true],[]⟩
    else some ⟨sh,[.blockEnds],[.scheduleCallback i]⟩
  | .launch i (paths + 1), _ => some ⟨sh.enterPaths i,[.launch i paths],[.processPresentPath i]⟩
  | .processPresentPath i, _ => some ⟨sh.enterPaths i,[.pathBlockEnds i],[.runAsync i]⟩
  -- The filters of the path have run and its callback leaves the group.
  | .runAsync i, _ => some ⟨sh.leavePaths i,[],[]⟩
  | .pathBlockEnds i, _ => some ⟨sh.leavePaths i,[],[]⟩
  | .scheduleCallback i, _ => if sh.allPathsDoneGroup i = 0 then some ⟨sh,[.filter i false],[]⟩ else none
  | .filter i inBlock, _ => some ⟨sh.enterLoop,[.leave inBlock],[.getAndProcess i]⟩
  | .leave inBlock, _ => some ⟨sh.leaveLoop,if inBlock then [.blockEnds] else [],[]⟩
  | .blockEnds, _ => some ⟨sh.leaveLoop,[],[]⟩

abbrev State := Pool Shared Frame

def next (c : Config) (s : State) (k : Nat) : Option State :=
  s.step (react c) k ()

/-- There is at least the context of the processor itself, which is launched last. -/
def Config.contexts (c : Config) : List Nat :=
  List.range' 1 (c.numConcurrentEvents - 1) ++ [0]

def initial (c : Config) : State where
  threads := [[.processAll c.contexts]]
  shared :=
    { seenEvents := 0
      index := fun _ => 0
      eventLoopGroup := 0
      allPathsDoneGroup := fun _ => 0
      returned := false
      accepted := []
      refused := [] }

def Frame.asking : Frame → Bool
  | .increment _ | .store _ _ | .compare _ _ => true
  | _ => false

def Serial (s : State) (k : Nat) : Prop :=
  ∀ i, s.top k = some (.getAndProcess i) → ∀ f ∈ s.bag, f.asking = false

inductive Reacts (c : Config) (sh : Shared) : Frame → Reaction Shared Frame → Prop
  | launched : Reacts c sh (.processAll []) ⟨sh,[.wait],[]⟩
  | processAll (i : Nat) (is : List Nat) :
      Reacts c sh (.processAll (i :: is)) ⟨sh.enterLoop,[.processAll is],[.getAndProcess i]⟩
  | wait (empty : sh.eventLoopGroup = 0) : Reacts c sh .wait ⟨{sh with returned := true},[],[]⟩
  | getAndProcess (i : Nat) : Reacts c sh (.getAndProcess i)
      ⟨{sh with index := Function.update sh.index i sh.seenEvents},[.increment i],[]⟩
  | increment (i : Nat) :
      Reacts c sh (.increment i) ⟨sh,[.store i ((sh.seenEvents + 1) % sizeBound)],[]⟩
  | store (i n : Nat) : Reacts c sh (.store i n) ⟨{sh with seenEvents := n},[.compare i n],[]⟩
  | accept (i n : Nat) (more : compared c sh n ≤ c.nEvents) : Reacts c sh (.compare i n)
      ⟨{sh with accepted := sh.accepted ++ [sh.index i]},[.process i],[]⟩
  | refuse (i n : Nat) (none : c.nEvents < compared c sh n) : Reacts c sh (.compare i n)
      ⟨{sh with refused := sh.refused ++ [i]},[.blockEnds],[]⟩
  | process (i : Nat) : Reacts c sh (.process i) ⟨sh.enterLoop,[.launch i c.paths],[]⟩
  | noPaths (i : Nat) (none : c.paths = 0) : Reacts c sh (.launch i 0) ⟨sh,[.filter i true],[]⟩
  | allLaunched (i : Nat) : Reacts c sh (.launch i 0) ⟨sh,[.blockEnds],[.scheduleCallback i]⟩
  | launch (i paths : Nat) : Reacts c sh (.launch i (paths + 1))
      ⟨sh.enterPaths i,[.launch i paths],[.processPresentPath i]⟩
  | processPresentPath (i : Nat) :
      Reacts c sh (.processPresentPath i) ⟨sh.enterPaths i,[.pathBlockEnds i],[.runAsync i]⟩
  | runAsync (i : Nat) : Reacts c sh (.runAsync i) ⟨sh.leavePaths i,[],[]⟩
  | pathBlockEnds (i : Nat) : Reacts c sh (.pathBlockEnds i) ⟨sh.leavePaths i,[],[]⟩
  | scheduleCallback (i : Nat) (empty : sh.allPathsDoneGroup i = 0) :
      Reacts c sh (.scheduleCallback i) ⟨sh,[.filter i false],[]⟩
  | filter (i : Nat) (inBlock : Bool) :
      Reacts c sh (.filter i inBlock) ⟨sh.enterLoop,[.leave inBlock],[.getAndProcess i]⟩
  | leave (inBlock : Bool) :
      Reacts c sh (.leave inBlock) ⟨sh.leaveLoop,if inBlock then [.blockEnds] else [],[]⟩
  | blockEnds : Reacts c sh .blockEnds ⟨sh.leaveLoop,[],[]⟩

theorem react_reacts {c : Config} {sh : Shared} {f : Frame} {r : Reaction Shared Frame}
    (reacted : react c sh f () = some r) : Reacts c sh f r := by
  unfold react at reacted
  split at reacted
  · cases reacted
    exact .launched
  · cases reacted
    exact .processAll _ _
  · split at reacted <;> cases reacted
    exact .wait ‹_›
  · cases reacted
    exact .getAndProcess _
  · cases reacted
    exact .increment _
  · cases reacted
    exact .store _ _
  · split at reacted <;> cases reacted
    · exact .accept _ _ ‹_›
    · exact .refuse _ _ (Nat.lt_of_not_le ‹_›)
  · cases reacted
    exact .process _
  · split at reacted <;> cases reacted
    · exact .noPaths _ ‹_›
    · exact .allLaunched _
  · cases reacted
    exact .launch _ _
  · cases reacted
    exact .processPresentPath _
  · cases reacted
    exact .runAsync _
  · cases reacted
    exact .pathBlockEnds _
  · split at reacted <;> cases reacted
    exact .scheduleCallback _ ‹_›
  · cases reacted
    exact .filter _ _
  · cases reacted
    exact .leave _
  · cases reacted
    exact .blockEnds

end ToyMtFramework.DispatchEventLoop
