import ToyMtFramework.OpenMPGet

/-! The waiting lists of the modules of the OpenMP framework, with the calls of `add` and `announce`.
Where `OpenMP` lets a task of a finished module be released in any region, here a thread takes the nodes
out of the list and walks along them, in the region it works for. What a node is linked to is left to the
model of one list; a node is known by its list and its task. -/
namespace ToyMtFramework.OpenMP.Announce
open Activities Transition

variable {L D E : Type}

/-- From `announce` on `after` tells that the exchange of `m_workStarted` follows: `announce` is part of
`add` then, and of `doneWaiting` otherwise. -/
inductive ListStage (L D E : Type) where
  | act (stage : Stage L D E)
  /-- `add` has found `m_waiting` true and is about to put its node in the list. -/
  | add (w : ModuleWrapper L D) (t : TaskId L D)
  | recheck (w : ModuleWrapper L D)
  | announce (w : ModuleWrapper L D) (after : Bool)
  | walk (w : ModuleWrapper L D) (nodes : List (TaskId L D)) (after : Bool)
  /-- The task of a node is released, its `m_fromCache` is still to be looked at. -/
  | look (w : ModuleWrapper L D) (nodes : List (TaskId L D)) (after : Bool)

structure ListFrame (L D E : Type) where
  region : Option Nat
  stage : ListStage L D E

structure ListShared (L D E : Type) where
  base : Shared L D E
  /-- The nodes behind the `m_head` of each list, the newest first. -/
  heads : List (ModuleWrapper L D × TaskId L D)
  /-- What has happened so far: the regions that one was opened in, from itself outwards. -/
  nest : Nat → List Nat

/-- What is in region `r` is in region `q` as well. -/
def ListShared.within (sh : ListShared L D E) : Option Nat → Option Nat → Bool
  | _, none => true
  | none, some _ => false
  | some j, some k => decide (k ∈ sh.nest j)

def ListShared.enclosing (sh : ListShared L D E) (r : Option Nat) : List Nat :=
  r.elim [] sh.nest

section Machine
variable [DecidableEq L] [DecidableEq D]

def ListShared.nodes (sh : ListShared L D E) (w : ModuleWrapper L D) : List (TaskId L D) :=
  (sh.heads.filter fun node => node.1 = w).map Prod.snd

def ListShared.adds (sh : ListShared L D E) : Stage L D E → Option (ModuleWrapper L D × TaskId L D)
  | .doWorkAsync w t => if (sh.base.list w).waiting then some (w,t) else none
  | _ => none

/-- A frame of region `r` has left `base` behind. -/
def ListShared.after (sh : ListShared L D E) (r : Option Nat) (base : Shared L D E) : ListShared L D E where
  base := base
  heads := sh.heads
  nest :=
    if base.regions = sh.base.regions then sh.nest
    else Function.update sh.nest sh.base.regions (sh.base.regions :: sh.enclosing r)

/-- `doneWaiting` of a list ends with `announce`. -/
def announcement (r : Option Nat) : Stage L D E → List (ListFrame L D E)
  | .doneWaiting w _ => [⟨r,.announce w false⟩]
  | _ => []

def lift (f : Frame L D E) : ListFrame L D E :=
  ⟨f.region,.act f.stage⟩

def react (job : Job L D E) (sh : ListShared L D E) (f : ListFrame L D E) (choice : Choice) :
    Option (Reaction (ListShared L D E) (ListFrame L D E)) :=
  let r := f.region
  match f.stage with
  | .act (.node _ _) => none
  | .act stage => (OpenMP.react job sh.base ⟨r,stage⟩ choice).map fun reaction =>
    match sh.adds stage with
    | some (w,t) => ⟨sh,[⟨r,.add w t⟩],[]⟩
    | none => ⟨sh.after r reaction.shared,reaction.calls.map lift ++ announcement r stage,
        reaction.spawned.map lift⟩
  | .add w t =>
    some ⟨{sh with heads := (w,t) :: sh.heads},
      if sh.nodes w = [] then [⟨r,.recheck w⟩] else [⟨r,.act (.startWork w)⟩],[]⟩
  | .recheck w =>
    some ⟨sh,if (sh.base.list w).waiting then [⟨r,.act (.startWork w)⟩] else [⟨r,.announce w true⟩],[]⟩
  | .announce w after =>
    some ⟨{sh with heads := sh.heads.filter fun node => node.1 ≠ w},[⟨r,.walk w (sh.nodes w) after⟩],[]⟩
  | .walk w [] after => some ⟨sh,if after then [⟨r,.act (.startWork w)⟩] else [],[]⟩
  | .walk w (t :: nodes) after =>
    some ⟨sh,[⟨r,.act (.doneWaitingTask t (sh.base.list w).exceptionPtr)⟩,⟨r,.look w nodes after⟩],[]⟩
  | .look w nodes after => some ⟨sh,[⟨r,.walk w nodes after⟩],[]⟩

/-- As for `OpenMP.regions`, the end of a region waits until no frame of the region is left. -/
def regions : Queues (ListFrame L D E) Nat where
  waits f := match f.stage with
    | .act (.regionEnd k _ _ _ _) => some k
    | _ => none
  executes f := f.region

abbrev State (L D E : Type) := Pool (ListShared L D E) (ListFrame L D E)

/-- The region has not come to its end. -/
def opened (s : State L D E) (region : Option Nat) : Bool :=
  region.all fun k => s.threads.flatten.any fun f => regions.waits f = some k

/-- A thread acts, a path asks for a filter or anyone for a producer, or the next event of a stream
begins. Paths go on in the region in which what they have waited for is released. -/
inductive Action (L D : Type) where
  | act (thread : Nat) (choice : Choice)
  | request (w : ModuleWrapper L D) (region : Option Nat)
  | reset (stream : Nat)
  deriving DecidableEq

def ListShared.hold (sh : ListShared L D E) (t : TaskId L D) : ListShared L D E :=
  {sh with base := sh.base.hold t}

def ListShared.reset (sh : ListShared L D E) (stream : Nat) : ListShared L D E :=
  {sh with base := sh.base.reset stream}

def next (job : Job L D E) (s : State L D E) : Action L D → Option (State L D E)
  | .act thread choice =>
    if opened s choice.region then regions.step (react job) s thread choice else none
  | .request w region =>
    if opened s region then
      some ⟨s.shared.hold .outside,s.threads ++ [[⟨region,.act (.doWorkAsync w .outside)⟩]]⟩
    else none
  | .reset stream => some {s with shared := s.shared.reset stream}

end Machine

def initial (L D E : Type) : State L D E where
  threads := []
  shared :=
    { base := (OpenMP.initial L D E).shared
      heads := []
      nest := fun _ => [] }

end ToyMtFramework.OpenMP.Announce
