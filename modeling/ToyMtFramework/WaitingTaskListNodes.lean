import ToyMtFramework.WaitingTaskListAccess
import ToyMtFramework.Core.DetachStack
import Mathlib.Data.List.Basic

/-! Where the nodes of a `WaitingTaskList` are during a round.
The chain that starts at `m_head` is a stack that `announce` detaches as a whole.
A link is set after its node is pushed, so the chain is followed up to links that
their `add` calls have still to write. -/
namespace ToyMtFramework.WaitingTaskList
open DetachStack

variable {ι ε : Type} [DecidableEq ι]

def releasedTasks (log : List (Event ι ε)) : List (Option ι) :=
  log.filterMap fun
    | .failed _ _ => none
    | .released task => some task

omit [DecidableEq ι] in
@[simp] theorem releasedTasks_append (first second : List (Event ι ε)) :
    releasedTasks (first ++ second) = releasedTasks first ++ releasedTasks second :=
  List.filterMap_append

omit [DecidableEq ι] in
@[simp] theorem releasedTasks_released (task : Option ι) :
    releasedTasks ([.released task] : List (Event ι ε)) = [task] := rfl

omit [DecidableEq ι] in
@[simp] theorem releasedTasks_failed (exception : Option ε) (task : Option ι) :
    releasedTasks (exception.toList.map (.failed task)) = [] := by
  cases exception <;> rfl

def Pc.owning : Pc ι → Option NodeId
  | .initialise n | .push n => some n
  | _ => none

def Pc.pushing : Pc ι → Option NodeId
  | .push n => some n
  | _ => none

def Pc.linking : Pc ι → Option (NodeId × Option NodeId)
  | .link n old => some (n,old)
  | _ => none

def Pc.working : Pc ι → Option (NodeId × Option ι)
  | .release n _ task => some (n,task)
  | _ => none

/-- The nodes an announcing call still has to work on begin where it stands. -/
def Pc.Walks : Pc ι → List NodeId → Prop
  | .follow n, nodes => nodes.head? = some n
  | .fail n next, nodes => ∃ rest, nodes = n :: rest ∧ rest.head? = next
  | .release _ next _, nodes | .delete _ next, nodes => nodes.head? = next
  | _, nodes => nodes = []

theorem observe {β : Type} (f : Pc ι → β) {s t : State ι ε} {k : Option ι} {pc : Pc ι}
    (call : t.call = Function.update s.call k pc) (same : f pc = f (s.call k)) (j : Option ι) :
    f (t.call j) = f (s.call j) := by
  rw [call]
  by_cases self : j = k
  · rw [self,Function.update_self,same]
  · rw [Function.update_of_ne self]

omit [DecidableEq ι] in
theorem Allocation.pushing_handed {s : State ι ε} (allocation : Allocation s) {c : ι} {n : NodeId}
    (pushing : (s.call (some c)).pushing = some n) : (c,n) ∈ s.handed := by
  have registered := allocation.registered c
  cases pc : s.call (some c) <;> simp [pc,Pc.pushing] at pushing
  subst pushing
  simpa [pc,Registered] using registered

structure Placed (s : State ι ε) (L : Ledger NodeId (Option ι)) : Prop where
  handed : ∀ n, L.place n ≠ .apart → ∃ c, (c,n) ∈ s.handed
  apart : ∀ c n, (c,n) ∈ s.handed → (L.place n = .apart ↔ (s.call (some c)).owning = some n)
  releasing : ∀ k n, L.place n = .releasing k ↔ ∃ task, (s.call k).working = some (n,task)
  task : ∀ k n task, (s.call k).working = some (n,task) → ∃ c, task = some c ∧ (c,n) ∈ s.handed
  walks : ∀ k, (s.call k).Walks (L.held k)
  taken : ∀ n, n ∈ s.taken ↔ L.place n = .gone ∨ ∃ k, L.place n = .releasing k
  once : s.taken.Nodup

theorem Placed.move {s t : State ι ε} {L : Ledger NodeId (Option ι)} {k : Option ι} {pc : Pc ι}
    (placed : Placed s L) (call : t.call = Function.update s.call k pc)
    (handed : t.handed = s.handed) (taken : t.taken = s.taken)
    (owning : pc.owning = (s.call k).owning) (working : pc.working = (s.call k).working)
    (walks : pc.Walks (L.held k)) : Placed t L := by
  constructor
  · rw [handed]
    exact placed.handed
  · intro c n
    rw [handed,observe Pc.owning call owning]
    exact placed.apart c n
  · intro j n
    rw [observe Pc.working call working]
    exact placed.releasing j n
  · intro j n task
    rw [observe Pc.working call working,handed]
    exact placed.task j n task
  · intro j
    rw [call]
    by_cases self : j = k
    · rw [self,Function.update_self]
      exact walks
    · rw [Function.update_of_ne self]
      exact placed.walks j
  · rw [taken]
    exact placed.taken
  · rw [taken]
    exact placed.once

/-- Node `n` belongs to a call and leads to `next`, at the latest when that call
has written the link. -/
def LeadsTo (s : State ι ε) (n : NodeId) (next : Option NodeId) : Prop :=
  next ≠ some n ∧ ∃ c, (c,n) ∈ s.handed ∧ (s.node n).task = some c ∧
    ((s.call (some c)).linking = none ∧ (s.node n).nextNode = next ∨
      (s.call (some c)).linking = some (n,next) ∧ (s.node n).nextNode = some n)

def Chain (s : State ι ε) : List NodeId → Prop
  | [] => True
  | n :: rest => LeadsTo s n rest.head? ∧ Chain s rest

/-- The lists of the ledger are the chains of the nodes. -/
structure Linked (s : State ι ε) (L : Ledger NodeId (Option ι)) : Prop where
  fresh : ∀ c n, (s.call (some c)).pushing = some n → s.node n = ⟨some c,some n⟩
  head : s.head = L.stack.head?
  stack : Chain s L.stack
  held : ∀ k, Chain s (L.held k)

omit [DecidableEq ι] in
theorem Chain.imp {s t : State ι ε} {nodes : List NodeId} (chain : Chain s nodes)
    (leads : ∀ n ∈ nodes, ∀ next, LeadsTo s n next → LeadsTo t n next) : Chain t nodes := by
  induction nodes with
  | nil => trivial
  | cons n rest ih =>
    refine ⟨leads n List.mem_cons_self _ chain.1,ih chain.2 ?_⟩
    exact fun m member => leads m (List.mem_cons_of_mem n member)

omit [DecidableEq ι] in
theorem Chain.suffix {s : State ι ε} {nodes rest : List NodeId} (chain : Chain s nodes)
    (suffix : rest <:+ nodes) : Chain s rest := by
  obtain ⟨first,rfl⟩ := suffix
  induction first with
  | nil => exact chain
  | cons n first ih => exact ih chain.2

omit [DecidableEq ι] in
theorem Linked.chains {s t : State ι ε} {L : Ledger NodeId (Option ι)} (linked : Linked s L)
    (leads : ∀ n next, L.place n ≠ .apart → LeadsTo s n next → LeadsTo t n next) :
    Chain t L.stack ∧ ∀ k, Chain t (L.held k) := by
  refine ⟨linked.stack.imp fun n member next => leads n next ?_,fun k =>
    (linked.held k).imp fun n member next => leads n next ?_⟩
  · rw [(L.mem_stack n).mp member]
    simp
  · rw [(L.mem_held k n).mp member]
    simp

omit [DecidableEq ι] in
theorem LeadsTo.frame {s t : State ι ε} {n : NodeId} {next : Option NodeId}
    (leads : LeadsTo s n next) (handed : ∀ p ∈ s.handed, p ∈ t.handed) (node : t.node n = s.node n)
    (linking : ∀ c, (c,n) ∈ s.handed → (t.call (some c)).linking = (s.call (some c)).linking) :
    LeadsTo t n next := by
  obtain ⟨other,c,owned,task,link⟩ := leads
  refine ⟨other,c,handed _ owned,?_,?_⟩
  · rw [node,task]
  · rw [node,linking c owned]
    exact link

theorem Linked.move {s t : State ι ε} {L M : Ledger NodeId (Option ι)} {k : Option ι} {pc : Pc ι}
    (linked : Linked s L) (call : t.call = Function.update s.call k pc)
    (handed : t.handed = s.handed) (node : t.node = s.node) (head : t.head = s.head)
    (pushing : pc.pushing = (s.call k).pushing) (linking : pc.linking = (s.call k).linking)
    (stack : M.stack = L.stack) (held : ∀ j, M.held j <:+ L.held j) : Linked t M := by
  have chains := linked.chains (t := t) fun n next _ leads =>
    leads.frame (by simp [handed]) (by rw [node]) fun c _ => observe Pc.linking call linking (some c)
  constructor
  · intro c n
    rw [observe Pc.pushing call pushing,node]
    exact linked.fresh c n
  · rw [head,stack,linked.head]
  · rw [stack]
    exact chains.1
  · exact fun j => (chains.2 j).suffix (held j)

/-- The tasks released so far are those of the nodes that are gone and of the
calls that came too late. -/
structure Accounts (s : State ι ε) (L : Ledger NodeId (Option ι)) : Prop where
  released : ∀ c, some c ∈ releasedTasks s.log ↔
    (∃ n, (c,n) ∈ s.handed ∧ L.place n = .gone) ∨
      (∀ n, (c,n) ∉ s.handed) ∧ s.call (some c) = .returned
  given : none ∉ releasedTasks s.log
  distinct : (releasedTasks s.log).Nodup

theorem Accounts.move {s t : State ι ε} {L M : Ledger NodeId (Option ι)} {k : Option ι}
    {pc : Pc ι} (accounts : Accounts s L) (call : t.call = Function.update s.call k pc)
    (handed : t.handed = s.handed) (log : releasedTasks t.log = releasedTasks s.log)
    (gone : ∀ n, M.place n = .gone ↔ L.place n = .gone) (before : s.call k ≠ .returned)
    (returning : ∀ c, k = some c → pc = .returned → ∃ n, (c,n) ∈ s.handed) : Accounts t M := by
  constructor
  · intro c
    rw [log,accounts.released,handed,call]
    simp only [gone]
    by_cases self : some c = k
    · subst k
      simp only [Function.update_self,before,and_false,or_false]
      refine ⟨Or.inl,?_⟩
      rintro (gone | ⟨unhanded,back⟩)
      · exact gone
      · obtain ⟨n,owned⟩ := returning c rfl back
        exact absurd owned (unhanded n)
    · rw [Function.update_of_ne self]
  · rw [log]
    exact accounts.given
  · rw [log]
    exact accounts.distinct

structure Tracks (s : State ι ε) (L : Ledger NodeId (Option ι)) : Prop where
  placed : Placed s L
  linked : Linked s L
  accounts : Accounts s L

/-- The points of a call that no node depends on. -/
def Pc.plain : Pc ι → Bool
  | .initialise _ | .push _ | .link _ _ | .release _ _ _ => false
  | _ => true

omit [DecidableEq ι] in
theorem Pc.plain_observed {pc : Pc ι} (plain : pc.plain = true) :
    pc.owning = none ∧ pc.pushing = none ∧ pc.linking = none ∧ pc.working = none := by
  cases pc <;> simp [Pc.plain,Pc.owning,Pc.pushing,Pc.linking,Pc.working] at plain ⊢

section Steps
variable {s t : State ι ε} {L : Ledger NodeId (Option ι)}

/-- A call that moves between plain points leaves all nodes where they are. -/
theorem Tracks.plain {k : Option ι} {pc : Pc ι} (tracks : Tracks s L)
    (call : t.call = Function.update s.call k pc) (before : (s.call k).plain = true)
    (after : pc.plain = true) (handed : t.handed = s.handed) (node : t.node = s.node)
    (head : t.head = s.head) (taken : t.taken = s.taken)
    (log : releasedTasks t.log = releasedTasks s.log) (walks : pc.Walks (L.held k))
    (unreturned : s.call k ≠ .returned)
    (returning : ∀ c, k = some c → pc = .returned → ∃ n, (c,n) ∈ s.handed) : Tracks t L := by
  obtain ⟨owning,pushing,linking,working⟩ := Pc.plain_observed before
  obtain ⟨owning',pushing',linking',working'⟩ := Pc.plain_observed after
  constructor
  · exact tracks.placed.move call handed taken (by rw [owning,owning']) (by rw [working,working']) walks
  · exact tracks.linked.move call handed node head (by rw [pushing,pushing'])
      (by rw [linking,linking']) rfl fun _ => List.suffix_rfl
  · exact tracks.accounts.move call handed log (fun _ => Iff.rfl) unreturned returning

theorem Tracks.lateRelease {c : ι} (tracks : Tracks s L) (pc : s.call (some c) = .lateRelease)
    (unhanded : ∀ n, (c,n) ∉ s.handed) :
    Tracks ((s.released (some c)).goto (some c) .returned) L := by
  have idle : L.held (some c) = [] := by simpa [pc,Pc.Walks] using tracks.placed.walks (some c)
  have unreleased : some c ∉ releasedTasks s.log := by
    simp [tracks.accounts.released,unhanded,pc]
  refine ⟨?_,?_,?_⟩
  · exact tracks.placed.move rfl rfl rfl (by simp [pc,Pc.owning]) (by simp [pc,Pc.working]) idle
  · exact tracks.linked.move rfl rfl rfl rfl (by simp [pc,Pc.pushing]) (by simp [pc,Pc.linking]) rfl
      fun _ => List.suffix_rfl
  · have log : releasedTasks ((s.released (some c)).goto (some c) .returned).log =
        releasedTasks s.log ++ [some c] := by simp [State.released]
    constructor
    · intro d
      rw [log,List.mem_append,List.mem_singleton,tracks.accounts.released,Option.some.injEq]
      by_cases same : d = c
      · subst d
        simpa [State.released] using Or.inr unhanded
      · simp [same,State.released]
    · rw [log]
      simpa using tracks.accounts.given
    · rw [log,← List.concat_eq_append]
      exact tracks.accounts.distinct.concat unreleased

theorem Tracks.create {c : ι} (tracks : Tracks s L) (pc : s.call (some c) = .create)
    (unhanded : ∀ n, (c,n) ∉ s.handed) (unused : ∀ d, (d,s.place) ∉ s.handed) :
    Tracks (createNode s c) L := by
  have call : (createNode s c).call = Function.update s.call (some c) (.initialise s.place) := rfl
  have handed (p : ι × NodeId) : p ∈ (createNode s c).handed ↔ p ∈ s.handed ∨ p = (c,s.place) := by
    simp [createNode]
  have place : L.place s.place = .apart := by
    by_contra known
    obtain ⟨d,owned⟩ := tracks.placed.handed _ known
    exact unused d owned
  have others {d : ι} {n : NodeId} (owned : (d,n) ∈ s.handed) :
      (createNode s c).call (some d) = s.call (some d) := by
    rw [call,Function.update_of_ne]
    intro same
    cases same
    exact unhanded n owned
  have working := observe Pc.working call (by simp [pc,Pc.working])
  have pushing := observe Pc.pushing call (by simp [pc,Pc.pushing])
  refine ⟨?_,?_,?_⟩
  · constructor
    · intro n known
      obtain ⟨d,owned⟩ := tracks.placed.handed n known
      exact ⟨d,(handed _).mpr (Or.inl owned)⟩
    · intro d n owned
      rcases (handed _).mp owned with old | new
      · rw [others old]
        exact tracks.placed.apart d n old
      · cases new
        simp [place,call,Pc.owning]
    · intro j n
      rw [working]
      exact tracks.placed.releasing j n
    · intro j n task busy
      rw [working] at busy
      obtain ⟨d,equal,owned⟩ := tracks.placed.task j n task busy
      exact ⟨d,equal,(handed _).mpr (Or.inl owned)⟩
    · intro j
      rw [call]
      by_cases same : j = some c
      · have idle := tracks.placed.walks (some c)
        rw [pc] at idle
        rw [same,Function.update_self]
        exact idle
      · rw [Function.update_of_ne same]
        exact tracks.placed.walks j
    · exact tracks.placed.taken
    · exact tracks.placed.once
  · have chains := tracks.linked.chains (t := createNode s c) fun n next _ leads =>
      leads.frame (fun p old => (handed p).mpr (Or.inl old)) rfl fun d owned => by rw [others owned]
    constructor
    · intro d n
      rw [pushing]
      exact tracks.linked.fresh d n
    · exact tracks.linked.head
    · exact chains.1
    · exact chains.2
  · constructor
    · intro d
      change some d ∈ releasedTasks s.log ↔ _
      rw [tracks.accounts.released,call]
      have gone : (∃ n, (d,n) ∈ (createNode s c).handed ∧ L.place n = .gone) ↔
          ∃ n, (d,n) ∈ s.handed ∧ L.place n = .gone := by
        refine exists_congr fun n => and_congr_left fun finished => ?_
        rw [handed]
        refine or_iff_left ?_
        intro new
        cases new
        simp [place] at finished
      rw [gone]
      by_cases same : d = c
      · subst d
        simp [pc]
      · simp [handed,same]
    · exact tracks.accounts.given
    · exact tracks.accounts.distinct

theorem Tracks.initialise {c : ι} {n : NodeId} (tracks : Tracks s L) (allocation : Allocation s)
    (pc : s.call (some c) = .initialise n) :
    Tracks ((s.setNode n ⟨some c,some n⟩).goto (some c) (.push n)) L := by
  have owned : (c,n) ∈ s.handed := by simpa [pc,Registered] using allocation.registered c
  have idle : L.held (some c) = [] := by simpa [pc,Pc.Walks] using tracks.placed.walks (some c)
  have apart : L.place n = .apart := by simp [tracks.placed.apart c n owned,pc,Pc.owning]
  refine ⟨?_,?_,?_⟩
  · exact tracks.placed.move rfl rfl rfl (by simp [pc,Pc.owning]) (by simp [pc,Pc.working]) idle
  · have chains := tracks.linked.chains (t := (s.setNode n ⟨some c,some n⟩).goto (some c) (.push n))
      (by
        intro m next known leads
        have other : m ≠ n := by
          rintro rfl
          exact known apart
        refine leads.frame (fun _ member => member) (by simp [State.setNode,other]) fun d _ => ?_
        exact observe Pc.linking rfl (by simp [pc,Pc.linking]) _)
    refine ⟨?_,tracks.linked.head,chains.1,chains.2⟩
    intro d m pushing
    by_cases same : d = c
    · subst d
      simp only [goto_call,Function.update_self,Pc.pushing,Option.some.injEq] at pushing
      subst m
      simp [State.setNode]
    · simp only [goto_call,State.setNode] at pushing
      rw [Function.update_of_ne (by simpa using same)] at pushing
      have handed := allocation.pushing_handed pushing
      have other : m ≠ n := fun equal => same ((allocation.owner d m c n handed owned).mpr equal)
      simpa [State.setNode,other] using tracks.linked.fresh d m pushing
  · exact tracks.accounts.move rfl rfl rfl (fun _ => Iff.rfl) (by simp [pc]) (by simp)

theorem Tracks.push {c : ι} {n : NodeId} (tracks : Tracks s L) (allocation : Allocation s)
    (pc : s.call (some c) = .push n) :
    ∃ M, Tracks ({s with head := some n}.goto (some c) (.link n s.head)) M := by
  have owned : (c,n) ∈ s.handed := by simpa [pc,Registered] using allocation.registered c
  have apart : L.place n = .apart := by simp [tracks.placed.apart c n owned,pc,Pc.owning]
  have idle : L.held (some c) = [] := by simpa [pc,Pc.Walks] using tracks.placed.walks (some c)
  have absent : n ∉ L.stack := by simp [L.mem_stack,apart]
  have call : ({s with head := some n}.goto (some c) (.link n s.head)).call =
      Function.update s.call (some c) (.link n s.head) := rfl
  have place (m : NodeId) (other : m ≠ n) : (L.push n apart).place m = L.place m :=
    L.push_place_of_ne apart other
  have working := observe Pc.working call (by simp [pc,Pc.working])
  refine ⟨L.push n apart,?_,?_,?_⟩
  · constructor
    · intro m known
      by_cases same : m = n
      · exact ⟨c,by rw [same]; exact owned⟩
      · rw [place m same] at known
        exact tracks.placed.handed m known
    · intro d m member
      by_cases same : m = n
      · subst m
        obtain rfl : d = c := (allocation.owner d n c n member owned).mpr rfl
        simp [L.push_place_self n apart,Pc.owning]
      · have other : d ≠ c := fun equal => same ((allocation.owner d m c n member owned).mp equal)
        rw [place m same,call,Function.update_of_ne (by simpa using other)]
        exact tracks.placed.apart d m member
    · intro j m
      rw [working]
      by_cases same : m = n
      · subst m
        rw [← tracks.placed.releasing,L.push_place_self n apart,apart]
        simp
      · rw [place m same]
        exact tracks.placed.releasing j m
    · intro j m task
      rw [working]
      exact tracks.placed.task j m task
    · intro j
      rw [call]
      by_cases same : j = some c
      · rw [same,Function.update_self]
        exact idle
      · rw [Function.update_of_ne same]
        exact tracks.placed.walks j
    · intro m
      by_cases same : m = n
      · subst m
        have untaken := tracks.placed.taken n
        rw [apart] at untaken
        rw [L.push_place_self n apart]
        simpa using untaken
      · rw [place m same]
        exact tracks.placed.taken m
    · exact tracks.placed.once
  · have chains := tracks.linked.chains (t := {s with head := some n}.goto (some c) (.link n s.head))
      (by
        intro m next known leads
        refine leads.frame (fun _ member => member) rfl fun d member => ?_
        rw [call,Function.update_of_ne]
        intro equal
        cases equal
        obtain rfl : n = m := (allocation.owner c n c m owned member).mp rfl
        exact known apart)
    constructor
    · intro d m pushing
      by_cases same : some d = some c
      · rw [call,same,Function.update_self] at pushing
        simp [Pc.pushing] at pushing
      · rw [call,Function.update_of_ne same] at pushing
        exact tracks.linked.fresh d m pushing
    · rfl
    · have fresh : s.node n = ⟨some c,some n⟩ := tracks.linked.fresh c n (by simp [pc,Pc.pushing])
      refine ⟨⟨?_,c,owned,?_,Or.inr ⟨?_,?_⟩⟩,chains.1⟩
      · intro below
        exact absent (List.mem_of_mem_head? below)
      · simp [fresh]
      · rw [call,Function.update_self,Pc.linking,tracks.linked.head]
      · simp [fresh]
    · exact chains.2
  · refine tracks.accounts.move call rfl rfl (fun m => ?_) (by simp [pc]) (by simp)
    by_cases same : m = n
    · subst m
      simp [L.push_place_self n apart,apart]
    · rw [place m same]

theorem Tracks.link {c : ι} {n : NodeId} {old : Option NodeId} (tracks : Tracks s L)
    (allocation : Allocation s) (pc : s.call (some c) = .link n old) :
    Tracks ((s.setNode n {s.node n with nextNode := old}).goto (some c)
      (if old = none then .recheck else .returned)) L := by
  have owned : (c,n) ∈ s.handed := by simpa [pc,Registered] using allocation.registered c
  have idle : L.held (some c) = [] := by simpa [pc,Pc.Walks] using tracks.placed.walks (some c)
  have plain : (if old = none then Pc.recheck else .returned : Pc ι).plain = true := by split <;> rfl
  obtain ⟨owning,pushing,linking,working⟩ := Pc.plain_observed plain
  refine ⟨?_,?_,?_⟩
  · refine tracks.placed.move rfl rfl rfl (by rw [owning,pc]; rfl) (by rw [working,pc]; rfl) ?_
    split <;> exact idle
  · have others (m : NodeId) (other : m ≠ n) :
        (s.setNode n {s.node n with nextNode := old}).node m = s.node m := by
      simp [State.setNode,other]
    have chains := tracks.linked.chains (t := (s.setNode n {s.node n with nextNode := old}).goto (some c)
      (if old = none then .recheck else .returned)) (by
        intro m next _ leads
        by_cases same : m = n
        · -- the link the chain has counted on is the one written now
          subst m
          obtain ⟨proper,d,member,task,unlinked | linking'⟩ := leads
          · obtain rfl : d = c := (allocation.owner d n c n member owned).mpr rfl
            simp [pc,Pc.linking] at unlinked
          · obtain rfl : d = c := (allocation.owner d n c n member owned).mpr rfl
            simp only [pc,Pc.linking,Option.some.injEq,Prod.mk.injEq,true_and] at linking'
            refine ⟨proper,d,member,by simpa [State.setNode] using task,Or.inl ⟨?_,?_⟩⟩
            · simp only [goto_call,Function.update_self]
              exact linking
            · simpa [State.setNode] using linking'.1
        · refine leads.frame (fun _ member => member) (others m same) fun d member => ?_
          have other : d ≠ c := fun equal => same ((allocation.owner d m c n member owned).mp equal)
          simp [State.setNode,other])
    refine ⟨?_,tracks.linked.head,chains.1,chains.2⟩
    intro d m pending
    rw [observe (s := s) Pc.pushing rfl (by rw [pushing,pc]; rfl) (some d)] at pending
    have handed := allocation.pushing_handed pending
    have other : d ≠ c := by
      rintro rfl
      simp [pc,Pc.pushing] at pending
    have apart : m ≠ n := fun equal => other ((allocation.owner d m c n handed owned).mpr equal)
    simpa [State.setNode,apart] using tracks.linked.fresh d m pending
  · refine tracks.accounts.move rfl rfl rfl (fun _ => Iff.rfl) (by simp [pc]) ?_
    rintro d same _
    cases same
    exact ⟨n,owned⟩

omit [DecidableEq ι] in
theorem walks_continueAt (nodes : List NodeId) : (continueAt nodes.head? : Pc ι).Walks nodes := by
  cases nodes with
  | nil => rfl
  | cons n rest => rfl

omit [DecidableEq ι] in
theorem plain_continueAt (next : Option NodeId) : (continueAt next : Pc ι).plain = true := by
  cases next <;> rfl

theorem Tracks.take {k : Option ι} (tracks : Tracks s L) (allocation : Allocation s)
    (pc : s.call k = .take) :
    ∃ M, Tracks ({s with head := none}.goto k (continueAt s.head)) M := by
  have idle : L.held k = [] := by simpa [pc,Pc.Walks] using tracks.placed.walks k
  have call : ({s with head := none}.goto k (continueAt s.head)).call =
      Function.update s.call k (continueAt s.head) := rfl
  have plain : (continueAt s.head : Pc ι).plain = true := plain_continueAt s.head
  obtain ⟨owning,pushing,linking,working⟩ := Pc.plain_observed plain
  have owning := observe Pc.owning call (by rw [owning,pc]; rfl)
  have working := observe Pc.working call (by rw [working,pc]; rfl)
  have linking := observe Pc.linking call (by rw [linking,pc]; rfl)
  have pushing := observe Pc.pushing call (by rw [pushing,pc]; rfl)
  have place (n : NodeId) := L.detach_place k idle n
  refine ⟨L.detach k idle,?_,?_,?_⟩
  · constructor
    · intro n known
      apply tracks.placed.handed n
      rcases place n with ⟨stacked,_⟩ | ⟨_,kept⟩
      · simp [stacked]
      · rwa [kept] at known
    · intro c n owned
      have before := tracks.placed.apart c n owned
      rw [owning,← before]
      rcases place n with ⟨stacked,now⟩ | ⟨_,kept⟩
      · simp [stacked,now]
      · rw [kept]
    · intro j n
      rw [working,← tracks.placed.releasing]
      rcases place n with ⟨stacked,now⟩ | ⟨_,kept⟩
      · simp [stacked,now]
      · rw [kept]
    · intro j n task
      rw [working]
      exact tracks.placed.task j n task
    · intro j
      rw [call]
      by_cases same : j = k
      · subst j
        rw [Function.update_self,tracks.linked.head]
        simpa [Ledger.detach] using walks_continueAt L.stack
      · rw [Function.update_of_ne same]
        simpa [Ledger.detach,same] using tracks.placed.walks j
    · intro n
      rw [goto_taken,tracks.placed.taken]
      rcases place n with ⟨stacked,now⟩ | ⟨_,kept⟩
      · simp [stacked,now]
      · rw [kept]
    · exact tracks.placed.once
  · have chains := tracks.linked.chains (t := {s with head := none}.goto k (continueAt s.head))
      fun n next _ leads => leads.frame (fun _ member => member) rfl fun c _ => linking (some c)
    constructor
    · intro c n
      rw [pushing]
      exact tracks.linked.fresh c n
    · rfl
    · trivial
    · intro j
      by_cases same : j = k
      · simpa [Ledger.detach,same] using chains.1
      · simpa [Ledger.detach,same] using chains.2 j
  · refine tracks.accounts.move call rfl rfl (fun n => ?_) (by simp [pc]) ?_
    · rcases place n with ⟨stacked,now⟩ | ⟨_,kept⟩
      · simp [stacked,now]
      · rw [kept]
    · rintro c rfl _
      simpa [pc,Registered] using allocation.registered c

theorem Tracks.fail {k : Option ι} {n : NodeId} {next : Option NodeId} (tracks : Tracks s L)
    (pc : s.call k = .fail n next) :
    ∃ M, Tracks (({s with taken := s.taken ++ [n]}.applyFailure (s.node n).task).goto k
      (.release n next (s.node n).task)) M := by
  have call : (({s with taken := s.taken ++ [n]}.applyFailure (s.node n).task).goto k
      (.release n next (s.node n).task)).call =
        Function.update s.call k (.release n next (s.node n).task) := rfl
  have walks := tracks.placed.walks k
  rw [pc] at walks
  obtain ⟨rest,top,reaches⟩ := walks
  have chain := tracks.linked.held k
  rw [top] at chain
  obtain ⟨⟨_,c,owned,task,_⟩,_⟩ := chain
  have held : L.place n = .held k := by simp [← L.mem_held,top]
  have place (m : NodeId) (other : m ≠ n) : (L.work k n rest top).place m = L.place m :=
    L.work_place_of_ne top other
  have now := L.work_place_self k n rest top
  have owning := observe Pc.owning call (by rw [pc]; rfl)
  have others (j : Option ι) (other : j ≠ k) : (Function.update s.call k
      (.release n next (s.node n).task)) j = s.call j := Function.update_of_ne other _ _
  refine ⟨L.work k n rest top,?_,?_,?_⟩
  · constructor
    · intro m known
      by_cases same : m = n
      · exact ⟨c,by rw [same]; exact owned⟩
      · rw [place m same] at known
        exact tracks.placed.handed m known
    · intro d m member
      rw [owning,← tracks.placed.apart d m member]
      by_cases same : m = n
      · simp [same,now,held]
      · rw [place m same]
    · intro j m
      rw [call]
      by_cases self : j = k
      · subst j
        rw [Function.update_self]
        by_cases same : m = n
        · simp [same,now,Pc.working]
        · rw [place m same,tracks.placed.releasing]
          simp [pc,Pc.working,Ne.symm same]
      · rw [others j self,← tracks.placed.releasing]
        by_cases same : m = n
        · simp [same,now,held,Ne.symm self]
        · rw [place m same]
    · intro j m task'
      rw [call]
      by_cases self : j = k
      · subst j
        rw [Function.update_self]
        intro busy
        cases busy
        exact ⟨c,task,owned⟩
      · rw [others j self]
        exact tracks.placed.task j m task'
    · intro j
      rw [call]
      by_cases self : j = k
      · subst j
        rw [Function.update_self]
        simpa [Ledger.work,Pc.Walks] using reaches
      · rw [others j self]
        simpa [Ledger.work,self] using tracks.placed.walks j
    · intro m
      have before := tracks.placed.taken m
      simp only [goto_taken,State.applyFailure,List.mem_append,List.mem_singleton]
      by_cases same : m = n
      · simp [same,now]
      · rw [place m same,before]
        simp [same]
    · have untaken : n ∉ s.taken := by simp [tracks.placed.taken,held]
      simp only [goto_taken,State.applyFailure]
      rw [← List.concat_eq_append]
      exact tracks.placed.once.concat untaken
  · refine tracks.linked.move call rfl rfl rfl (by rw [pc]; rfl) (by rw [pc]; rfl) rfl fun j => ?_
    by_cases self : j = k
    · subst j
      simp [Ledger.work,top]
    · simp [Ledger.work,self]
  · refine tracks.accounts.move call rfl ?_ (fun m => ?_) (by simp [pc]) (by simp)
    · simp [State.applyFailure]
    · by_cases same : m = n
      · simp [same,now,held]
      · rw [place m same]

theorem Tracks.release {k : Option ι} {n : NodeId} {next : Option NodeId} {task : Option ι}
    (tracks : Tracks s L) (allocation : Allocation s) (pc : s.call k = .release n next task) :
    ∃ M, Tracks ((s.released task).goto k (.delete n next)) M := by
  have call : ((s.released task).goto k (.delete n next)).call =
      Function.update s.call k (.delete n next) := rfl
  have busy : L.place n = .releasing k := by simp [tracks.placed.releasing,pc,Pc.working]
  obtain ⟨c,rfl,owned⟩ := tracks.placed.task k n task (by simp [pc,Pc.working])
  have place (m : NodeId) (other : m ≠ n) : (L.release k n busy).place m = L.place m :=
    L.release_place_of_ne busy other
  have now := L.release_place_self k n busy
  have owning := observe Pc.owning call (by rw [pc]; rfl)
  refine ⟨L.release k n busy,?_,?_,?_⟩
  · constructor
    · intro m known
      by_cases same : m = n
      · exact ⟨c,by rw [same]; exact owned⟩
      · rw [place m same] at known
        exact tracks.placed.handed m known
    · intro d m member
      rw [owning,← tracks.placed.apart d m member]
      by_cases same : m = n
      · simp [same,now,busy]
      · rw [place m same]
    · intro j m
      have before := tracks.placed.releasing j m
      rw [call]
      by_cases self : j = k
      · subst j
        rw [Function.update_self]
        by_cases same : m = n
        · simp [same,now,Pc.working]
        · rw [place m same,before]
          simp [pc,Pc.working,Ne.symm same]
      · rw [Function.update_of_ne self,← before]
        by_cases same : m = n
        · simp [same,now,busy,Ne.symm self]
        · rw [place m same]
    · intro j m task
      rw [call]
      by_cases self : j = k
      · subst j
        rw [Function.update_self]
        simp [Pc.working]
      · rw [Function.update_of_ne self]
        exact tracks.placed.task j m task
    · intro j
      have before := tracks.placed.walks j
      rw [call]
      by_cases self : j = k
      · subst j
        rw [pc] at before
        rw [Function.update_self]
        exact before
      · rw [Function.update_of_ne self]
        exact before
    · intro m
      have before := tracks.placed.taken m
      by_cases same : m = n
      · subst m
        simpa [now,busy,State.released] using before
      · rw [place m same]
        exact before
    · exact tracks.placed.once
  · exact tracks.linked.move call rfl rfl rfl (by rw [pc]; rfl) (by rw [pc]; rfl) rfl
      fun _ => List.suffix_rfl
  · have log : releasedTasks ((s.released (some c)).goto k (.delete n next)).log =
        releasedTasks s.log ++ [some c] := by simp [State.released]
    have unreleased : some c ∉ releasedTasks s.log := by
      rw [tracks.accounts.released]
      rintro (⟨m,member,gone⟩ | ⟨unhanded,_⟩)
      · obtain rfl : n = m := (allocation.owner c n c m owned member).mp rfl
        simp [busy] at gone
      · exact unhanded n owned
    constructor
    · intro d
      rw [log,List.mem_append,List.mem_singleton,tracks.accounts.released,Option.some.injEq]
      by_cases same : d = c
      · subst d
        exact iff_of_true (Or.inr rfl) (Or.inl ⟨n,owned,now⟩)
      · have unchanged : ∀ m, (d,m) ∈ s.handed → ((L.release k n busy).place m = .gone ↔
            L.place m = .gone) := by
          intro m member
          have other : m ≠ n := fun equal => same ((allocation.owner d m c n member owned).mpr equal)
          rw [place m other]
        have calls : ((s.released (some c)).goto k (.delete n next)).call (some d) = .returned ↔
            s.call (some d) = .returned := by
          rw [call]
          by_cases self : some d = k
          · subst k
            simp [pc]
          · rw [Function.update_of_ne self]
        rw [calls]
        simp only [same,or_false]
        exact or_congr (exists_congr fun m => and_congr_right fun member =>
          (unchanged m member).symm) Iff.rfl
    · rw [log]
      simpa using tracks.accounts.given
    · rw [log,← List.concat_eq_append]
      exact tracks.accounts.distinct.concat unreleased

theorem Tracks.next {e : Option ε} {k : Option ι} (tracks : Tracks s L) (allocation : Allocation s)
    (guarded : DrawsFreshIndex s k) (moves : Moves e s k t) : ∃ M, Tracks t M := by
  have walks := tracks.placed.walks k
  have registered (c : ι) := allocation.registered c
  cases moves with
  | ready c pc =>
    rw [pc] at walks
    refine ⟨L,tracks.plain rfl (by rw [pc]; rfl) ?_ rfl rfl rfl rfl rfl ?_ (by simp [pc]) ?_⟩
    · split <;> rfl
    · split <;> exact walks
    · intro d _ back
      split at back <;> simp at back
  | late c pc =>
    rw [pc] at walks
    exact ⟨L,tracks.plain rfl (by rw [pc]; rfl) rfl rfl rfl rfl rfl (by simp [State.applyFailure]) walks
      (by simp [pc]) (by simp)⟩
  | lateRelease c pc =>
    exact ⟨L,tracks.lateRelease pc (by simpa [pc,Registered] using registered c)⟩
  | create c pc =>
    exact ⟨L,tracks.create pc (by simpa [pc,Registered] using registered c)
      (allocation.place_fresh (guarded pc))⟩
  | initialise c n pc => exact ⟨L,tracks.initialise allocation pc⟩
  | push c n pc => exact tracks.push allocation pc
  | link c n old pc => exact ⟨L,tracks.link allocation pc⟩
  | recheck c pc =>
    rw [pc] at walks
    refine ⟨L,tracks.plain rfl (by rw [pc]; rfl) ?_ rfl rfl rfl rfl rfl ?_ (by simp [pc]) ?_⟩
    · split <;> rfl
    · split <;> exact walks
    · rintro d same _
      cases same
      simpa [pc,Registered] using registered c
  | setException pc | clearWaiting pc =>
    rw [pc] at walks
    exact ⟨L,tracks.plain rfl (by rw [pc]; rfl) rfl rfl rfl rfl rfl rfl walks (by simp [pc]) (by simp)⟩
  | take k pc => exact tracks.take allocation pc
  | spin k n pc => exact ⟨L,tracks⟩
  | follow k n pc set =>
    rw [pc] at walks
    have chain := tracks.linked.held k
    obtain ⟨rest,top⟩ := List.head?_eq_some_iff.mp walks
    rw [top] at chain
    obtain ⟨⟨_,c,_,_,linked | ⟨_,unset⟩⟩,_⟩ := chain
    · exact ⟨L,tracks.plain rfl (by rw [pc]; rfl) rfl rfl rfl rfl rfl rfl ⟨rest,top,linked.2.symm⟩
        (by simp [pc]) (by simp)⟩
    · exact absurd unset set
  | fail k n next pc => exact tracks.fail pc
  | release k n next task pc => exact tracks.release allocation pc
  | delete k n next pc =>
    rw [pc] at walks
    refine ⟨L,tracks.plain rfl (by rw [pc]; rfl) (plain_continueAt next) rfl rfl rfl rfl rfl ?_
      (by simp [pc]) ?_⟩
    · have reaches : (L.held k).head? = next := walks
      rw [← reaches]
      exact walks_continueAt (L.held k)
    · rintro c rfl _
      simpa [pc,Registered] using registered c

end Steps

end ToyMtFramework.WaitingTaskList
