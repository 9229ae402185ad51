import TsDrp.Applier.Session
import TsDrp.Applier.FailedMerge

/-!
# Interleaved operations

The graph, the live object and the checkpoints are read and written without a
lock.  A local call trusts the live object, which lags behind the graph as long
as a merge is in flight that has added a vertex; a merge writes the live object
from a frontier it read earlier; and a vertex that was absent when its pipeline
started may have been added when it ends.  Runs in which none of this happens
leave the replica consistent.
-/

namespace TsDrp

open HashGraph

namespace Task

variable {Drp Acl : Type}

def holdsLive : Task Drp Acl → Bool
  | replaying .. | writing .. | calling .. => true
  | scanning .. | applying .. => false

def newVertices : Task Drp Acl → List Vertex
  | scanning locals _ | applying locals _ _ _ | replaying locals _ _ | writing locals _ =>
    locals.newVertices
  | calling .. => []

def mayAdd (applier : DRPVertexApplier Drp Acl) : Task Drp Acl → Bool
  | scanning _ rest => rest.any fun entry => !(Merging.start applier).skips entry.vertex
  | applying .. | calling .. => true
  | replaying .. | writing .. => false

def isAbsent (applier : DRPVertexApplier Drp Acl) : Task Drp Acl → Bool
  | applying _ vertex _ _ => !applier.hashGraph.has vertex.hash
  | _ => true

def called : Task Drp Acl → List Vertex
  | calling vertex _ _ => [vertex]
  | _ => []

end Task

/-- Vertices on antichains, of known types and with final swaps, as correct peers create them. -/
structure HashGraph.Honest {Drp Acl : Type} (env : Environment Drp Acl) (whole : HashGraph) : Prop where
  grown : whole.Grown
  known : ∀ vertex ∈ whole.created, vertex.KnownType
  swaps : env.options.SwapsAreFinal whole

/-- The vertices of a batch belong to a history, those with a wrong hash apart. -/
def Offered {Drp Acl : Type} (env : Environment Drp Acl) (whole : HashGraph) (batch : List Entry) :
    Prop :=
  ∀ entry ∈ batch, validateVertexHash env.computeHash entry.vertex = .ok () →
    entry.vertex ∈ whole.vertices

namespace Session

variable {Drp Acl : Type}

abbrev State (Drp Acl : Type) := Cooperative.Config (Session Drp Acl) (Task Drp Acl)

/--
A local call starts while no merge in flight has added a vertex.  A segment that
can add a vertex runs while no other call has a state of the live object to
write, and a vertex whose pipeline was waited for is still absent when it ends.
-/
def Disciplined (state : State Drp Acl) : Cooperative.Action Request Unit → Prop
  | .start (.call suspends call) =>
    (∀ task ∈ state.tasks, task.newVertices = []) ∧
      (¬(suspends = true ∧ call.type = .drp) → ∀ task ∈ state.tasks, task.holdsLive = false)
  | .start (.merge promise suspends vertices) =>
    (Task.scanning (newMerge promise suspends vertices) vertices : Task Drp Acl).mayAdd
        state.shared.applier = true →
      ∀ task ∈ state.tasks, task.holdsLive = false
  | .resume index _ => ∀ task ∈ state.tasks[index]?,
      task.isAbsent state.shared.applier = true ∧
        (task.mayAdd state.shared.applier = true →
          ∀ other ∈ state.tasks.eraseIdx index, other.holdsLive = false)

/-- What an action brings into the graph belongs to one history. -/
def Brings (env : Environment Drp Acl) (whole : HashGraph) (state : State Drp Acl) :
    Cooperative.Action Request Unit → Prop
  | .start (.call suspends call) => ¬(suspends = true ∧ call.type = .drp) →
      state.shared.applier.createVertex env call ∈ whole.vertices
  | .start (.merge _ _ vertices) => Offered env whole vertices
  | .resume index _ => ∀ task ∈ state.tasks[index]?, ∀ vertex ∈ task.called,
      vertex ∈ whole.vertices

instance (state : State Drp Acl) (action : Cooperative.Action Request Unit) :
    Decidable (Disciplined state action) := by
  unfold Disciplined
  split <;> infer_instance

instance (env : Environment Drp Acl) (whole : HashGraph) (state : State Drp Acl)
    (action : Cooperative.Action Request Unit) : Decidable (Brings env whole state action) := by
  unfold Brings Offered
  split <;> infer_instance

end Session

structure Pending {Drp Acl : Type} (env : Environment Drp Acl) (genesis : ReplayState Drp Acl)
    (whole graph : HashGraph) (vertex : Vertex)
    (staged : Except JsError (ReplayState Drp Acl × Bool)) : Prop where
  mem : vertex ∈ whole.vertices
  nonempty : vertex.dependencies ≠ []
  present : ∀ dependency ∈ vertex.dependencies, dependency ∈ graph.hashes
  hashed : vertex.Hashed env.computeHash
  replayed : ∀ state changed, staged = .ok (state, changed) →
    env.replayOf genesis whole [vertex.hash] = .ok state

/-- What a call that waits knows about the replica. -/
def Task.Sound {Drp Acl : Type} (env : Environment Drp Acl) (genesis : ReplayState Drp Acl)
    (whole : HashGraph) (applier : DRPVertexApplier Drp Acl) : Task Drp Acl → Prop
  | scanning _ rest => Offered env whole rest
  | applying _ vertex staged rest =>
    Offered env whole rest ∧ Pending env genesis whole applier.hashGraph vertex staged
  | replaying _ aclState replay =>
    env.replayOf genesis applier.hashGraph applier.hashGraph.frontier =
      (Session.drpReplay env replay).map fun drpState => { drpState, aclState }
  | writing _ drpRun =>
    env.replayOf genesis applier.hashGraph applier.hashGraph.frontier =
      drpRun.map fun drpState => { drpState, aclState := applier.live.aclState }
  | calling vertex type staged =>
    (∃ call, call.type = type ∧ vertex = applier.createVertex env call ∧
      validateVertex env.computeHash vertex applier.hashGraph call.validated true = .ok ()) ∧
    env.replayOf genesis applier.hashGraph applier.hashGraph.frontier = .ok applier.live ∧
    staged = env.code.stage applier.live [] vertex (type = .acl)

namespace Task.Sound

variable {Drp Acl : Type} {env : Environment Drp Acl} {genesis : ReplayState Drp Acl}
  {whole : HashGraph} {applier after : DRPVertexApplier Drp Acl} {task : Task Drp Acl}

section

variable (sound : task.Sound env genesis whole applier)
include sound

theorem of_same (hashGraph : after.hashGraph = applier.hashGraph) (live : after.live = applier.live)
    (peerId : after.peerId = applier.peerId) : task.Sound env genesis whole after := by
  cases task with
  | scanning => exact sound
  | applying | replaying =>
    simp only [Task.Sound, hashGraph]
    exact sound
  | writing locals drpRun =>
    simp only [Task.Sound, hashGraph, live]
    exact sound
  | calling vertex type staged =>
    simp only [Task.Sound, hashGraph, live, DRPVertexApplier.createVertex, peerId]
    exact sound

theorem grow (free : task.holdsLive = false) (keeps : applier.hashGraph.Within after.hashGraph) :
    task.Sound env genesis whole after := by
  cases task with
  | scanning locals rest => exact sound
  | applying locals vertex staged rest =>
    rcases sound with ⟨offered, pending⟩
    exact ⟨offered, pending.mem, pending.nonempty,
      fun dependency mem => keeps.mem_hashes (pending.present dependency mem), pending.hashed,
      pending.replayed⟩
  | replaying locals aclState replay => cases free
  | writing locals drpRun => cases free
  | calling vertex type staged => cases free

theorem relive (hashGraph : after.hashGraph = applier.hashGraph)
    (peerId : after.peerId = applier.peerId)
    (replays : ∀ state, env.replayOf genesis applier.hashGraph applier.hashGraph.frontier = .ok state →
      after.live.aclState = state.aclState ∧ (applier.live = state → after.live = state)) :
    task.Sound env genesis whole after := by
  cases task with
  | scanning => exact sound
  | applying | replaying =>
    simp only [Task.Sound, hashGraph]
    exact sound
  | writing locals drpRun =>
    simp only [Task.Sound, hashGraph] at sound ⊢
    cases drpRun with
    | error error => exact sound
    | ok drpState =>
      rw [(replays _ sound).1]
      exact sound
  | calling vertex type staged => exact sound.of_same hashGraph ((replays _ sound.2.1).2 rfl) peerId

end

end Task.Sound

namespace Session

variable {Drp Acl : Type} {env : Environment Drp Acl} {genesis : ReplayState Drp Acl}
  {whole : HashGraph} {applier : DRPVertexApplier Drp Acl} {others : List (Task Drp Acl)}

/-- The graph and what was recorded about it, whatever calls are in flight. -/
structure Kept (env : Environment Drp Acl) (genesis : ReplayState Drp Acl) (whole : HashGraph)
    (applier : DRPVertexApplier Drp Acl) : Prop where
  recorded : applier.Recorded env genesis
  layered : applier.hashGraph.Layered env.computeHash
  within : applier.hashGraph.Within whole

/--
A session between two segments: the live object is the replay of the frontier
unless a merge in flight has added a vertex.
-/
structure Sound (env : Environment Drp Acl) (genesis : ReplayState Drp Acl) (whole : HashGraph)
    (state : State Drp Acl) : Prop extends Kept env genesis whole state.shared.applier where
  accepted : ∀ outcome ∈ state.shared.settled, ∀ vertex ∈ outcome.accepted,
    vertex ∈ state.shared.applier.hashGraph.vertices
  new : ∀ task ∈ state.tasks, ∀ vertex ∈ task.newVertices,
    vertex ∈ state.shared.applier.hashGraph.vertices
  tasks : ∀ task ∈ state.tasks, task.Sound env genesis whole state.shared.applier
  live : (∀ task ∈ state.tasks, task.newVertices = []) →
    env.replayOf genesis state.shared.applier.hashGraph state.shared.applier.hashGraph.frontier =
      .ok state.shared.applier.live

/-- What a segment leaves to the calls that wait and to its own. -/
structure Guarantee (env : Environment Drp Acl) (genesis : ReplayState Drp Acl) (whole : HashGraph)
    (applier : DRPVertexApplier Drp Acl) (others : List (Task Drp Acl)) (segment : Segment Drp Acl) :
    Prop extends Kept env genesis whole segment.1 where
  keeps : applier.hashGraph.Within segment.1.hashGraph
  rely : ∀ other ∈ others, other.Sound env genesis whole segment.1
  waits : ∀ task, segment.2 = .waits task → task.Sound env genesis whole segment.1 ∧
    ∀ vertex ∈ task.newVertices, vertex ∈ segment.1.hashGraph.vertices
  settles : ∀ outcome, segment.2 = .settles outcome →
    ∀ vertex ∈ outcome.accepted, vertex ∈ segment.1.hashGraph.vertices
  live : (∀ other ∈ others, other.newVertices = []) →
    (∀ task, segment.2 = .waits task → task.newVertices = []) →
      env.replayOf genesis segment.1.hashGraph segment.1.hashGraph.frontier = .ok segment.1.live

theorem Guarantee.sound {session : Session Drp Acl} {segment : Segment Drp Acl}
    (guarantee : Guarantee env genesis whole session.applier others segment)
    (accepted : ∀ outcome ∈ session.settled, ∀ vertex ∈ outcome.accepted,
      vertex ∈ session.applier.hashGraph.vertices)
    (new : ∀ other ∈ others, ∀ vertex ∈ other.newVertices,
      vertex ∈ session.applier.hashGraph.vertices) :
    Sound env genesis whole
      ⟨(session.record segment).1, others ++ (session.record segment).2.toList⟩ := by
  rcases segment with ⟨after, task | outcome⟩
  · refine ⟨guarantee.toKept, fun outcome mem vertex vertexMem => ?_, ?_, ?_, fun clean => ?_⟩
    · exact guarantee.keeps vertex (accepted outcome mem vertex vertexMem)
    · intro other mem
      rcases List.mem_append.mp mem with old | isNew
      · exact fun vertex vertexMem => guarantee.keeps vertex (new other old vertex vertexMem)
      · cases List.mem_singleton.mp isNew
        exact (guarantee.waits _ rfl).2
    · intro other mem
      rcases List.mem_append.mp mem with old | isNew
      · exact guarantee.rely other old
      · cases List.mem_singleton.mp isNew
        exact (guarantee.waits _ rfl).1
    · apply guarantee.live
      · exact fun other mem => clean other (List.mem_append_left _ mem)
      · rintro other ⟨⟩
        exact clean task (List.mem_append_right _ List.mem_cons_self)
  · refine ⟨guarantee.toKept, fun found mem vertex vertexMem => ?_, ?_, ?_, fun clean => ?_⟩
    · rcases List.mem_append.mp mem with old | isNew
      · exact guarantee.keeps vertex (accepted found old vertex vertexMem)
      · cases List.mem_singleton.mp isNew
        exact guarantee.settles outcome rfl vertex vertexMem
    · intro other mem
      rcases List.mem_append.mp mem with old | isNew
      · exact fun vertex vertexMem => guarantee.keeps vertex (new other old vertex vertexMem)
      · cases isNew
    · intro other mem
      rcases List.mem_append.mp mem with old | isNew
      · exact guarantee.rely other old
      · cases isNew
    · apply guarantee.live
      · exact fun other mem => clean other (List.mem_append_left _ mem)
      · rintro other ⟨⟩

theorem Kept.withKnown (kept : Kept env genesis whole applier) (known : List Hash) :
    Kept env genesis whole (applier.withKnown known) :=
  ⟨kept.recorded.of_same rfl rfl rfl, kept.layered, kept.within⟩

section

variable (kept : Kept env genesis whole applier) (honest : whole.Honest env)
include kept honest

theorem Kept.replayedFrontier : replayedFrontier env applier =
      env.replayOf genesis applier.hashGraph applier.hashGraph.frontier := by
  have wellFormed := kept.recorded.grown.wellFormed
  exact kept.recorded.getReplay_replay
    (honest.swaps.of_within kept.within wellFormed honest.grown.wellFormed)
    wellFormed.frontier_ne_nil wellFormed.frontier_present

theorem Kept.commit {vertex : Vertex} {staged : Except JsError (ReplayState Drp Acl × Bool)}
    (pending : Pending env genesis whole applier.hashGraph vertex staged)
    (fresh : vertex.hash ∉ applier.hashGraph.hashes) {state : ReplayState Drp Acl} {changed : Bool}
    (run : staged = .ok (state, changed)) : Kept env genesis whole (applier.commit vertex state) ∧
      applier.hashGraph.Within (applier.commit vertex state).hashGraph ∧
      vertex ∈ (applier.commit vertex state).hashGraph.vertices := by
  have wellFormed := kept.recorded.grown.wellFormed
  rcases kept.within.orderly honest.grown.wellFormed wellFormed pending.mem fresh with
    ⟨_, nodup, antichain⟩
  have admissible : applier.hashGraph.Admissible vertex :=
    ⟨fresh, pending.nonempty, nodup, pending.present, antichain⟩
  have grows : Extends applier.hashGraph (applier.hashGraph.addVertex vertex) :=
    .single ⟨vertex, admissible, rfl⟩
  have within := World.within_addVertex kept.within fresh pending.mem
  have added := mem_vertices_addVertex fresh
  have replayed : env.replayOf genesis (applier.hashGraph.addVertex vertex) [vertex.hash] =
      .ok state := by
    rw [env.replayOf_within genesis within (wellFormed.addVertex admissible) honest.grown.wellFormed
      (List.cons_ne_nil _ _) (by simpa using hash_mem_of_mem added)]
    exact pending.replayed state changed run
  exact ⟨⟨kept.recorded.commit admissible replayed,
    kept.layered.addVertex fresh pending.present pending.hashed, within⟩, .of_extends grows, added⟩

theorem Kept.pending {vertex : Vertex} {now : ℤ}
    (valid : validateVertex env.computeHash vertex applier.hashGraph now false = .ok ())
    (fresh : vertex.hash ∉ applier.hashGraph.hashes) (mem : vertex ∈ whole.vertices) :
    Pending env genesis whole applier.hashGraph vertex
      (applier.stageVertex env now vertex vertex.isACL) := by
  have wellFormed := kept.recorded.grown.wellFormed
  rcases kept.within.orderly honest.grown.wellFormed wellFormed mem fresh with
    ⟨isCreated, nodup, antichain⟩
  have nonempty := (validateVertex_eq_ok.mp valid).2.1
  have present := present_of_validateVertex valid
  have admissible : applier.hashGraph.Admissible vertex := ⟨fresh, nonempty, nodup, present, antichain⟩
  have within := World.within_addVertex kept.within fresh mem
  refine ⟨mem, nonempty, present, hashed_of_validateVertex valid,
    fun state changed run => ?_⟩
  rw [← env.replayOf_within genesis within (wellFormed.addVertex admissible) honest.grown.wellFormed
    (List.cons_ne_nil _ _) (by simp [hashes_addVertex fresh])]
  exact kept.recorded.replayOf_stageVertex admissible (honest.known vertex isCreated)
    (honest.swaps.of_within within (wellFormed.addVertex admissible) honest.grown.wellFormed) run

end

section Segments

variable {locals : MergeLocals} {rest : List Entry}

section

variable (kept : Kept env genesis whole applier) (honest : whole.Honest env)
  (rely : ∀ other ∈ others, other.Sound env genesis whole applier)
include kept honest rely

theorem Kept.guarantee_commit (alone : ∀ other ∈ others, other.holdsLive = false)
    (offered : Offered env whole rest)
    (new : ∀ vertex ∈ locals.newVertices, vertex ∈ applier.hashGraph.vertices) {vertex : Vertex}
    {staged : Except JsError (ReplayState Drp Acl × Bool)}
    (pending : Pending env genesis whole applier.hashGraph vertex staged)
    (fresh : vertex.hash ∉ applier.hashGraph.hashes) {state : ReplayState Drp Acl} {changed : Bool}
    (run : staged = .ok (state, changed)) : Guarantee env genesis whole applier others
      (applier.commit vertex state, .waits (.scanning (locals.push vertex) rest)) := by
  rcases kept.commit honest pending fresh run with ⟨committed, keeps, added⟩
  refine ⟨committed, keeps, fun other mem => (rely other mem).grow (alone other mem) keeps, ?_, ?_, ?_⟩
  · rintro task ⟨⟩
    refine ⟨offered, fun other mem => ?_⟩
    rcases List.mem_append.mp mem with old | isNew
    · exact keeps other (new other old)
    · rw [List.mem_singleton.mp isNew]
      exact added
  · rintro outcome ⟨⟩
  · intro _ clean
    exact absurd (clean _ rfl) (List.append_ne_nil_of_right_ne_nil _ (List.cons_ne_nil _ _))

theorem Kept.guarantee_scan
    (alone : (∃ entry ∈ rest, (Merging.start applier).skips entry.vertex = false) →
      ∀ other ∈ others, other.holdsLive = false) (offered : Offered env whole rest)
    (new : ∀ vertex ∈ locals.newVertices, vertex ∈ applier.hashGraph.vertices)
    (live : (∀ other ∈ others, other.newVertices = []) → locals.newVertices = [] →
      env.replayOf genesis applier.hashGraph applier.hashGraph.frontier = .ok applier.live)
    (calm : ∀ error, (scan env rest locals applier).2 ≠ .settles (.merge (.error error))) :
    Guarantee env genesis whole applier others (scan env rest locals applier) := by
  have scanned := scanned_scan env rest locals applier
  have quiet : ∀ {known : List Hash} {next : MergeLocals} {task : Task Drp Acl},
      locals.Continues next → task.newVertices = next.newVertices →
      task.Sound env genesis whole applier →
        Guarantee env genesis whole applier others (applier.withKnown known, .waits task) := by
    intro known next task continues same sound
    have same := same.trans continues.newVertices
    refine ⟨kept.withKnown known, fun _ mem => mem, fun other mem => (rely other mem).of_same rfl rfl rfl,
      ?_, ?_, ?_⟩
    · rintro other ⟨⟩
      exact ⟨sound.of_same rfl rfl rfl, same ▸ new⟩
    · rintro outcome ⟨⟩
    · intro clean cleanTask
      exact live clean (same ▸ cleanTask task rfl)
  generalize scan env rest locals applier = segment at scanned calm
  cases scanned with
  | throws known error entry mem unskipped failed raised => exact absurd rfl (calm error)
  | unfinished known error entry staged mem unskipped run failed => exact absurd rfl (calm error)
  | suspends known next before after entry split passed continues unskipped valid =>
    have hashed := validateVertexHash_eq_ok.mpr
      (hashed_of_validateVertex valid)
    have mem : entry ∈ rest := split ▸ List.mem_append_right _ List.mem_cons_self
    refine quiet continues rfl ⟨fun other otherMem => offered other ?_, ?_⟩
    · exact split ▸ List.mem_append_right _ (.tail _ otherMem)
    · exact kept.pending honest valid (Merging.notMem_of_not_skips unskipped)
        (offered entry mem hashed)
  | commits known next before after entry staged split passed continues unskipped run =>
    rcases Outcome.then_eq_ok.mp run with ⟨valid, _⟩
    have hashed := validateVertexHash_eq_ok.mpr
      (hashed_of_validateVertex valid)
    have mem : entry ∈ rest := split ▸ List.mem_append_right _ List.mem_cons_self
    have fresh := Merging.notMem_of_not_skips unskipped
    have pending := kept.pending honest valid fresh (offered entry mem hashed)
    have committed := (kept.withKnown known).guarantee_commit honest
      (fun other mem => (rely other mem).of_same rfl rfl rfl) (alone ⟨entry, mem, unskipped⟩)
      (fun other otherMem => offered other (split ▸ List.mem_append_right _ (.tail _ otherMem)))
      (continues.newVertices ▸ new) pending fresh run
    exact ⟨committed.toKept, committed.keeps, committed.rely, committed.waits, committed.settles,
      committed.live⟩
  | ends known next passed continues =>
    rcases endLoop_cases env next (applier.withKnown known) with
      ⟨last, ⟨error, _, same⟩ | ⟨final, aclState, replay, further, replays, same⟩⟩
    · rw [same] at calm
      exact absurd rfl (calm error)
    · rw [same]
      refine @quiet _ final _ ⟨further.promise.trans continues.promise,
        further.newVertices.trans continues.newVertices⟩ rfl ?_
      exact (kept.replayedFrontier honest).symm.trans replays

theorem Kept.guarantee_settleVertex (alone : ∀ other ∈ others, other.holdsLive = false)
    (offered : Offered env whole rest)
    (new : ∀ vertex ∈ locals.newVertices, vertex ∈ applier.hashGraph.vertices)
    (live : (∀ other ∈ others, other.newVertices = []) → locals.newVertices = [] →
      env.replayOf genesis applier.hashGraph applier.hashGraph.frontier = .ok applier.live)
    {vertex : Vertex} {staged : Except JsError (ReplayState Drp Acl × Bool)}
    (pending : Pending env genesis whole applier.hashGraph vertex staged)
    (fresh : vertex.hash ∉ applier.hashGraph.hashes)
    (calm : ∀ error, (settleVertex env locals vertex staged rest (scan env rest) applier).2 ≠
      .settles (.merge (.error error))) : Guarantee env genesis whole applier others
      (settleVertex env locals vertex staged rest (scan env rest) applier) := by
  cases staged with
  | ok staged =>
    rcases settleVertex_ok env locals vertex staged rest (scan env rest) applier with
      ⟨error, _, same⟩ | same
    · rw [same] at calm
      exact absurd rfl (calm error)
    · rw [same]
      exact kept.guarantee_commit honest rely alone offered new pending fresh rfl
  | error error =>
    rcases settleVertex_error env locals vertex error rest (scan env rest) applier with
      ⟨_, same⟩ | ⟨known, next, continues, same⟩
    · rw [same] at calm
      exact absurd rfl (calm error)
    · rw [same] at calm ⊢
      have scanned := (kept.withKnown known).guarantee_scan honest
        (fun other mem => (rely other mem).of_same rfl rfl rfl) (fun _ => alone) offered
        (continues.newVertices ▸ new) (continues.newVertices ▸ live) calm
      exact ⟨scanned.toKept, scanned.keeps, scanned.rely, scanned.waits, scanned.settles,
        scanned.live⟩

end

section

variable (kept : Kept env genesis whole applier)
  (rely : ∀ other ∈ others, other.Sound env genesis whole applier)
  (new : ∀ vertex ∈ locals.newVertices, vertex ∈ applier.hashGraph.vertices)
include kept rely new

theorem Kept.guarantee_writeACL
    (live : (∀ other ∈ others, other.newVertices = []) → locals.newVertices = [] →
      env.replayOf genesis applier.hashGraph applier.hashGraph.frontier = .ok applier.live)
    {aclState : Acl} {replay : Replay Drp Acl}
    (replays : env.replayOf genesis applier.hashGraph applier.hashGraph.frontier =
      (drpReplay env replay).map fun drpState => { drpState, aclState })
    (calm : ∀ error, (writeACL env locals aclState replay applier).2 ≠
      .settles (.merge (.error error))) :
    Guarantee env genesis whole applier others (writeACL env locals aclState replay applier) := by
  have written : ∀ state,
      env.replayOf genesis applier.hashGraph applier.hashGraph.frontier = .ok state →
        aclState = state.aclState := by
    intro state replayed
    rw [replayed] at replays
    rcases Outcome.map_eq_ok.mp replays.symm with ⟨_, _, rfl⟩
    rfl
  have waits : Guarantee env genesis whole applier others
      ({ applier with live := { applier.live with aclState } },
        .waits (.writing locals (drpReplay env replay))) := by
    refine ⟨⟨kept.recorded.of_same rfl rfl rfl, kept.layered, kept.within⟩, fun _ mem => mem, ?_, ?_, ?_,
      fun clean cleanTask => ?_⟩
    · intro other mem
      refine (rely other mem).relive rfl rfl fun state replayed => ⟨written state replayed, ?_⟩
      rintro rfl
      exact ReplayState.ext rfl (written _ replayed)
    · rintro task ⟨⟩
      exact ⟨replays, new⟩
    · rintro outcome ⟨⟩
    · have replayed := live clean (cleanTask _ rfl)
      rw [written _ replayed]
      exact replayed
  rcases writeACL_cases env locals aclState replay applier with ⟨error, _, same⟩ | same
  · rw [same] at calm
    exact absurd rfl (calm error)
  · rw [same]
    exact waits

theorem Kept.guarantee_writeDRP {drpRun : Except JsError Drp}
    (replays : env.replayOf genesis applier.hashGraph applier.hashGraph.frontier =
      drpRun.map fun drpState => { drpState, aclState := applier.live.aclState })
    (calm : ∀ error, (writeDRP locals drpRun applier).2 ≠ .settles (.merge (.error error))) :
    Guarantee env genesis whole applier others (writeDRP locals drpRun applier) := by
  cases drpRun with
  | error error => exact absurd rfl (calm error)
  | ok drpState =>
    have consistent : ({ applier with live := { applier.live with drpState } } :
        DRPVertexApplier Drp Acl).Consistent env genesis :=
      ⟨kept.recorded.of_same rfl rfl rfl, replays⟩
    have advanced := consistent.advanceCheckpointIfNeeded
    have sameGraph : (writeDRP locals (.ok drpState) applier).1.hashGraph = applier.hashGraph :=
      DRPVertexApplier.hashGraph_advanceCheckpointIfNeeded
    refine ⟨⟨advanced.toRecorded, sameGraph ▸ kept.layered, sameGraph ▸ kept.within⟩,
      sameGraph ▸ fun _ mem => mem, ?_, ?_, ?_, fun _ _ => advanced.live⟩
    · intro other mem
      refine (rely other mem).relive sameGraph
        DRPVertexApplier.peerId_advanceCheckpointIfNeeded fun state replayed => ?_
      rw [replays] at replayed
      cases replayed
      have live : (writeDRP locals (.ok drpState) applier).1.live =
          { drpState, aclState := applier.live.aclState } :=
        DRPVertexApplier.live_advanceCheckpointIfNeeded
      rw [live]
      exact ⟨rfl, fun _ => rfl⟩
    · rintro task ⟨⟩
    · rintro outcome ⟨⟩ vertex mem
      exact sameGraph ▸ new vertex mem

end

section

variable {call : DRPProxyChainArgs}
  (kept : Kept env genesis whole applier) (honest : whole.Honest env)
  (binding : ContentBinding env.computeHash)
  (rely : ∀ other ∈ others, other.Sound env genesis whole applier)
include kept honest binding rely

theorem Kept.guarantee_endCall (alone : ∀ other ∈ others, other.holdsLive = false)
    (live : env.replayOf genesis applier.hashGraph applier.hashGraph.frontier = .ok applier.live)
    (within : (endCall env (applier.createVertex env call) call.type
      (env.code.stage applier.live [] (applier.createVertex env call)
        (call.type = .acl)) applier).1.hashGraph.Within whole) :
    Guarantee env genesis whole applier others
      (endCall env (applier.createVertex env call) call.type
        (env.code.stage applier.live [] (applier.createVertex env call)
          (call.type = .acl)) applier) := by
  have unchanged : ∀ {outcome : Settled}, outcome.accepted = [] →
      Guarantee env genesis whole applier others (applier, .settles outcome) := by
    intro outcome nothing
    refine ⟨kept, fun _ mem => mem, rely, ?_, ?_, fun _ _ => live⟩
    · rintro task ⟨⟩
    · rintro found ⟨⟩ vertex mem
      rw [nothing] at mem
      cases mem
  cases staged : env.code.stage applier.live [] (applier.createVertex env call)
      (call.type = .acl) with
  | error error => exact unchanged rfl
  | ok result =>
    rcases result with ⟨state, changed⟩
    cases changed with
    | false => exact unchanged rfl
    | true =>
      rw [staged] at within
      have fresh := DRPVertexApplier.fresh_createVertex kept.layered binding call
      have wellFormed := kept.recorded.grown.wellFormed
      have admissible := DRPVertexApplier.admissible_createVertex wellFormed fresh
      have sameGraph : (endCall env (applier.createVertex env call) call.type
          (.ok (state, true)) applier).1.hashGraph =
            applier.hashGraph.addVertex (applier.createVertex env call) := by
        simp [endCall, DRPVertexApplier.finishCall, DRPVertexApplier.commit]
      have consistent : (endCall env (applier.createVertex env call) call.type
          (.ok (state, true)) applier).1.Consistent env genesis :=
        DRPVertexApplier.Consistent.commit_createVertex ⟨kept.recorded, live⟩ fresh
          (honest.swaps.of_within (sameGraph ▸ within) (wellFormed.addVertex admissible)
            honest.grown.wellFormed) staged
      have keeps : applier.hashGraph.Within (applier.hashGraph.addVertex
          (applier.createVertex env call)) :=
        .of_extends (.single ⟨_, admissible, rfl⟩)
      refine ⟨⟨consistent.toRecorded, ?_, within⟩, sameGraph ▸ keeps, fun other mem => ?_, ?_, ?_,
        fun _ _ => consistent.live⟩
      · rw [sameGraph]
        exact kept.layered.addVertex fresh admissible.present rfl
      · exact (rely other mem).grow (alone other mem) (sameGraph ▸ keeps)
      · rintro task ⟨⟩
      · rintro outcome ⟨⟩ vertex mem
        rw [sameGraph, vertices_addVertex fresh]
        exact List.mem_append_right _ mem

theorem Kept.guarantee_beginCall {suspends : Bool}
    (alone : ¬(suspends = true ∧ call.type = .drp) → ∀ other ∈ others, other.holdsLive = false)
    (live : env.replayOf genesis applier.hashGraph applier.hashGraph.frontier = .ok applier.live)
    (within :
      (beginCall env suspends call applier).1.hashGraph.Within whole) :
    Guarantee env genesis whole applier others (beginCall env suspends call applier) := by
  have consistent : applier.Consistent env genesis := ⟨kept.recorded, live⟩
  have advanced := consistent.advanceCheckpointIfNeeded
  have sameGraph := @DRPVertexApplier.hashGraph_advanceCheckpointIfNeeded _ _ applier
  have sameLive := @DRPVertexApplier.live_advanceCheckpointIfNeeded _ _ applier
  have samePeer := @DRPVertexApplier.peerId_advanceCheckpointIfNeeded _ _ applier
  have keptAdvanced : Kept env genesis whole applier.advanceCheckpointIfNeeded :=
    ⟨advanced.toRecorded, sameGraph ▸ kept.layered, sameGraph ▸ kept.within⟩
  have relyAdvanced : ∀ other ∈ others,
      other.Sound env genesis whole applier.advanceCheckpointIfNeeded :=
    fun other mem => (rely other mem).of_same sameGraph sameLive samePeer
  have sameVertex := @DRPVertexApplier.createVertex_advanceCheckpointIfNeeded _ _ env applier call
  rcases beginCall_cases env suspends call applier with
    ⟨error, same⟩ | ⟨valid, ⟨_, same⟩ | ⟨synchronous, same⟩⟩
  · rw [same]
    refine ⟨kept, fun _ mem => mem, rely, ?_, ?_, fun _ _ => live⟩
    · rintro task ⟨⟩
    · rintro outcome ⟨⟩ vertex ⟨⟩
  · rw [same]
    refine ⟨keptAdvanced, sameGraph ▸ fun _ mem => mem, relyAdvanced, ?_, ?_, fun _ _ => advanced.live⟩
    · rintro task ⟨⟩
      refine ⟨⟨⟨call, rfl, sameVertex.symm, ?_⟩, advanced.live, rfl⟩, ?_⟩
      · rw [sameGraph]
        exact valid
      · rintro vertex ⟨⟩
    · rintro outcome ⟨⟩
  · rw [same] at within ⊢
    rw [← sameVertex] at within ⊢
    have ended := keptAdvanced.guarantee_endCall honest binding relyAdvanced (alone synchronous)
      advanced.live within
    exact ⟨ended.toKept, sameGraph ▸ ended.keeps, ended.rely, ended.waits, ended.settles, ended.live⟩

end

end Segments

section Runs

variable {state : State Drp Acl} {action : Cooperative.Action Request Unit} {segment : Segment Drp Acl}

def segmentOf (env : Environment Drp Acl) (state : State Drp Acl) :
    Cooperative.Action Request Unit → Option (Segment Drp Acl)
  | .start request => some (begin env request state.shared.applier)
  | .resume index _ => state.tasks[index]?.map fun task => goOn env task state.shared.applier

theorem step_of_segmentOf (found : segmentOf env state action = some segment) :
    (program env).step state action = ⟨(state.shared.record segment).1,
      state.others action ++ (state.shared.record segment).2.toList⟩ := by
  cases action with
  | start request =>
    cases found
    rfl
  | resume index event =>
    rcases Option.map_eq_some_iff.mp found with ⟨task, isTask, rfl⟩
    simp only [Cooperative.Program.step, Cooperative.Program.effect, isTask, Option.map_some]
    rfl

theorem step_of_segmentOf_none (absent : segmentOf env state action = none) :
    (program env).step state action = state := by
  cases action with
  | start request => cases absent
  | resume index event =>
    simp only [segmentOf, Option.map_eq_none_iff] at absent
    simp only [Cooperative.Program.step, Cooperative.Program.effect, absent, Option.map_none]

/-- The graph after a segment that can end a local call belongs to the history. -/
def StaysWithin (env : Environment Drp Acl) (whole : HashGraph) (state : State Drp Acl) :
    Cooperative.Action Request Unit → Prop
  | .start (.call suspends call) =>
    (beginCall env suspends call state.shared.applier).1.hashGraph.Within whole
  | .start (.merge _ _ vertices) => Offered env whole vertices
  | .resume index _ => ∀ task ∈ state.tasks[index]?, task.called ≠ [] →
      (goOn env task state.shared.applier).1.hashGraph.Within whole

section

variable (sound : Sound env genesis whole state) (honest : whole.Honest env)
  (binding : ContentBinding env.computeHash) (disciplined : Disciplined state action)
  (stays : StaysWithin env whole state action)
include sound honest binding disciplined stays

theorem Sound.guarantee (found : segmentOf env state action = some segment)
    (calm : ∀ error, segment.2 ≠ .settles (.merge (.error error))) :
    Guarantee env genesis whole state.shared.applier (state.others action) segment := by
  cases action with
  | start request =>
    cases found
    cases request with
    | call suspends call =>
      exact sound.toKept.guarantee_beginCall honest binding sound.tasks disciplined.2
        (sound.live disciplined.1) stays
    | merge promise suspends vertices =>
      refine sound.toKept.guarantee_scan honest sound.tasks ?_ stays (fun _ mem => nomatch mem)
        (fun clean _ => sound.live clean) calm
      rintro ⟨entry, mem, unskipped⟩
      apply disciplined
      exact List.any_eq_true.mpr ⟨entry, mem, by rw [unskipped]; rfl⟩
  | resume index event =>
    rcases Option.map_eq_some_iff.mp found with ⟨task, isTask, rfl⟩
    have isOther := fun other => @Cooperative.Config.mem_tasks_iff _ _ state index task other isTask
    have mem : task ∈ state.tasks := (isOther task).mpr (Or.inl rfl)
    have taskSound := sound.tasks task mem
    have rely : ∀ other ∈ state.tasks.eraseIdx index,
        other.Sound env genesis whole state.shared.applier :=
      fun other otherMem => sound.tasks other ((isOther other).mpr (Or.inr otherMem))
    have live : (∀ other ∈ state.tasks.eraseIdx index, other.newVertices = []) →
        task.newVertices = [] → env.replayOf genesis state.shared.applier.hashGraph
          state.shared.applier.hashGraph.frontier = .ok state.shared.applier.live := by
      intro clean cleanTask
      refine sound.live fun other otherMem => ?_
      rcases (isOther other).mp otherMem with rfl | otherMem
      · exact cleanTask
      · exact clean other otherMem
    rcases disciplined task isTask with ⟨absent, alone⟩
    cases task with
    | scanning locals rest =>
      refine sound.toKept.guarantee_scan honest rely ?_ taskSound (sound.new _ mem) live calm
      rintro ⟨entry, entryMem, unskipped⟩
      apply alone
      exact List.any_eq_true.mpr ⟨entry, entryMem, by rw [unskipped]; rfl⟩
    | applying locals vertex staged rest =>
      refine sound.toKept.guarantee_settleVertex honest rely (alone rfl) taskSound.1
        (sound.new _ mem) live taskSound.2 ?_ calm
      simpa [Task.isAbsent, HashGraph.has] using absent
    | replaying locals aclState replay =>
      exact sound.toKept.guarantee_writeACL rely (sound.new _ mem) live taskSound calm
    | writing locals drpRun =>
      exact sound.toKept.guarantee_writeDRP rely (sound.new _ mem) taskSound calm
    | calling vertex type staged =>
      have within := stays _ isTask (List.cons_ne_nil _ _)
      rcases taskSound with ⟨⟨call, rfl, rfl, _⟩, replayed, rfl⟩
      exact sound.toKept.guarantee_endCall honest binding rely (alone rfl) replayed within

theorem Sound.step
    (calm : ∀ outcome ∈ ((program env).step state action).shared.settled, ∀ error,
      outcome ≠ .merge (.error error)) : Sound env genesis whole ((program env).step state action) ∧
      state.shared.applier.hashGraph.Within
        ((program env).step state action).shared.applier.hashGraph := by
  cases found : segmentOf env state action with
  | none =>
    rw [step_of_segmentOf_none found]
    exact ⟨sound, fun _ mem => mem⟩
  | some segment =>
    rw [step_of_segmentOf found] at calm ⊢
    have calm : ∀ error, segment.2 ≠ .settles (.merge (.error error)) := by
      intro error same
      rcases segment with ⟨after, task | outcome⟩
      · cases same
      · cases same
        exact calm _ (List.mem_append_right _ List.mem_cons_self) error rfl
    have guarantee := sound.guarantee honest binding disciplined stays found calm
    have others : ∀ other ∈ state.others action, other ∈ state.tasks := by
      cases action with
      | start request => exact fun _ mem => mem
      | resume index event => exact fun _ mem => List.mem_of_mem_eraseIdx mem
    refine ⟨guarantee.sound sound.accepted fun other mem => sound.new other (others other mem), ?_⟩
    rcases segment with ⟨after, task | outcome⟩
    · exact guarantee.keeps
    · exact guarantee.keeps

end

theorem settled_subset_step (env : Environment Drp Acl) (state : State Drp Acl)
    (action : Cooperative.Action Request Unit) :
    state.shared.settled ⊆ ((program env).step state action).shared.settled := by
  cases found : segmentOf env state action with
  | none => rw [step_of_segmentOf_none found]; exact fun _ mem => mem
  | some segment =>
    rw [step_of_segmentOf found]
    rcases segment with ⟨after, task | outcome⟩
    · exact fun _ mem => mem
    · exact List.subset_append_left _ _

theorem hashGraph_endCall (env : Environment Drp Acl) (vertex : Vertex) (type : DrpType)
    (staged : Except JsError (ReplayState Drp Acl × Bool)) (applier : DRPVertexApplier Drp Acl) :
    (endCall env vertex type staged applier).1.hashGraph = applier.hashGraph ∨
      (endCall env vertex type staged applier).1.hashGraph = applier.hashGraph.addVertex vertex := by
  rcases staged with error | ⟨state, _ | _⟩
  · exact Or.inl rfl
  · exact Or.inl rfl
  · right
    simp [endCall, DRPVertexApplier.finishCall, DRPVertexApplier.commit]

theorem Sound.staysWithin (sound : Sound env genesis whole state)
    (binding : ContentBinding env.computeHash) (brings : Brings env whole state action) :
    StaysWithin env whole state action := by
  have added : ∀ {call staged} {applier : DRPVertexApplier Drp Acl},
      applier.hashGraph = state.shared.applier.hashGraph →
      state.shared.applier.createVertex env call ∈ whole.vertices →
        (endCall env (state.shared.applier.createVertex env call) call.type staged
          applier).1.hashGraph.Within whole := by
    intro call staged applier sameGraph mem
    rcases hashGraph_endCall env (state.shared.applier.createVertex env call) call.type staged
      applier with same | same
    · rw [same, sameGraph]
      exact sound.within
    · rw [same, sameGraph]
      exact World.within_addVertex sound.within
        (DRPVertexApplier.fresh_createVertex sound.layered binding call) mem
  cases action with
  | start request =>
    cases request with
    | merge promise suspends vertices => exact brings
    | call suspends call =>
      have sameGraph := @DRPVertexApplier.hashGraph_advanceCheckpointIfNeeded _ _
        state.shared.applier
      simp only [StaysWithin]
      rcases beginCall_cases env suspends call state.shared.applier with
        ⟨error, same⟩ | ⟨_, ⟨_, same⟩ | ⟨synchronous, same⟩⟩
      · rw [same]
        exact sound.within
      · rw [same]
        simp only [sameGraph]
        exact sound.within
      · rw [same]
        exact added sameGraph (brings synchronous)
  | resume index event =>
    intro task isTask isCall
    have mem : task ∈ state.tasks := (Cooperative.Config.mem_tasks_iff isTask).mpr (Or.inl rfl)
    cases task with
    | calling vertex type staged =>
      rcases sound.tasks _ mem with ⟨⟨call, rfl, rfl, _⟩, _, _⟩
      exact added rfl (brings _ isTask _ List.mem_cons_self)
    | scanning locals rest => exact absurd rfl isCall
    | applying locals vertex staged rest => exact absurd rfl isCall
    | replaying locals aclState replay => exact absurd rfl isCall
    | writing locals drpRun => exact absurd rfl isCall

end Runs

end Session

/--
Interleaved operations are linearizable.  A run starts on a consistent replica
and consists of disciplined actions whose vertices all belong to one honest
history.  Once no call is in flight and none has thrown, every accepted vertex is
in the graph exactly once, neither the frontier nor any list of forward edges
has duplicates, and the live object and every checkpoint are the replay of their
frontier.
-/
theorem disciplined_interleavings_are_linearizable {Drp Acl : Type} {env : Environment Drp Acl}
    {genesis : ReplayState Drp Acl} {whole : HashGraph} {replica : DRPVertexApplier Drp Acl}
    {actions : List (Cooperative.Action Request Unit)} {final : Session.State Drp Acl}
    (binding : ContentBinding env.computeHash) (honest : whole.Honest env)
    (consistent : replica.Consistent env genesis)
    (layered : replica.hashGraph.Layered env.computeHash) (within : replica.hashGraph.Within whole)
    (permits : (Session.program env).Permits
      (fun state action => Session.Disciplined state action ∧ Session.Brings env whole state action)
      ⟨⟨replica, []⟩, []⟩ actions)
    (run : (Session.program env).run ⟨⟨replica, []⟩, []⟩ actions = final)
    (settled : final.tasks = []) (calm : ∀ outcome ∈ final.shared.settled, outcome.threw = false) :
    final.shared.applier.hashGraph.hashes.Nodup ∧
    (∀ outcome ∈ final.shared.settled, ∀ vertex ∈ outcome.accepted,
      vertex ∈ final.shared.applier.hashGraph.vertices) ∧
    final.shared.applier.hashGraph.frontier.Nodup ∧
    (∀ hash, (final.shared.applier.hashGraph.forwardEdges hash).Nodup) ∧
    env.replayOf genesis final.shared.applier.hashGraph final.shared.applier.hashGraph.frontier =
      .ok final.shared.applier.live ∧
    ∀ checkpoint ∈ final.shared.applier.checkpoints,
      env.replayOf genesis final.shared.applier.hashGraph checkpoint.frontier =
        .ok checkpoint.state := by
  have start : Session.Sound env genesis whole ⟨⟨replica, []⟩, []⟩ :=
    ⟨⟨consistent.toRecorded, layered, within⟩, fun _ mem => (nomatch mem), fun _ mem => (nomatch mem),
      fun _ mem => (nomatch mem), fun _ => consistent.live⟩
  have kept := @Cooperative.Program.run_invariant _ _ _ _ _ _ _ _
    (fun state : Session.State Drp Acl =>
      (∀ outcome ∈ state.shared.settled, ∀ error, outcome ≠ .merge (.error error)) →
        Session.Sound env genesis whole state)
    (fun state action sound allowed calm =>
      have before := sound fun outcome mem =>
        calm outcome (Session.settled_subset_step env state action mem)
      (before.step honest binding allowed.1 (before.staysWithin binding allowed.2) calm).1)
    (fun _ => start) permits
  rw [run] at kept
  have sound := kept <| by
    rintro outcome mem error rfl
    cases calm _ mem
  have wellFormed := sound.recorded.grown.wellFormed
  refine ⟨wellFormed.nodup, sound.accepted, wellFormed.frontierNodup, wellFormed.edgesNodup, ?_, ?_⟩
  · apply sound.live
    rw [settled]
    exact fun _ mem => nomatch mem
  · exact fun checkpoint mem => (sound.recorded.baked checkpoint mem).baked

namespace InterleavingExample

open AclExample

def interleavedNames : List ((String × List Hash) × Hash) :=
  [(("alice", [rootHash]), "v"), (("bob", [rootHash]), "b"), (("bob", ["v"]), "m")]

def raceHistory : HashGraph :=
  initial.addVertices [vertex "b" "bob" .drp "mul" [] [rootHash], permitted]

def merging (promise : ℕ) (suspends : Bool) : Cooperative.Action Request Unit :=
  .start (.merge promise false [⟨0, suspends, permitted⟩])

def multiplying : Cooperative.Action Request Unit := .start (.call false ⟨0, 0, .drp, "mul", []⟩)

def next : Cooperative.Action Request Unit := .resume 0 ()

def race (actions : List (Cooperative.Action Request Unit)) :
    Session.State (List String) ObjectACL :=
  (Session.program (environment .revokeWins interleavedNames)).run ⟨⟨bystander, []⟩, []⟩ actions

def orderly : List (Cooperative.Action Request Unit) :=
  [merging 0 true, multiplying, next, merging 1 false, next, next, next, next, next]

def overtaken : List (Cooperative.Action Request Unit) :=
  [merging 0 false, next, multiplying, next, next]

def doubled : List (Cooperative.Action Request Unit) :=
  [merging 0 true, merging 1 true, next, next, next, next, next, next, next, next]

end InterleavingExample

open AclExample InterleavingExample in
theorem disciplined_interleavings_are_linearizable_overlapping :
    (race orderly).shared.applier.hashGraph.hashes = [rootHash, "b", "v"] ∧
    (environment .revokeWins interleavedNames).replayOf pairGenesis
      (race orderly).shared.applier.hashGraph (race orderly).shared.applier.hashGraph.frontier =
        .ok (race orderly).shared.applier.live := by
  have binding : ContentBinding (NamedHash.namedHash interleavedNames) :=
    NamedHash.contentBinding_namedHash (by decide) (by decide +kernel)
  have honest : raceHistory.Honest (environment .revokeWins interleavedNames) := by
    refine ⟨initial_wellFormed.extends_addVertices (by decide +kernel), ?_, ?_⟩
    · unfold Vertex.KnownType
      decide +kernel
    · intro _ _
      decide +kernel
  have within : bystander.hashGraph.Within raceHistory := by
    unfold HashGraph.Within
    decide +kernel
  have settled : (race orderly).tasks = [] := List.isEmpty_iff.mp (by decide +kernel)
  have linearized := disciplined_interleavings_are_linearizable binding honest
    (DRPVertexApplier.consistent_create (environment .revokeWins interleavedNames) pairGenesis "bob" 256)
    (layered_initial _) within (by decide +kernel) rfl settled (by decide +kernel)
  exact ⟨by decide +kernel, linearized.2.2.2.2.1⟩

open AclExample InterleavingExample in
/--
All calls return.  In the first run a local call is made while a merge has a
replay to write: the call's vertex stays in the graph without its effect on the
live object, and its snapshot lacks the merged vertex.  In the second run two
merges wait for the same vertex: it is added twice.
-/
theorem overlapping_operations_diverge :
    ((race overtaken).tasks.isEmpty = true ∧
      (∀ outcome ∈ (race overtaken).shared.settled, outcome.threw = false) ∧
      (race overtaken).shared.applier.hashGraph.frontier = ["m"] ∧
      (race overtaken).shared.applier.live.drpState = ["add"] ∧
      (race overtaken).shared.applier.states.drpStates "m" = some ["mul"] ∧
      ((environment .revokeWins interleavedNames).replayOf pairGenesis
        (race overtaken).shared.applier.hashGraph ["m"]).map (·.drpState) = .ok ["add", "mul"]) ∧
    (race doubled).tasks.isEmpty = true ∧
      (∀ outcome ∈ (race doubled).shared.settled, outcome.threw = false) ∧
      (race doubled).shared.applier.hashGraph.frontier = ["v", "v"] ∧
      (race doubled).shared.applier.hashGraph.forwardEdges rootHash = ["v", "v"] := by
  decide +kernel

end TsDrp
