import TsDrp.HashGraph.Basic
import TsDrp.Library.Cooperative

/-!
# The objects a node keeps

A node keeps its objects in a store, by their ids.  The handlers of updates and
of accepted syncs look an object up, wait until their vertices are merged and put
the object into the store again; an object that the node has subscribed to is put
into the store whenever a call or a merge has changed it, whoever made it.  Both
happen as well when the object has been purged in the meantime.

Objects and callbacks are known by their numbers.  The callbacks that the
application has registered with the store run inside `put`; they are application
code, and the application may act after every step here.
-/

namespace TsDrp

structure DRPObjectStore where
  store : String → Option ℕ
  subscriptions : String → List ℕ

namespace DRPObjectStore

variable (objectStore : DRPObjectStore)

def empty : DRPObjectStore where
  store := fun _ => none
  subscriptions := fun _ => []

def get (objectId : String) : Option ℕ := objectStore.store objectId

def put (objectId : String) (object : ℕ) : DRPObjectStore :=
  { objectStore with store := Function.update objectStore.store objectId (some object) }

def subscribe (objectId : String) (callback : ℕ) : DRPObjectStore :=
  { objectStore with
    subscriptions := Function.update objectStore.subscriptions objectId
      (objectStore.subscriptions objectId ++ [callback]) }

def remove (objectId : String) : DRPObjectStore where
  store := Function.update objectStore.store objectId none
  subscriptions := Function.update objectStore.subscriptions objectId []

end DRPObjectStore

/-- An object as the node sees it: its id, and how many of its subscriptions are the node's. -/
structure NodeObject where
  id : String
  subscriptions : ℕ

/-- The objects made so far, the store, and the calls of the application's callbacks. -/
structure DRPNode where
  objects : List NodeObject
  objectStore : DRPObjectStore
  notified : List (ℕ × String × ℕ)

inductive MergeCaller where
  | updateHandler
  | syncAcceptHandler
  | application
deriving DecidableEq

/-- `originFn` of a notification; the missing hashes are what the merge returns. -/
inductive OriginFn where
  | callFn
  | merge (caller : MergeCaller) (missing : List Hash)

/-- Where a call waits, or where application code may run inside it. -/
inductive NodeTask where
  /-- `createObject` or `connectObject` has put its object and subscribes to it next. -/
  | subscribing (object : ℕ)
  | calling (object : ℕ)
  | merging (object : ℕ) (caller : MergeCaller)
  /-- The object calls its subscriptions one after the other. -/
  | notifying (object position : ℕ) (originFn : OriginFn)
  /-- The handler goes on with the result of the merge. -/
  | merged (object : ℕ) (caller : MergeCaller) (missing : List Hash)
  /-- The handler of an update waits for the sync that asks for missing vertices. -/
  | recovering (object : ℕ)

inductive NodeRequest where
  /-- `new DRPObject`, without the node -/
  | newObject (id : String)
  | put (id : String) (object : ℕ)
  | createObject (id : String)
  | connectObject (id : String)
  /-- The message queue may refuse before anything is installed. -/
  | subscribeObject (object : ℕ) (accepted : Bool)
  | unsubscribeObject (id : String) (purge : Bool)
  | subscribe (id : String) (callback : ℕ)
  | call (object : ℕ)
  | merge (object : ℕ)
  | update (id : String)
  /-- An accepted sync with or without vertices whose signatures verify. -/
  | syncAccept (id : String) (verified : Bool)
deriving DecidableEq

/-- A call goes on, a merge with the hashes it misses; or an exception ends it. -/
inductive NodeEvent where
  | goesOn (missing : List Hash)
  | throws
deriving DecidableEq

namespace DRPNode

def start : DRPNode where
  objects := []
  objectStore := .empty
  notified := []

section Operations

variable (node : DRPNode)

def get (id : String) : Option ℕ := node.objectStore.get id

/-- `put`, which calls the callbacks of the application. -/
def put (id : String) (object : ℕ) : DRPNode :=
  { node with
    objectStore := node.objectStore.put id object
    notified := node.notified ++
      (node.objectStore.subscriptions id).map fun callback => (callback, id, object) }

def idOf (object : ℕ) : Option String := node.objects[object]?.map (·.id)

def isSubscribed (object : ℕ) : Bool := node.objects[object]?.any (0 < ·.subscriptions)

def putBack (object : ℕ) : DRPNode :=
  match node.idOf object with
  | none => node
  | some id => node.put id object

def newObject (id : String) : DRPNode :=
  { node with objects := node.objects ++ [{ id, subscriptions := 0 }] }

/-- `object.subscribe` with the node's callback. -/
def install (object : ℕ) : DRPNode :=
  { node with objects := node.objects.modify object fun entry =>
      { entry with subscriptions := entry.subscriptions + 1 } }

def remove (id : String) : DRPNode := { node with objectStore := node.objectStore.remove id }

def openObject (id : String) : DRPNode × Option NodeTask :=
  ((node.newObject id).put id node.objects.length, some (.subscribing node.objects.length))

def withObject (id : String) (task : ℕ → Option NodeTask) : DRPNode × Option NodeTask :=
  match node.get id with
  | none => (node, none)
  | some object => (node, task object)

end Operations

def startRequest (request : NodeRequest) (node : DRPNode) : DRPNode × Option NodeTask :=
  match request with
  | .newObject id => (node.newObject id, none)
  | .put id object => (node.put id object, none)
  | .createObject id | .connectObject id => node.openObject id
  | .subscribeObject object accepted => (if accepted then node.install object else node, none)
  | .unsubscribeObject id purge => (if purge then node.remove id else node, none)
  | .subscribe id callback =>
    ({ node with objectStore := node.objectStore.subscribe id callback }, none)
  | .call object => (node, if (node.idOf object).isSome then some (.calling object) else none)
  | .merge object =>
    (node, if (node.idOf object).isSome then some (.merging object .application) else none)
  | .update id => node.withObject id fun object => some (.merging object .updateHandler)
  | .syncAccept id verified => node.withObject id fun object =>
    if verified then some (.merging object .syncAcceptHandler) else none

/-- `drpObjectChangesHandler` puts the object for either origin, as do the ends of the handlers. -/
def resumeTask (event : NodeEvent) (task : NodeTask) (node : DRPNode) :
    DRPNode × Option NodeTask :=
  match event, task with
  | .throws, _ => (node, none)
  | .goesOn _, .subscribing object => (node.install object, none)
  | .goesOn _, .calling object => (node, some (.notifying object 0 .callFn))
  | .goesOn missing, .merging object caller =>
    (node, some (.notifying object 0 (.merge caller missing)))
  | .goesOn _, .notifying object position originFn =>
    if position < (node.objects[object]?.map (·.subscriptions)).getD 0 then
      (node.putBack object, some (.notifying object (position + 1) originFn))
    else match originFn with
      | .callFn => (node, none)
      | .merge caller missing => (node, some (.merged object caller missing))
  | .goesOn _, .merged object .updateHandler missing =>
    if missing = [] then (node.putBack object, none) else (node, some (.recovering object))
  | .goesOn _, .merged object .syncAcceptHandler _ => (node.putBack object, none)
  | .goesOn _, .merged _ .application _ => (node, none)
  | .goesOn _, .recovering object => (node.putBack object, none)

def program : Cooperative.Program DRPNode NodeTask NodeRequest NodeEvent where
  start := startRequest
  resume := resumeTask

end DRPNode

abbrev NodeConfig := Cooperative.Config DRPNode NodeTask

abbrev NodeAction := Cooperative.Action NodeRequest NodeEvent

namespace NodeTask

def object : NodeTask → ℕ
  | subscribing object | calling object | merging object _ | notifying object _ _
  | merged object _ _ | recovering object => object

/-- The task belongs to a handler, or to a call that is about to subscribe. -/
def insists : NodeTask → Bool
  | subscribing _ | recovering _ => true
  | calling _ | notifying _ _ .callFn => false
  | merging _ caller | notifying _ _ (.merge caller _) | merged _ caller _ => caller ≠ .application

def writes (node : DRPNode) (task : NodeTask) (id : String) : Bool :=
  node.idOf task.object = some id && (task.insists || node.isSubscribed task.object)

end NodeTask

def DRPNode.isStored (node : DRPNode) (object : ℕ) : Bool :=
  (node.idOf object).any fun id => (node.get id).isSome

/--
An object is put under its own id.  An id is purged only when no task can still
write it, and an object the node has subscribed to is used only while its id is in
the store.
-/
def NodeConfig.permits (config : NodeConfig) : NodeAction → Bool
  | .start (.put id object) => config.shared.idOf object = some id
  | .start (.subscribeObject object _) =>
    config.shared.isStored object || config.tasks.all fun task => task.object ≠ object
  | .start (.unsubscribeObject id true) =>
    config.tasks.all fun task => !task.writes config.shared id
  | .start (.call object) | .start (.merge object) =>
    !config.shared.isSubscribed object || config.shared.isStored object
  | _ => true

def DRPNode.Disciplined (config : NodeConfig) (action : NodeAction) : Prop :=
  config.permits action = true

instance (config : NodeConfig) (action : NodeAction) : Decidable (DRPNode.Disciplined config action) :=
  inferInstanceAs (Decidable (_ = true))

def NodeRequest.stores (id : String) : NodeRequest → Bool
  | .put other _ | .createObject other | .connectObject other => other = id
  | _ => false

def NodeAction.stores (id : String) : NodeAction → Bool
  | .start request => request.stores id
  | .resume _ _ => false

namespace DRPNode

section Operations

variable {node : DRPNode} {id : String} {object : ℕ} {task new : NodeTask}

theorem get_put (node : DRPNode) (id : String) (object : ℕ) :
    (node.put id object).get = Function.update node.get id (some object) := rfl

theorem get_remove (node : DRPNode) (id : String) :
    (node.remove id).get = Function.update node.get id none := rfl

theorem idOf_install (node : DRPNode) (object : ℕ) : (node.install object).idOf = node.idOf := by
  funext other
  unfold idOf install
  dsimp only
  rw [List.getElem?_modify]
  cases node.objects[other]? <;> simp [apply_ite]

theorem isSubscribed_install_of_ne {other : ℕ} (ne : other ≠ object) :
    (node.install object).isSubscribed other = node.isSubscribed other := by
  unfold isSubscribed install
  dsimp only
  rw [List.getElem?_modify]
  simp only [if_neg (Ne.symm ne), Option.map_eq_map, Option.map_id']

theorem newObject_known {other : ℕ} (known : (node.idOf other).isSome = true) :
    (node.newObject id).idOf other = node.idOf other ∧
      (node.newObject id).isSubscribed other = node.isSubscribed other := by
  unfold idOf at known
  rw [Option.isSome_map] at known
  have inside : other < node.objects.length := by
    by_contra outside
    rw [List.getElem?_eq_none (by omega)] at known
    cases known
  unfold idOf isSubscribed newObject
  dsimp only
  rw [List.getElem?_append_left inside]
  exact ⟨rfl, rfl⟩

theorem idOf_newObject (node : DRPNode) (id : String) :
    (node.newObject id).idOf node.objects.length = some id := by
  unfold idOf newObject
  simp

def OwnIds (node : DRPNode) : Prop :=
  ∀ id object, node.get id = some object → node.idOf object = some id

theorem OwnIds.put (own : node.OwnIds) (named : node.idOf object = some id) :
    (node.put id object).OwnIds := by
  intro other stored found
  rw [get_put] at found
  by_cases same : other = id
  · subst same
    rw [Function.update_self] at found
    cases found
    exact named
  · rw [Function.update_of_ne same] at found
    exact own other stored found

theorem OwnIds.remove (own : node.OwnIds) (id : String) : (node.remove id).OwnIds := by
  intro other stored found
  rw [get_remove] at found
  by_cases same : other = id
  · subst same
    rw [Function.update_self] at found
    cases found
  · rw [Function.update_of_ne same] at found
    exact own other stored found

theorem OwnIds.install (own : node.OwnIds) (object : ℕ) : (node.install object).OwnIds := by
  intro id stored found
  rw [idOf_install]
  exact own id stored found

theorem OwnIds.newObject (own : node.OwnIds) (id : String) : (node.newObject id).OwnIds := by
  intro other stored found
  have named := own other stored found
  rw [(newObject_known (by rw [named]; rfl)).1]
  exact named

/-- The object of a waiting task exists, and what the task can write is in the store. -/
structure Owns (node : DRPNode) (task : NodeTask) : Prop where
  known : (node.idOf task.object).isSome = true
  stored : ∀ id, task.writes node id = true → node.get id ≠ none

theorem Owns.of_task (owns : node.Owns task) (same : new.object = task.object)
    (insists : new.insists = true → task.insists = true) : node.Owns new := by
  refine ⟨same ▸ owns.known, fun id writes => owns.stored id ?_⟩
  simp only [NodeTask.writes, same, Bool.and_eq_true, Bool.or_eq_true] at writes ⊢
  exact ⟨writes.1, writes.2.imp_left insists⟩

theorem Owns.put (owns : node.Owns task) (id : String) (object : ℕ) :
    (node.put id object).Owns task := by
  refine ⟨owns.known, fun other writes => ?_⟩
  rw [get_put]
  by_cases same : other = id
  · subst same
    rw [Function.update_self]
    exact Option.some_ne_none _
  · rw [Function.update_of_ne same]
    exact owns.stored other writes

theorem Owns.remove (owns : node.Owns task) (silent : task.writes node id = false) :
    (node.remove id).Owns task := by
  refine ⟨owns.known, fun other writes => ?_⟩
  have ne : other ≠ id := by
    intro same
    subst same
    exact Bool.false_ne_true (silent.symm.trans writes)
  rw [get_remove, Function.update_of_ne ne]
  exact owns.stored other writes

theorem Owns.newObject (owns : node.Owns task) (id : String) : (node.newObject id).Owns task := by
  rcases @newObject_known node id _ owns.known with ⟨sameId, sameSubscribed⟩
  refine ⟨sameId ▸ owns.known, fun other writes => owns.stored other ?_⟩
  rw [NodeTask.writes, sameId, sameSubscribed] at writes
  exact writes

theorem get_ne_none_of_isStored (stored : node.isStored object = true)
    (named : node.idOf object = some id) : node.get id ≠ none := by
  rw [isStored, named, Option.any_some, Option.isSome_iff_ne_none] at stored
  exact stored

theorem Owns.install (owns : node.Owns task)
    (safe : task.object = object → node.isStored object = true) :
    (node.install object).Owns task := by
  refine ⟨by rw [idOf_install]; exact owns.known, fun id writes => ?_⟩
  rw [NodeTask.writes, idOf_install] at writes
  by_cases same : task.object = object
  · have named : node.idOf object = some id := by
      rw [← same]
      exact of_decide_eq_true (Bool.and_eq_true_iff.mp writes).1
    exact @get_ne_none_of_isStored node id object (safe same) named
  · rw [isSubscribed_install_of_ne same] at writes
    exact owns.stored id writes

theorem resumeTask_cases (event : NodeEvent) (task : NodeTask) (node : DRPNode) :
    ((resumeTask event task node).1 = node ∨
      ((resumeTask event task node).1 = node.putBack task.object ∧
        (task.insists || node.isSubscribed task.object) = true) ∨
      ((resumeTask event task node).1 = node.install task.object ∧ task.insists = true)) ∧
    ∀ new ∈ (resumeTask event task node).2,
      new.object = task.object ∧ (new.insists = true → task.insists = true) := by
  cases event with
  | throws => exact ⟨Or.inl rfl, fun new mem => nomatch mem⟩
  | goesOn missing =>
    cases task with
    | subscribing object => exact ⟨Or.inr (Or.inr ⟨rfl, rfl⟩), fun new mem => nomatch mem⟩
    | calling object =>
      refine ⟨Or.inl rfl, fun new mem => ?_⟩
      cases mem
      exact ⟨rfl, id⟩
    | merging object caller =>
      refine ⟨Or.inl rfl, fun new mem => ?_⟩
      cases mem
      exact ⟨rfl, id⟩
    | notifying object position originFn =>
      unfold resumeTask
      dsimp only
      split
      case isTrue more =>
        have subscribed : node.isSubscribed object = true := by
          unfold isSubscribed
          cases found : node.objects[object]? with
          | none => simp [found] at more
          | some entry =>
            simp only [found, Option.map_some, Option.getD_some] at more
            simpa using Nat.zero_lt_of_lt more
        refine ⟨Or.inr (Or.inl ⟨rfl, ?_⟩), fun new mem => ?_⟩
        · rw [NodeTask.object, subscribed, Bool.or_true]
        · cases mem
          cases originFn <;> exact ⟨rfl, id⟩
      case isFalse =>
        cases originFn with
        | callFn => exact ⟨Or.inl rfl, fun new mem => nomatch mem⟩
        | merge caller missing =>
          refine ⟨Or.inl rfl, fun new mem => ?_⟩
          cases mem
          exact ⟨rfl, id⟩
    | merged object caller missing =>
      cases caller with
      | updateHandler =>
        rw [resumeTask]
        split
        · exact ⟨Or.inr (Or.inl ⟨rfl, rfl⟩), fun new mem => nomatch mem⟩
        · refine ⟨Or.inl rfl, fun new mem => ?_⟩
          cases mem
          exact ⟨rfl, fun _ => rfl⟩
      | syncAcceptHandler => exact ⟨Or.inr (Or.inl ⟨rfl, rfl⟩), fun new mem => nomatch mem⟩
      | application => exact ⟨Or.inl rfl, fun new mem => nomatch mem⟩
    | recovering object => exact ⟨Or.inr (Or.inl ⟨rfl, rfl⟩), fun new mem => nomatch mem⟩

end Operations

abbrev Kept : NodeConfig → Prop :=
  Cooperative.Program.Outline OwnIds Owns fun _ _ => True

variable {config : NodeConfig}

/--
What a segment leaves: the assertions about the store, the other tasks and its
own task, and nothing under an id that was free and that it does not store.
-/
structure Guarantee (config : NodeConfig) (others : List NodeTask) (stores : String → Bool)
    (result : DRPNode × Option NodeTask) : Prop where
  own : result.1.OwnIds
  others : ∀ other ∈ others, result.1.Owns other
  new : ∀ new ∈ result.2, result.1.Owns new
  free : ∀ id, stores id = false → config.shared.get id = none → result.1.get id = none

theorem Guarantee.ends {others : List NodeTask} {stores : String → Bool} {node : DRPNode}
    (own : node.OwnIds) (owns : ∀ other ∈ others, node.Owns other)
    (free : ∀ id, stores id = false → config.shared.get id = none → node.get id = none) :
    Guarantee config others stores (node, none) where
  own := own
  others := owns
  new := by
    intro new mem
    cases mem
  free := free

section

variable (kept : Kept config)
include kept

theorem Kept.idle (stores : String → Bool) :
    Guarantee config config.tasks stores (config.shared, none) :=
  .ends kept.shared kept.owns fun _ _ absent => absent

theorem Kept.resume {index : ℕ} {task : NodeTask} (event : NodeEvent)
    (found : config.tasks[index]? = some task) :
    Guarantee config (config.tasks.eraseIdx index) (fun _ => false)
      (resumeTask event task config.shared) := by
  have owns := kept.owns task (List.mem_of_getElem? found)
  have others : ∀ other ∈ config.tasks.eraseIdx index, config.shared.Owns other :=
    fun other mem => kept.owns other (List.mem_of_mem_eraseIdx mem)
  rcases Option.isSome_iff_exists.mp owns.known with ⟨named, isNamed⟩
  have present : (task.insists || config.shared.isSubscribed task.object) = true →
      config.shared.get named ≠ none := by
    intro may
    apply owns.stored named
    rw [NodeTask.writes, isNamed, may, decide_eq_true rfl, Bool.true_and]
  have step := resumeTask_cases event task config.shared
  generalize resumeTask event task config.shared = result at step ⊢
  rcases result with ⟨after, waits⟩
  rcases step with ⟨rfl | ⟨rfl, may⟩ | ⟨rfl, insists⟩, next⟩
  · exact ⟨kept.shared, others, fun new mem => owns.of_task (next new mem).1 (next new mem).2,
      fun _ _ absent => absent⟩
  · have wrote : config.shared.putBack task.object = config.shared.put named task.object := by
      rw [putBack, isNamed]
    rw [wrote]
    refine ⟨kept.shared.put isNamed, fun other mem => (others other mem).put _ _,
      fun new mem => (owns.put _ _).of_task (next new mem).1 (next new mem).2,
      fun id _ absent => ?_⟩
    have ne : id ≠ named := by
      intro same
      exact present may (same ▸ absent)
    exact (Function.update_of_ne ne _ _).trans absent
  · have stored : config.shared.isStored task.object = true := by
      rw [isStored, isNamed, Option.any_some, Option.isSome_iff_ne_none]
      apply present
      rw [insists, Bool.true_or]
    refine ⟨kept.shared.install _, fun other mem => (others other mem).install fun _ => stored,
      fun new mem => ?_, fun _ _ absent => absent⟩
    exact (owns.install fun _ => stored).of_task (next new mem).1 (next new mem).2

theorem Kept.openObject (id : String) :
    Guarantee config config.tasks (fun other => id = other) (config.shared.openObject id) := by
  have named := config.shared.idOf_newObject id
  refine ⟨(kept.shared.newObject id).put named,
    fun other mem => ((kept.owns other mem).newObject id).put _ _, fun new mem => ?_,
    fun other ne absent => ?_⟩
  · cases mem
    refine ⟨Option.isSome_iff_exists.mpr ⟨id, named⟩, fun other writes => ?_⟩
    cases (of_decide_eq_true (Bool.and_eq_true_iff.mp writes).1).symm.trans named
    rw [DRPNode.openObject, get_put, Function.update_self]
    exact Option.some_ne_none _
  · exact (Function.update_of_ne (Ne.symm (of_decide_eq_false ne)) _ _).trans absent

theorem Kept.withObject (id : String) {next : ℕ → Option NodeTask}
    (same : ∀ object, ∀ new ∈ next object, new.object = object) :
    Guarantee config config.tasks (fun _ => false) (config.shared.withObject id next) := by
  unfold DRPNode.withObject
  cases found : config.shared.get id with
  | none => exact kept.idle _
  | some object =>
    have named := kept.shared id object found
    refine ⟨kept.shared, kept.owns, fun new mem => ⟨?_, fun other writes => ?_⟩,
      fun _ _ absent => absent⟩
    · rw [same object new mem]
      exact Option.isSome_iff_exists.mpr ⟨id, named⟩
    · have writesOwn := of_decide_eq_true (Bool.and_eq_true_iff.mp writes).1
      rw [same object new mem] at writesOwn
      cases writesOwn.symm.trans named
      rw [found]
      exact Option.some_ne_none _

theorem Kept.use {object : ℕ} {task : NodeTask}
    (permitted : (!config.shared.isSubscribed object || config.shared.isStored object) = true)
    (same : task.object = object) (lax : task.insists = false) :
    Guarantee config config.tasks (fun _ => false)
      (config.shared, if (config.shared.idOf object).isSome then some task else none) := by
  refine ⟨kept.shared, kept.owns, fun new mem => ?_, fun _ _ absent => absent⟩
  dsimp only at mem
  split at mem
  case isFalse => cases mem
  case isTrue known =>
    cases mem
    refine ⟨same ▸ known, fun id writes => ?_⟩
    rw [NodeTask.writes, same, lax, Bool.false_or] at writes
    rcases Bool.and_eq_true_iff.mp writes with ⟨named, subscribed⟩
    rw [subscribed, Bool.not_true, Bool.false_or] at permitted
    exact get_ne_none_of_isStored permitted (of_decide_eq_true named)

theorem Kept.start {request : NodeRequest} (permitted : Disciplined config (.start request)) :
    Guarantee config config.tasks (NodeRequest.stores · request) (startRequest request config.shared) := by
  cases request with
  | newObject id =>
    exact .ends (kept.shared.newObject id) (fun other mem => (kept.owns other mem).newObject id)
      fun _ _ absent => absent
  | put id object =>
    refine .ends (kept.shared.put (of_decide_eq_true permitted))
      (fun other mem => (kept.owns other mem).put id object) fun other ne absent => ?_
    exact (Function.update_of_ne (Ne.symm (of_decide_eq_false ne)) _ _).trans absent
  | createObject id => exact kept.openObject id
  | connectObject id => exact kept.openObject id
  | subscribeObject object accepted =>
    cases accepted with
    | false => exact kept.idle _
    | true =>
      refine .ends (kept.shared.install object) (fun other mem => ?_) fun _ _ absent => absent
      apply (kept.owns other mem).install
      intro same
      rcases Bool.or_eq_true_iff.mp permitted with stored | apart
      · exact stored
      · exact absurd same (of_decide_eq_true (List.all_eq_true.mp apart other mem))
  | unsubscribeObject id purge =>
    cases purge with
    | false => exact kept.idle _
    | true =>
      refine .ends (kept.shared.remove id) (fun other mem => ?_) fun other _ absent => ?_
      · apply (kept.owns other mem).remove
        simpa using List.all_eq_true.mp permitted other mem
      · by_cases same : other = id
        · subst same
          exact Function.update_self ..
        · exact (Function.update_of_ne same _ _).trans absent
  | subscribe id callback =>
    exact .ends kept.shared
      (fun other mem => ⟨(kept.owns other mem).known, (kept.owns other mem).stored⟩)
      fun _ _ absent => absent
  | call object => exact kept.use permitted rfl rfl
  | merge object => exact kept.use permitted rfl rfl
  | update id =>
    apply kept.withObject id
    intro object new mem
    cases mem
    rfl
  | syncAccept id verified =>
    apply kept.withObject id
    intro object new mem
    cases verified with
    | false => cases mem
    | true =>
      cases mem
      rfl

theorem Kept.guarantee {action : NodeAction} {shared : DRPNode} {task : Option NodeTask}
    (permitted : Disciplined config action)
    (effect : program.effect config action = some (shared, task)) :
    Guarantee config (config.others action) (NodeAction.stores · action) (shared, task) := by
  cases action with
  | start request =>
    rw [← Option.some.inj effect]
    exact kept.start permitted
  | resume index event =>
    rcases Option.map_eq_some_iff.mp effect with ⟨waiting, found, result⟩
    rw [← result]
    exact kept.resume event found

end

theorem kept_start : Kept { shared := start, tasks := [] } := by
  refine ⟨fun id object found => ?_, fun task mem => ?_, .nil⟩
  · cases found
  · cases mem

theorem Kept.run (kept : Kept config) {actions : List NodeAction}
    (permitted : program.Permits Disciplined config actions) : Kept (program.run config actions) := by
  refine Cooperative.Program.run_outline ?_ kept permitted
  intro config action shared task kept allowed effect
  have guarantee := Kept.guarantee kept allowed effect
  exact ⟨guarantee.own, guarantee.others, fun new mem => ⟨guarantee.new new mem, fun _ _ => trivial⟩⟩

theorem Kept.step (kept : Kept config) {action : NodeAction}
    (permitted : Disciplined config action) : Kept (program.step config action) :=
  @Kept.run config kept [action] ⟨permitted, trivial⟩

theorem Kept.free_run (kept : Kept config) {id : String} {actions : List NodeAction}
    (free : config.shared.get id = none)
    (permitted : program.Permits Disciplined config actions)
    (silent : ∀ action ∈ actions, action.stores id = false) :
    (program.run config actions).shared.get id = none := by
  have stays : ∀ config action, Kept config ∧ config.shared.get id = none →
      Disciplined config action ∧ action.stores id = false →
        Kept (program.step config action) ∧ (program.step config action).shared.get id = none := by
    rintro config action ⟨kept, free⟩ ⟨allowed, quiet⟩
    refine ⟨kept.step allowed, ?_⟩
    unfold Cooperative.Program.step
    cases effect : program.effect config action with
    | none => exact free
    | some result => exact (kept.guarantee allowed effect).free id quiet free
  exact (Cooperative.Program.run_invariant stays ⟨kept, free⟩ (permitted.and_mem silent)).2

end DRPNode

/--
A purge is final in every run in which the application puts objects under their
own ids, purges an id only when no task that may write it is in flight, and uses
an object the node has subscribed to only while the object's id is in the store:
until the application puts, creates or connects the id again the node does not
find it.
-/
theorem DRPNode.purge_is_final {id : String} {before later : List NodeAction}
    (permitted : program.Permits Disciplined
      { shared := start, tasks := [] }
      (before ++ .start (.unsubscribeObject id true) :: later))
    (silent : ∀ action ∈ later, action.stores id = false) :
    (program.run { shared := start, tasks := [] }
      (before ++ .start (.unsubscribeObject id true) :: later)).shared.get id = none := by
  rcases Cooperative.Program.permits_append.mp permitted with ⟨first, allowed, rest⟩
  have kept := kept_start.run first
  have purged : (program.step (program.run { shared := start, tasks := [] } before)
      (.start (.unsubscribeObject id true))).shared.get id = none := Function.update_self ..
  rw [Cooperative.Program.run, List.foldl_append]
  exact (kept.step allowed).free_run purged rest silent

namespace PurgeExample

open DRPNode

def updating : List NodeAction :=
  [.start (.connectObject "x"), .resume 0 (.goesOn []), .start (.update "x")]

def handled : List NodeAction :=
  [.resume 0 (.goesOn []), .resume 0 (.goesOn []), .resume 0 (.goesOn []), .resume 0 (.goesOn [])]

def found (actions : List NodeAction) : Option ℕ :=
  (program.run { shared := start, tasks := [] } actions).shared.get "x"

end PurgeExample

open PurgeExample in
theorem DRPNode.purge_is_final_handled :
    found (updating ++ handled) = some 0 ∧
      found ((updating ++ handled) ++
        [.start (.unsubscribeObject "x" true), .start (.update "x"), .start (.newObject "x")]) =
          none := by
  refine ⟨by decide, ?_⟩
  apply purge_is_final
  · decide
  · decide

open PurgeExample in
/--
The handler of an update that was waiting for its merge brings the purged object
back, and so does a call of the object that the application still holds.
-/
theorem DRPNode.purged_object_returns :
    found (updating ++ [.start (.unsubscribeObject "x" true)]) = none ∧
      found (updating ++ .start (.unsubscribeObject "x" true) :: handled) = some 0 ∧
      found ((updating ++ handled) ++ [.start (.unsubscribeObject "x" true)]) = none ∧
      found ((updating ++ handled) ++ .start (.unsubscribeObject "x" true) ::
        [.start (.call 0), .resume 0 (.goesOn []), .resume 0 (.goesOn [])]) = some 0 := by
  decide

end TsDrp
