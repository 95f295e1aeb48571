import Mathlib.Data.List.Sort
import Serverless.Model.Queue

/-!
# The transactional outbox

`InvocationOutboxDispatcher` of `backend/app/services/dispatch_outbox.py`. A batch
selects and locks due rows, publishes them one by one and commits all its row updates
at the end; `dispatchPending` runs a batch to its commit.
-/
namespace Serverless.Model

open Serverless.Library

/-- How one `publish_invocation` ends: it returns the id of the new entry, or it raises
`InvocationQueuePublishError`, with or without the entry having been added. -/
inductive PublishOutcome where
  | returned
  | raisedAfterAdd
  | raised
  deriving DecidableEq

namespace Database

/-- The batch select; `locked` are the rows other batches hold. -/
def dueDispatches (db : Database) (now : Time) (limit : Nat) (locked : List UUID) :
    List InvocationDispatch :=
  ((db.dispatches.rows.filter fun d =>
      d.publishedAt = none ∧ d.availableAt ≤ now ∧ d.id ∉ locked)
    |>.insertionSort fun d e =>
      d.createdAt < e.createdAt ∨ d.createdAt = e.createdAt ∧ d.id ≤ e.id).take limit

theorem mem_dueDispatches {db : Database} {now : Time} {limit : Nat} {locked : List UUID}
    {d : InvocationDispatch} (h : d ∈ db.dueDispatches now limit locked) :
    d ∈ db.dispatches ∧ d.publishedAt = none ∧ d.availableAt ≤ now ∧ d.id ∉ locked := by
  have h' := List.mem_of_mem_take h
  simpa [Table.mem_rows] using h'

/-- The batch select takes each row once. -/
theorem nodup_dueDispatches (db : Database) (now : Time) (limit : Nat) (locked : List UUID) :
    ((db.dueDispatches now limit locked).map (·.id)).Nodup := by
  apply List.Nodup.sublist ((List.take_sublist _ _).map _)
  apply ((List.perm_insertionSort _ _).map _).nodup_iff.mpr
  exact db.dispatches.primary.sublist (List.filter_sublist.map _)

end Database

namespace InvocationDispatch

def invocationGone (d : InvocationDispatch) : InvocationDispatch :=
  { d with
    publishAttempts := d.publishAttempts + 1
    lastError := some "Invocation record no longer exists" }

def publishFailed (d : InvocationDispatch) : InvocationDispatch :=
  { d with
    publishAttempts := d.publishAttempts + 1
    lastError := some s!"Failed to publish invocation task: {d.invocationId.str}" }

def published (d : InvocationDispatch) (messageId : StreamId) (now : Time) : InvocationDispatch :=
  { d with
    publishAttempts := d.publishAttempts + 1
    publishedMessageId := some messageId
    publishedAt := some now
    lastError := none }

/-- The columns of a batch object, flushed to the locked row. -/
def flushTo (d row : InvocationDispatch) : InvocationDispatch :=
  { row with
    publishAttempts := d.publishAttempts
    lastError := d.lastError
    publishedMessageId := d.publishedMessageId
    publishedAt := d.publishedAt }

end InvocationDispatch

/-- One turn of the batch loop: the object after it, and the message it put on the stream. -/
def publishDispatch (db : Database) (d : InvocationDispatch) (outcome : PublishOutcome)
    (messageId : StreamId) (now : Time) : InvocationDispatch × Option StreamMessage :=
  match db.invocations.get d.invocationId with
  | none => (d.invocationGone, none)
  | some invocation =>
    let message := buildInvocationMessageFields invocation d.attemptNumber
    match outcome with
    | .returned => (d.published messageId now, some message)
    | .raisedAfterAdd => (d.publishFailed, some message)
    | .raised => (d.publishFailed, none)

def commitDispatches (db : Database) (done : List InvocationDispatch) : Database :=
  { db with
    dispatches := db.dispatches.flush done (·.id) InvocationDispatch.flushTo
      fun _ _ => ⟨rfl, rfl⟩ }

/-- A row after the commit is an old row, or an old row with the columns of its object. -/
theorem mem_commitDispatches {db : Database} {done : List InvocationDispatch}
    {d : InvocationDispatch} (h : d ∈ (commitDispatches db done).dispatches) :
    ∃ row ∈ db.dispatches, (d = row ∧ ∀ o ∈ done, o.id ≠ row.id) ∨
      ∃ o ∈ done, o.id = row.id ∧ d = o.flushTo row :=
  Table.mem_flush (by exact fun _ _ => ⟨rfl, rfl⟩) h

/-- The identifying columns and the schedule of a row survive the commit. -/
theorem commitDispatches_origin {db : Database} {done : List InvocationDispatch}
    {d : InvocationDispatch} (h : d ∈ (commitDispatches db done).dispatches) :
    ∃ row ∈ db.dispatches, row.id = d.id ∧ row.invocationId = d.invocationId ∧
      row.attemptNumber = d.attemptNumber ∧ row.availableAt = d.availableAt := by
  obtain ⟨row, hrow, ⟨rfl, -⟩ | ⟨o, -, -, rfl⟩⟩ := mem_commitDispatches h
  · exact ⟨d, hrow, rfl, rfl, rfl, rfl⟩
  · exact ⟨row, hrow, rfl, rfl, rfl, rfl⟩

structure DispatchBatchResult where
  published : Nat
  failed : Nat
  deriving DecidableEq

/-- Publish the rows of a batch in order. `outcomes` gives each publish its ending and the
clock reading after it; `stream` is the stream so far, and an entry's id is its position. -/
def publishAll (db : Database) : List InvocationDispatch → List (PublishOutcome × Time) →
    List StreamMessage → List InvocationDispatch × List StreamMessage
  | [], _, stream => ([], stream)
  | d :: todo, outcomes, stream =>
    let (outcome, now) := outcomes.headD (.raised, 0)
    let (object, message) := publishDispatch db d outcome (stream.length + 1) now
    let (done, stream') := publishAll db todo outcomes.tail (stream ++ message.toList)
    (object :: done, stream')

/-- The whole call, with no other transaction in between. -/
def dispatchPending (db : Database) (stream : List StreamMessage) (limit : Nat) (now : Time)
    (outcomes : List (PublishOutcome × Time)) :
    Database × List StreamMessage × DispatchBatchResult :=
  let (done, stream') := publishAll db (db.dueDispatches now limit []) outcomes stream
  (commitDispatches db done, stream',
    { published := done.countP fun d => d.publishedAt.isSome
      failed := done.countP fun d => d.publishedAt.isNone })

/-- A message on the stream carries the pair of its outbox row. -/
theorem publishDispatch_message {db : Database} {d : InvocationDispatch}
    {outcome : PublishOutcome} {messageId : StreamId} {now : Time} {m : StreamMessage}
    (h : (publishDispatch db d outcome messageId now).2 = some m) :
    ∃ i, db.invocations.get d.invocationId = some i ∧
      m = buildInvocationMessageFields i d.attemptNumber := by
  unfold publishDispatch at h
  split at h
  · cases h
  · rename_i i hget
    cases outcome <;> simp at h <;> exact ⟨i, hget, h.symm⟩

/-- Every message of a batch comes from one of its rows. -/
theorem mem_publishAll_stream {db : Database} {todo : List InvocationDispatch}
    {outcomes : List (PublishOutcome × Time)} {stream : List StreamMessage} {m : StreamMessage}
    (h : m ∈ (publishAll db todo outcomes stream).2) :
    m ∈ stream ∨ ∃ d ∈ todo, ∃ i, db.invocations.get d.invocationId = some i ∧
      m = buildInvocationMessageFields i d.attemptNumber := by
  induction todo generalizing outcomes stream with
  | nil => exact Or.inl h
  | cons d todo ih =>
    simp only [publishAll] at h
    rcases ih h with hs | ⟨d', hd', hm⟩
    · rcases List.mem_append.mp hs with hs | hs
      · exact Or.inl hs
      · obtain ⟨i, hi⟩ := publishDispatch_message (Option.mem_toList.mp hs)
        exact Or.inr ⟨d, List.mem_cons_self, i, hi⟩
    · exact Or.inr ⟨d', List.mem_cons_of_mem d hd', hm⟩

end Serverless.Model
