import Serverless.Model.Domain

/-!
# Stream messages and tasks

The fields that `build_invocation_message_fields` puts into a stream entry
(`backend/app/services/invocation_queue.py`) and the task that
`parse_invocation_task` makes of them (`worker/app/queue/consumer.py`). Stream ids
are numbered in the order Redis hands them out; `0` stands for `0-0`.
-/
namespace Serverless.Model

abbrev StreamId := Nat

structure StreamMessage where
  invocationId : UUID
  functionVersionId : UUID
  ownerId : UUID
  attemptNumber : Nat
  queuedAt : Time
  deadlineAt : Time
  deriving DecidableEq

def buildInvocationMessageFields (invocation : Invocation) (attemptNumber : Nat) :
    StreamMessage where
  invocationId := invocation.id
  functionVersionId := invocation.functionVersionId
  ownerId := invocation.ownerId
  attemptNumber := attemptNumber
  queuedAt := invocation.queuedAt
  deadlineAt := invocation.deadlineAt

structure InvocationTask where
  streamMessageId : StreamId
  invocationId : UUID
  functionVersionId : UUID
  ownerId : UUID
  attemptNumber : Nat
  queuedAt : Time
  deadlineAt : Time
  recovered : Bool := false
  deriving DecidableEq

def parseInvocationTask (messageId : StreamId) (fields : StreamMessage)
    (recovered : Bool := false) : InvocationTask where
  streamMessageId := messageId
  invocationId := fields.invocationId
  functionVersionId := fields.functionVersionId
  ownerId := fields.ownerId
  attemptNumber := fields.attemptNumber
  queuedAt := fields.queuedAt
  deadlineAt := fields.deadlineAt
  recovered := recovered

end Serverless.Model
