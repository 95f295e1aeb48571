import Serverless.Model.JsonFraming
import Serverless.Model.Runtime

/-!
# The runner inside the container

`main` of `runtime/python311/runner.py`. The message on its input is the one that
`write_runtime_input` leaves there, so what is left open is the user module: what it
prints while it is imported, what its handler prints, and how the handler ends. Standard
output is redirected for the call of the handler, and not before.
-/
namespace Serverless.Model

open Serverless.Library

/-- How a handler ends: with a JSON value, or with an exception that leaves it. -/
inductive HandlerOutcome where
  | returned (result : JsonValue)
  | raised (errorType errorMessage : PyStr) (traceback : List Char)

namespace HandlerOutcome

/-- The object that is printed. -/
def envelope : HandlerOutcome → JsonValue
  | returned result => .dict [("ok", .bool true), ("result", result)]
  | raised errorType errorMessage _ =>
    .dict [("ok", .bool false), ("error_type", .str errorType), ("error_message", .str errorMessage)]

def exitCode : HandlerOutcome → Int
  | returned _ => 0
  | raised _ _ _ => 1

/-- `traceback.print_exc`. -/
def traceback : HandlerOutcome → List Char
  | returned _ => []
  | raised _ _ text => text

/-- A value that `json.loads` gives back when it reads what `json.dumps` wrote, also inside the
envelope, or an exception with a message and with texts of that kind. -/
def WellFormed (F : Json.Format) : HandlerOutcome → Prop
  | returned result => Json.Carried F result
  | raised errorType errorMessage _ =>
    errorMessage ≠ [] ∧ CodePoint.Joined errorType ∧ CodePoint.Joined errorMessage

/-- The exception, if there is one, is of a class with a name. -/
def Named : HandlerOutcome → Prop
  | returned _ => True
  | raised errorType _ _ => errorType ≠ []

end HandlerOutcome

structure UserModule where
  importText : List Char
  handlerText : List Char
  outcome : HandlerOutcome

structure RunnerOutput where
  stdout : List Char
  stderr : List Char
  exitCode : Int

/-- `main`. -/
def runnerMain (F : Json.Format) (m : UserModule) : RunnerOutput where
  stdout := m.importText ++ Json.dumps F [' '] m.outcome.envelope
  stderr := m.handlerText ++ m.outcome.traceback
  exitCode := m.outcome.exitCode

/-- How a call of `json.loads` ends that returns nothing. -/
def Json.LoadError.loaded : Json.LoadError → Loaded
  | .decode msg => .decodeError msg
  | .tooManyDigits count =>
    .raised (.of "ValueError"
      (s!"Exceeds the limit ({Json.maxStrDigits} digits) for integer string conversion: " ++
        s!"value has {count} digits; use sys.set_int_max_str_digits() to increase the limit"))
  | .tooDeep kind =>
    .raised (.of "RecursionError"
      s!"maximum recursion depth exceeded while decoding a JSON {kind} from a unicode string")

/-- The standard library, with the decoder and the encoder of `json`. -/
def Json.pyLib (F : Json.Format) (repr : JsonValue → String) : PyLib where
  loads text :=
    match Json.loads F text with
    | .ok v => .value v
    | .error e => e.loaded
  dumps := Json.dumps F []
  repr := repr

namespace HandlerOutcome

variable {F : Json.Format} {o : HandlerOutcome}

theorem envelope_encodable (h : o.WellFormed F) : Json.Encodable F o.envelope := by
  cases o with
  | returned result =>
    apply Json.Encodable.dict
    · simp
    · intro p hp
      simp only [List.mem_cons, List.not_mem_nil, or_false] at hp
      rcases hp with rfl | rfl <;> exact CodePoint.joined_ofString _
    · intro p hp
      simp only [List.mem_cons, List.not_mem_nil, or_false] at hp
      rcases hp with rfl | rfl
      · exact .bool true
      · exact h.1
  | raised errorType errorMessage text =>
    apply Json.Encodable.dict
    · simp
    · intro p hp
      simp only [List.mem_cons, List.not_mem_nil, or_false] at hp
      rcases hp with rfl | rfl | rfl <;> exact CodePoint.joined_ofString _
    · intro p hp
      simp only [List.mem_cons, List.not_mem_nil, or_false] at hp
      rcases hp with rfl | rfl | rfl
      · exact .bool false
      · exact .str _ h.2.1
      · exact .str _ h.2.2

/-- The envelope has one bracket more than what it holds. -/
theorem envelope_depth (h : o.WellFormed F) : o.envelope.depth ≤ F.room := by
  have hroom := F.two_le_room
  cases o with
  | returned result =>
    have hdepth : result.depth < F.room := h.2
    simp only [envelope, JsonValue.depth, depthPairs]
    omega
  | raised errorType errorMessage text =>
    simp only [envelope, JsonValue.depth, depthPairs]
    omega

variable (F : Json.Format) (o : HandlerOutcome)

/-- Every envelope opens with its key `ok`. -/
theorem dumps_envelope : ∃ text, Json.dumps F [' '] o.envelope = Json.object text := by
  cases o with
  | returned result => exact ⟨_, rfl⟩
  | raised errorType errorMessage text => exact ⟨_, rfl⟩

theorem dumps_envelope_getLast : (Json.dumps F [' '] o.envelope).getLast? = some '}' := by
  cases o with
  | returned result => exact Json.dumps_dict_getLast F [' '] _
  | raised errorType errorMessage text => exact Json.dumps_dict_getLast F [' '] _

end HandlerOutcome

/-- **What the worker reads after stripping**: of what was printed during the import, everything
from the first visible character on, and the envelope. -/
theorem strip_runnerMain (F : Json.Format) (m : UserModule) :
    Text.strip (runnerMain F m).stdout =
      m.importText.dropWhile Text.isSpace ++ Json.dumps F [' '] m.outcome.envelope := by
  apply Text.strip_append (by decide) (m.outcome.dumps_envelope_getLast F)
  obtain ⟨text, he⟩ := m.outcome.dumps_envelope F
  intro d hd
  rw [he] at hd
  cases hd
  decide

end Serverless.Model
