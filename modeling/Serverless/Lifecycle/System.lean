import Serverless.Cluster.Draining

/-!
# A worker as two tasks

`run_worker` (`worker/app/main.py`) starts `run_heartbeat_loop` as a task next to
`run_worker_loop`. The task ends with the first exception of a heartbeat, and the `finally`
block of `run_worker` awaits it before it calls `mark_worker_offline`. In the cluster a
worker sends heartbeats and goes offline when it likes; here these steps are taken by the
two tasks, and everything else is a step of the cluster.
-/
namespace Serverless.Lifecycle

open Serverless.Library Serverless.Model
open Serverless.Cluster (WorkerEvent)

/-- Where `run_heartbeat_loop` stands: at the test of the `while`, in `record_worker_heartbeat`,
waiting for the stop event, or at its end. -/
inductive Heartbeat where
  | checking
  | writing
  | waiting
  | returned
  | raised
  deriving DecidableEq

def Heartbeat.isOver : Heartbeat → Bool
  | .returned | .raised => true
  | .checking | .writing | .waiting => false

/-- Where `run_worker` stands: in `run_worker_loop`, at one of the two awaits of its `finally`
block, or at its end, which may be an exception of the one or the other. -/
inductive Main where
  | looping
  | joining
  | marking
  | returned
  | heartbeatRaised
  | markRaised
  | killed
  deriving DecidableEq

def Main.isOver : Main → Bool
  | .returned | .heartbeatRaised | .markRaised | .killed => true
  | .looping | .joining | .marking => false

structure Tasks where
  main : Main := .looping
  heartbeat : Heartbeat := .checking
  stopEvent : Bool := false

/-- How a write to the worker row ends. The row is refreshed after the commit, so an exception
may come with the row written. -/
inductive WriteOutcome where
  | written
  | raised
  | raisedAfterCommit
  deriving DecidableEq

inductive TaskEvent where
  | call
  | write (outcome : WriteOutcome)
  | wake
  | interrupt
  | join
  | markOffline (outcome : WriteOutcome)
  | kill

namespace Tasks

/-- The two tasks after an event. `run_worker` sets no `max_iterations`. -/
def next (t : Tasks) : TaskEvent → Option Tasks
  | .call =>
    match t.main.isOver, t.heartbeat with
    | false, .checking => some { t with heartbeat := if t.stopEvent then .returned else .writing }
    | _, _ => none
  | .write outcome =>
    match t.main.isOver, t.heartbeat with
    -- nothing catches an exception here
    | false, .writing =>
      some { t with heartbeat := if outcome = .written then .waiting else .raised }
    | _, _ => none
  | .wake =>
    match t.main.isOver, t.heartbeat with
    | false, .waiting => some { t with heartbeat := .checking }
    | _, _ => none
  | .interrupt =>
    match t.main with
    | .looping => some { t with main := .joining, stopEvent := true }
    | _ => none
  | .join =>
    match t.main, t.heartbeat with
    | .joining, .returned => some { t with main := .marking }
    | .joining, .raised => some { t with main := .heartbeatRaised }
    | _, _ => none
  | .markOffline outcome =>
    match t.main with
    | .marking => some { t with main := if outcome = .written then .returned else .markRaised }
    | _ => none
  | .kill => if t.main.isOver then none else some { t with main := .killed }

/-- What the event is in the cluster. A process ends when its main task does. -/
def command (t : Tasks) : TaskEvent → Option WorkerEvent
  | .write .written | .write .raisedAfterCommit => some .heartbeat
  | .interrupt => some .interrupt
  | .join => if t.heartbeat = .raised then some .stop else none
  | .markOffline .written | .markOffline .raisedAfterCommit => some .markOffline
  | .markOffline .raised | .kill => some .stop
  | .call | .write .raised | .wake => none

end Tasks

/-- One entry of `tasks` for each process of the cluster. -/
structure State where
  cluster : Cluster.State
  tasks : List Tasks

inductive Event where
  | cluster (e : Cluster.Event)
  | task (process : Nat) (e : TaskEvent)

/-- The worker events that the two tasks take over. -/
def ofTasks : Cluster.Event → Bool
  | .worker _ .heartbeat | .worker _ .interrupt | .worker _ .markOffline | .worker _ .stop => true
  | _ => false

/-- The tasks that `run_worker` creates once its worker is registered. -/
def created : Cluster.Event → List Tasks
  | .register .. => [{}]
  | _ => []

def step (s : State) : Event → Option State
  | .cluster e =>
    if ofTasks e then none
    else (Cluster.step s.cluster e).map fun c => ⟨c, s.tasks ++ created e⟩
  | .task n e =>
    (s.tasks[n]?).bind fun t => (t.next e).bind fun t' =>
      match t.command e with
      | none => some { s with tasks := s.tasks.set n t' }
      | some w => (Cluster.step s.cluster (.worker n w)).map fun c => ⟨c, s.tasks.set n t'⟩

def init (s : State) : Prop := Cluster.init s.cluster ∧ s.tasks = []

def empty : State := ⟨Cluster.empty, []⟩

theorem init_empty : init empty := ⟨Cluster.init_empty, rfl⟩

/-! ## What a step can do -/

/-- The moves of the two tasks. -/
inductive Turn (t : Tasks) : TaskEvent → Tasks → Prop where
  | called (hm : t.main.isOver = false) (hh : t.heartbeat = .checking) :
      Turn t .call { t with heartbeat := if t.stopEvent then .returned else .writing }
  | wrote (outcome : WriteOutcome) (hm : t.main.isOver = false) (hh : t.heartbeat = .writing) :
      Turn t (.write outcome)
        { t with heartbeat := if outcome = .written then .waiting else .raised }
  | woke (hm : t.main.isOver = false) (hh : t.heartbeat = .waiting) :
      Turn t .wake { t with heartbeat := .checking }
  | interrupted (hm : t.main = .looping) :
      Turn t .interrupt { t with main := .joining, stopEvent := true }
  | joined (hm : t.main = .joining) (hh : t.heartbeat = .returned) :
      Turn t .join { t with main := .marking }
  | surfaced (hm : t.main = .joining) (hh : t.heartbeat = .raised) :
      Turn t .join { t with main := .heartbeatRaised }
  | marked (outcome : WriteOutcome) (hm : t.main = .marking) :
      Turn t (.markOffline outcome)
        { t with main := if outcome = .written then .returned else .markRaised }
  | killed (hm : t.main.isOver = false) : Turn t .kill { t with main := .killed }

theorem Tasks.next_turn {t t' : Tasks} {e : TaskEvent} (h : t.next e = some t') : Turn t e t' := by
  cases e with
  | call =>
    simp only [Tasks.next] at h
    split at h
    · rename_i hm hh
      cases h
      exact .called hm hh
    · cases h
  | write outcome =>
    simp only [Tasks.next] at h
    split at h
    · rename_i hm hh
      cases h
      exact .wrote outcome hm hh
    · cases h
  | wake =>
    simp only [Tasks.next] at h
    split at h
    · rename_i hm hh
      cases h
      exact .woke hm hh
    · cases h
  | interrupt =>
    simp only [Tasks.next] at h
    split at h
    · rename_i hm
      cases h
      exact .interrupted hm
    · cases h
  | join =>
    simp only [Tasks.next] at h
    split at h
    · rename_i hm hh
      cases h
      exact .joined hm hh
    · rename_i hm hh
      cases h
      exact .surfaced hm hh
    · cases h
  | markOffline outcome =>
    simp only [Tasks.next] at h
    split at h
    · rename_i hm
      cases h
      exact .marked outcome hm
    · cases h
  | kill =>
    simp only [Tasks.next] at h
    split at h
    · cases h
    · rename_i hm
      cases h
      exact .killed (Bool.eq_false_iff.mpr hm)

inductive Effect (s : State) : Event → State → Prop where
  | cluster (e : Cluster.Event) (c : Cluster.State) (he : ofTasks e = false)
      (h : Cluster.step s.cluster e = some c) : Effect s (.cluster e) ⟨c, s.tasks ++ created e⟩
  | alone (n : Nat) (e : TaskEvent) (t t' : Tasks) (ht : s.tasks[n]? = some t)
      (hn : Turn t e t') (hc : t.command e = none) :
      Effect s (.task n e) { s with tasks := s.tasks.set n t' }
  | sent (n : Nat) (e : TaskEvent) (t t' : Tasks) (w : WorkerEvent) (c : Cluster.State)
      (ht : s.tasks[n]? = some t) (hn : Turn t e t') (hc : t.command e = some w)
      (h : Cluster.step s.cluster (.worker n w) = some c) :
      Effect s (.task n e) ⟨c, s.tasks.set n t'⟩

theorem step_effect {s t : State} {e : Event} (h : step s e = some t) : Effect s e t := by
  cases e with
  | cluster e =>
    simp only [step] at h
    split at h
    · cases h
    · rename_i he
      obtain ⟨c, hc, rfl⟩ := Option.map_eq_some_iff.mp h
      exact .cluster e c (Bool.eq_false_iff.mpr he) hc
  | task n e =>
    obtain ⟨t₀, ht, h⟩ := Option.bind_eq_some_iff.mp h
    obtain ⟨t', hn, h⟩ := Option.bind_eq_some_iff.mp h
    split at h
    · rename_i hc
      cases h
      exact .alone n e t₀ t' ht (Tasks.next_turn hn) hc
    · rename_i w hc
      obtain ⟨c, hw, rfl⟩ := Option.map_eq_some_iff.mp h
      exact .sent n e t₀ t' w c ht (Tasks.next_turn hn) hc hw

/-- What a step does to the tasks, whatever it does in the cluster. -/
theorem tasks_after {s t : State} {e : Event} (h : step s e = some t) :
    (∃ ce, e = .cluster ce ∧ t.tasks = s.tasks ++ created ce) ∨
    ∃ n te x x', e = .task n te ∧ s.tasks[n]? = some x ∧ Turn x te x' ∧
      t.tasks = s.tasks.set n x' := by
  cases step_effect h with
  | cluster ce c he hc => exact .inl ⟨ce, rfl, rfl⟩
  | alone n te x x' hx hn hc => exact .inr ⟨n, te, x, x', rfl, hx, hn, rfl⟩
  | sent n te x x' w c hx hn hc hw => exact .inr ⟨n, te, x, x', rfl, hx, hn, rfl⟩

/-- **Workers made of two tasks are workers of the cluster.** -/
theorem cluster_reachable {ok : State → Event → Prop} {s : State}
    (h : ReachableBy step ok init s) : Reachable Cluster.step Cluster.init s.cluster := by
  refine ReachableBy.project State.cluster (fun _ hi => hi.1) (fun {s e t} _ hs => ?_) h
  cases step_effect hs with
  | cluster e c he hc => exact ⟨e, trivial, hc⟩
  | alone n e t t' ht hn hc =>
    -- nothing happens in the cluster: its clock ticks to where it stands
    exact ⟨.tick s.cluster.clock, trivial, if_pos (le_refl _)⟩
  | sent n e t t' w c ht hn hc hw => exact ⟨.worker n w, trivial, hw⟩

theorem step_alone {s : State} {n : Nat} {e : TaskEvent} {t t' : Tasks}
    (ht : s.tasks[n]? = some t) (hn : t.next e = some t') (hc : t.command e = none) :
    step s (.task n e) = some { s with tasks := s.tasks.set n t' } := by
  simp only [step, ht, Option.bind_some, hn, hc]

theorem step_sent {s : State} {n : Nat} {e : TaskEvent} {t t' : Tasks} {w : WorkerEvent}
    {c : Cluster.State} (ht : s.tasks[n]? = some t) (hn : t.next e = some t')
    (hc : t.command e = some w) (hw : Cluster.step s.cluster (.worker n w) = some c) :
    step s (.task n e) = some ⟨c, s.tasks.set n t'⟩ := by
  simp only [step, ht, Option.bind_some, hn, hc, hw, Option.map_some]

end Serverless.Lifecycle
