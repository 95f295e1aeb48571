import Serverless.Lifecycle.Tasks

/-!
# Heartbeats and their task

An exception of a single heartbeat ends the heartbeat task while `run_worker_loop` goes on
taking tasks, and nothing starts the task again. The `finally` block awaits the ended task
first, so the exception comes up there and `mark_worker_offline` is never called. In runs in
which no heartbeat raises, the task beats for as long as the worker takes tasks, and a
shutdown can always go on to mark the worker offline.
-/
namespace Serverless.Lifecycle

open Serverless.Library Serverless.Model
open Serverless.Cluster (WorkerEvent Process MarkedOffline)

/-- No heartbeat of process `n` raises. -/
def WritesSucceed (n : Nat) (_ : State) : Event → Prop
  | .task m (.write outcome) => m = n → outcome = .written
  | _ => True

instance (n : Nat) (s : State) (e : Event) : Decidable (WritesSucceed n s e) :=
  match e with
  | .task m (.write outcome) => inferInstanceAs (Decidable (m = n → outcome = .written))
  | .cluster _ | .task _ .call | .task _ .wake | .task _ .interrupt | .task _ .join
  | .task _ (.markOffline _) | .task _ .kill => inferInstanceAs (Decidable True)

/-- Moves of the heartbeat task of process `n` between two of its writes. -/
def BetweenWrites (n : Nat) (_ : State) (e : Event) : Prop := e = .task n .call ∨ e = .task n .wake

/-- Events of the two tasks of process `n`, none of them a heartbeat that raises. -/
def OwnEvent (n : Nat) (s : State) (e : Event) : Prop :=
  (∃ e', e = .task n e') ∧ WritesSucceed n s e

/-- The process can bring its shutdown to an end by itself. -/
def CanFinish (n : Nat) (s : State) : Prop :=
  ∃ u, Steps step (OwnEvent n) s u ∧ ∃ t ∈ u.tasks[n]?, t.main = .returned

/-- A worker that takes tasks beats, and can try again at any time; one that shuts down can go
on, and its row is `OFFLINE` once `run_worker` has returned, or has raised what its heartbeat
raised. -/
structure KeptAlive (s : State) (n : Nat) (p : Process) (t : Tasks) : Prop where
  beats : p.loop.isOver = false → t.stopEvent = false → t.heartbeat.isOver = false
  retries : p.loop.isOver = false → t.stopEvent = false → ∃ u v,
    Steps step (BetweenWrites n) s u ∧ step u (.task n (.write .written)) = some v
  finishes : t.main = .joining ∨ t.main = .marking → CanFinish n s
  offline : t.main = .returned ∨ t.main = .heartbeatRaised → MarkedOffline s.cluster p

/-! ## What holds in every run -/

/-- Once `run_worker` has returned, the row of its worker says `OFFLINE`. -/
theorem returned_offline {s : State} (h : Reachable step init s) {n : Nat} {p : Process} {t : Tasks}
    (hp : s.cluster.processes[n]? = some p) (ht : s.tasks[n]? = some t)
    (hm : t.main = .returned) : MarkedOffline s.cluster p := by
  refine Reachable.invariant (I := fun s => ∀ (n : Nat) (p : Process) (t : Tasks),
      s.cluster.processes[n]? = some p → s.tasks[n]? = some t → t.main = .returned →
        MarkedOffline s.cluster p) (fun s hs => ?_) (fun {s e u} hr hi hs => ?_) h n p t hp ht hm
  · intro n p t _ ht
    rw [hs.2] at ht
    cases ht
  have hcr := cluster_reachable hr
  have hwf := inStep_reachable hr
  intro n p t hp ht hm
  cases step_effect hs with
  | cluster e c he hc =>
    rcases after_cluster hwf hcr he hc hp ht with ⟨q, hq, htq, hid, -⟩ | ⟨rfl, -⟩
    · have hne : e ≠ .worker n .heartbeat := by
        rintro rfl
        cases he
      obtain ⟨w, hw, hwid, hoff⟩ := marked_kept hcr hc hq hne (hi n q t hq htq hm)
      exact ⟨w, hw, hwid.trans hid.symm, hoff⟩
    · cases hm
  | alone m e t₀ t' ht₀ hn hc =>
    rcases getElem?_set_cases ht with ⟨rfl, rfl⟩ | ⟨-, ht⟩
    · have hold : t₀.main = .returned := by
        cases hn with
        | called | woke | wrote => exact hm
        | joined | surfaced => cases hm
        | marked outcome hm' => cases outcome <;> cases hc
        | interrupted | killed => cases hc
      exact hi m p t₀ hp ht₀ hold
    · exact hi n p t hp ht hm
  | sent m e t₀ t' w c ht₀ hn hc hw =>
    rcases getElem?_set_cases ht with ⟨rfl, rfl⟩ | ⟨hmn, ht⟩
    · -- the only command after which it has returned is `mark_offline`
      have hmark : w = .markOffline := by
        cases hn with
        | called hm' | woke hm' | wrote outcome hm' =>
          rw [show t₀.main = .returned from hm] at hm'
          cases hm'
        | joined | surfaced | interrupted | killed => cases hm
        | marked outcome hm' =>
          cases outcome with
          | written =>
            cases hc
            rfl
          | raised | raisedAfterCommit => cases hm
      subst hmark
      exact marked_offline hcr hw hp
    · rw [Cluster.other_process hw hmn] at hp
      have hne : Cluster.Event.worker m w ≠ .worker n .heartbeat := by
        intro he
        cases he
        exact hmn rfl
      exact marked_kept hcr hw hp hne (hi n p t hp ht hm)

/-- A heartbeat that has raised, seen from any later state of the process. -/
def Tasks.Silenced (t : Tasks) : Prop :=
  t.heartbeat = .raised ∧ t.main ≠ .marking ∧ t.main ≠ .returned

theorem Tasks.Silenced.turn {t t' : Tasks} {e : TaskEvent} (h : t.Silenced) (ht : Turn t e t') :
    t'.Silenced := by
  obtain ⟨hraised, hmark, hret⟩ := h
  cases ht with
  | called hm hh | woke hm hh | wrote outcome hm hh | joined hm hh =>
    rw [hraised] at hh
    cases hh
  | interrupted | surfaced | killed => exact ⟨hraised, Main.noConfusion, Main.noConfusion⟩
  | marked outcome hm => exact absurd hm hmark

/-- A heartbeat can only raise before `mark_worker_offline`. -/
theorem Tasks.Wf.silenced {t t' : Tasks} {outcome : WriteOutcome} (h : t.Wf)
    (ht : Turn t (.write outcome) t') (ho : outcome ≠ .written) : t'.Silenced := by
  cases ht with
  | wrote _ hm hh =>
    have hjoined : t.main ≠ .marking ∧ t.main ≠ .returned := by
      constructor
      · intro hmark
        rw [h.joined (.inl hmark)] at hh
        cases hh
      · intro hret
        rw [h.joined (.inr hret)] at hh
        cases hh
    exact ⟨if_neg ho, hjoined⟩

/-- What has been silenced stays so, whatever happens. -/
theorem silenced_stays {ok : State → Event → Prop} {s u : State} {n : Nat} {t : Tasks}
    (h : Steps step ok s u) (ht : s.tasks[n]? = some t) (hsil : t.Silenced) :
    ∃ t', u.tasks[n]? = some t' ∧ t'.Silenced := by
  induction h with
  | refl => exact ⟨t, ht, hsil⟩
  | tail _ _ hs ih =>
    obtain ⟨t₁, ht₁, hsil₁⟩ := ih
    obtain ⟨hlt, -⟩ := List.getElem?_eq_some_iff.mp ht₁
    rcases tasks_after hs with ⟨ce, -, htasks⟩ | ⟨m, e, x, x', -, hx, hturn, htasks⟩
    · rw [htasks]
      exact ⟨t₁, (List.getElem?_append_left hlt).trans ht₁, hsil₁⟩
    · rw [htasks]
      by_cases hmn : m = n
      · subst hmn
        obtain rfl := Option.some.inj (ht₁.symm.trans hx)
        exact ⟨x', List.getElem?_set_self hlt, hsil₁.turn hturn⟩
      · exact ⟨t₁, (List.getElem?_set_ne hmn).trans ht₁, hsil₁⟩

theorem Turn.not_raised {t t' : Tasks} {e : TaskEvent} (h : Turn t e t')
    (hold : t.heartbeat ≠ .raised) (he : ∀ outcome, e = .write outcome → outcome = .written) :
    t'.heartbeat ≠ .raised := by
  cases h with
  | called =>
    dsimp only
    split <;> exact Heartbeat.noConfusion
  | wrote outcome =>
    dsimp only
    rw [if_pos (he outcome rfl)]
    exact Heartbeat.noConfusion
  | woke => exact Heartbeat.noConfusion
  | interrupted | joined | surfaced | marked | killed => exact hold

/-- A heartbeat task whose writes all succeed has not raised. -/
theorem not_raised {n : Nat} {s : State} (h : ReachableBy step (WritesSucceed n) init s) :
    ∀ t, s.tasks[n]? = some t → t.heartbeat ≠ .raised := by
  refine ReachableBy.invariant (I := fun s => ∀ t, s.tasks[n]? = some t → t.heartbeat ≠ .raised)
    (fun s hs t ht => ?_) (fun {s e u} _ hi hok hs t ht => ?_) h
  · rw [hs.2] at ht
    cases ht
  rcases tasks_after hs with ⟨ce, -, htasks⟩ | ⟨m, te, x, x', rfl, hx, hturn, htasks⟩
  · rw [htasks] at ht
    by_cases hlt : n < s.tasks.length
    · rw [List.getElem?_append_left hlt] at ht
      exact hi t ht
    · rw [List.getElem?_append_right (Nat.le_of_not_lt hlt)] at ht
      have hnew := List.mem_of_getElem? ht
      cases ce <;> simp only [created, List.mem_singleton, List.not_mem_nil] at hnew
      rw [hnew]
      exact Heartbeat.noConfusion
  · rw [htasks] at ht
    rcases getElem?_set_cases ht with ⟨rfl, rfl⟩ | ⟨-, ht⟩
    · refine hturn.not_raised (hi x hx) ?_
      rintro outcome rfl
      exact hok rfl
    · exact hi t ht

/-! ## Another attempt -/

section Forward

variable {s u : State} {n : Nat} {t : Tasks}

/-- A move of the two tasks on their own, and the state after it. -/
theorem move (e : TaskEvent) (t' : Tasks) (ht : s.tasks[n]? = some t) (hn : t.next e = some t')
    (hc : t.command e = none) : ∃ u, step s (.task n e) = some u ∧ u.cluster = s.cluster ∧
      u.tasks[n]? = some t' := by
  obtain ⟨hlt, -⟩ := List.getElem?_eq_some_iff.mp ht
  exact ⟨_, step_alone ht hn hc, rfl, List.getElem?_set_self hlt⟩

/-- From any place in its loop the heartbeat task comes to its next write. -/
theorem reaches_write (ht : s.tasks[n]? = some t) (hm : t.main.isOver = false)
    (hstop : t.stopEvent = false) (hh : t.heartbeat.isOver = false) :
    ∃ u, Steps step (BetweenWrites n) s u ∧ u.cluster = s.cluster ∧
      u.tasks[n]? = some { t with heartbeat := .writing } := by
  have hcall : ∀ {v : State}, v.tasks[n]? = some { t with heartbeat := .checking } →
      ∃ u, Steps step (BetweenWrites n) v u ∧ u.cluster = v.cluster ∧
        u.tasks[n]? = some { t with heartbeat := .writing } := by
    intro v hv
    obtain ⟨u, hs, hcl, hu⟩ := move .call { t with heartbeat := .writing } hv
      (by simp [Tasks.next, hm, hstop]) rfl
    exact ⟨u, .tail (.refl v) (.inl rfl) hs, hcl, hu⟩
  cases hb : t.heartbeat with
  | checking => exact hcall (by rw [ht, ← hb])
  | writing => exact ⟨s, .refl s, rfl, by rw [ht, ← hb]⟩
  | waiting =>
    obtain ⟨v, hs, hcl, hv⟩ := move .wake { t with heartbeat := .checking } ht
      (by simp [Tasks.next, hm, hb]) rfl
    obtain ⟨u, hrun, hclu, hu⟩ := hcall hv
    exact ⟨u, (Steps.tail (.refl s) (.inr rfl) hs).trans hrun, hclu.trans hcl, hu⟩
  | returned | raised =>
    rw [hb] at hh
    cases hh

/-- Its write can succeed. -/
theorem write_enabled (hr : Reachable Cluster.step Cluster.init s.cluster) {p : Process}
    (hp : s.cluster.processes[n]? = some p) (hl : p.loop ≠ .exited) (ht : s.tasks[n]? = some t)
    (hm : t.main.isOver = false) (hh : t.heartbeat = .writing) :
    ∃ u, step s (.task n (.write .written)) = some u ∧
      u.tasks[n]? = some { t with heartbeat := .waiting } := by
  obtain ⟨c, hc⟩ := heartbeat_enabled hr hp hl
  obtain ⟨hlt, -⟩ := List.getElem?_eq_some_iff.mp ht
  have hn : t.next (.write .written) = some { t with heartbeat := .waiting } := by
    simp [Tasks.next, hm, hh]
  exact ⟨_, step_sent ht hn rfl hc, List.getElem?_set_self hlt⟩

/-! ## The end of a shutdown -/

theorem CanFinish.of_step {e : TaskEvent} (hs : step s (.task n e) = some u)
    (he : WritesSucceed n s (.task n e)) (h : CanFinish n u) : CanFinish n s := by
  obtain ⟨v, hv, hret⟩ := h
  exact ⟨v, (Steps.tail (.refl s) ⟨⟨e, rfl⟩, he⟩ hs).trans hv, hret⟩

theorem canFinish_marking (hr : Reachable step init s) (ht : s.tasks[n]? = some t)
    (hm : t.main = .marking) : CanFinish n s := by
  obtain ⟨p, hp, hagree, -⟩ := process_of_tasks hr ht
  rw [hm] at hagree
  obtain ⟨c, hc⟩ := markOffline_enabled (cluster_reachable hr) hp hagree
  obtain ⟨hlt, -⟩ := List.getElem?_eq_some_iff.mp ht
  have hn : t.next (.markOffline .written) = some { t with main := .returned } := by
    simp [Tasks.next, hm]
  exact .of_step (step_sent ht hn rfl hc) trivial
    ⟨_, .refl _, _, List.getElem?_set_self hlt, rfl⟩

theorem canFinish_returned (hr : Reachable step init s) (ht : s.tasks[n]? = some t)
    (hm : t.main = .joining) (hh : t.heartbeat = .returned) : CanFinish n s := by
  obtain ⟨u, hs, -, hu⟩ := move .join { t with main := .marking } ht
    (by simp [Tasks.next, hm, hh]) (by simp [Tasks.command, hh])
  exact .of_step hs trivial (canFinish_marking (hr.next hs) hu rfl)

theorem canFinish_checking (hr : Reachable step init s) (ht : s.tasks[n]? = some t)
    (hm : t.main = .joining) (hh : t.heartbeat = .checking) : CanFinish n s := by
  obtain ⟨p, hp, -, hwf⟩ := process_of_tasks hr ht
  have hstop := hwf.set (.inl hm)
  obtain ⟨u, hs, -, hu⟩ := move .call { t with heartbeat := .returned } ht
    (by simp [Tasks.next, hm, hh, hstop, Main.isOver]) rfl
  exact .of_step hs trivial (canFinish_returned (hr.next hs) hu hm rfl)

theorem canFinish_waiting (hr : Reachable step init s) (ht : s.tasks[n]? = some t)
    (hm : t.main = .joining) (hh : t.heartbeat = .waiting) : CanFinish n s := by
  obtain ⟨u, hs, -, hu⟩ := move .wake { t with heartbeat := .checking } ht
    (by simp [Tasks.next, hm, hh, Main.isOver]) rfl
  exact .of_step hs trivial (canFinish_checking (hr.next hs) hu hm rfl)

/-- A shutdown whose heartbeat has not raised can come to its end. -/
theorem canFinish_joining (hr : Reachable step init s) (ht : s.tasks[n]? = some t)
    (hm : t.main = .joining) (hh : t.heartbeat ≠ .raised) : CanFinish n s := by
  cases hb : t.heartbeat with
  | checking => exact canFinish_checking hr ht hm hb
  | waiting => exact canFinish_waiting hr ht hm hb
  | returned => exact canFinish_returned hr ht hm hb
  | raised => exact absurd hb hh
  | writing =>
    obtain ⟨p, hp, hagree, -⟩ := process_of_tasks hr ht
    rw [hm] at hagree
    have hl : p.loop ≠ .exited := by
      rw [show p.loop = .stopping from hagree]
      exact Cluster.Loop.noConfusion
    have hover : t.main.isOver = false := by rw [hm]; rfl
    obtain ⟨u, hs, hu⟩ := write_enabled (cluster_reachable hr) hp hl ht hover hb
    exact .of_step hs (fun _ => rfl) (canFinish_waiting (hr.next hs) hu hm rfl)

end Forward

/-! ## Workers whose heartbeats succeed, and workers with a heartbeat that raised -/

theorem KeptAlive.of_not_raised {s : State} {n : Nat} {p : Process} {t : Tasks}
    (hr : Reachable step init s) (hp : s.cluster.processes[n]? = some p)
    (ht : s.tasks[n]? = some t) (hh : t.heartbeat ≠ .raised) : KeptAlive s n p t := by
  obtain ⟨hagree, hwf⟩ := (inStep_reachable hr).agree n p t hp ht
  have hbeats : t.stopEvent = false → t.heartbeat.isOver = false := by
    intro hstop
    have hret := hwf.early hstop
    cases hb : t.heartbeat with
    | checking | writing | waiting => rfl
    | returned => exact absurd hb hret
    | raised => exact absurd hb hh
  refine ⟨fun _ => hbeats, fun hl hstop => ?_, fun hm => ?_, fun hm => ?_⟩
  · have hlive : p.loop ≠ .exited := by
      intro he
      rw [he] at hl
      cases hl
    have hmain : t.main.isOver = false := by
      cases hm : t.main with
      | looping | joining | marking => rfl
      | returned | heartbeatRaised | markRaised | killed =>
        rw [hm] at hagree
        exact absurd hagree hlive
    obtain ⟨u, hrun, hcl, hu⟩ := reaches_write ht hmain hstop (hbeats hstop)
    obtain ⟨v, hv, -⟩ := write_enabled (hcl ▸ cluster_reachable hr) (hcl ▸ hp) hlive hu hmain rfl
    exact ⟨u, v, hrun, hv⟩
  · rcases hm with hm | hm
    · exact canFinish_joining hr ht hm hh
    · exact canFinish_marking hr ht hm
  · rcases hm with hm | hm
    · exact returned_offline hr hp ht hm
    · exact absurd (hwf.surfaced hm) hh

theorem Tasks.Silenced.not_keptAlive {s : State} {n : Nat} {p : Process} {t : Tasks}
    (h : t.Silenced) (hr : Reachable step init s) (hp : s.cluster.processes[n]? = some p)
    (ht : s.tasks[n]? = some t) (hm : t.main.isOver = false) : ¬ KeptAlive s n p t := by
  intro hk
  obtain ⟨hagree, hwf⟩ := (inStep_reachable hr).agree n p t hp ht
  cases hmain : t.main with
  | looping =>
    -- the loop takes tasks, and nothing beats
    rw [hmain] at hagree
    have hbeats := hk.beats hagree (hwf.unset hmain)
    rw [h.1] at hbeats
    cases hbeats
  | joining =>
    obtain ⟨u, hrun, t', ht', hret⟩ := hk.finishes (.inl hmain)
    obtain ⟨t'', ht'', hsil⟩ := silenced_stays hrun ht h
    obtain rfl := Option.some.inj (ht''.symm.trans ht')
    exact hsil.2.2 hret
  | marking => exact h.2.1 hmain
  | returned | heartbeatRaised | markRaised | killed =>
    rw [hmain] at hm
    cases hm

/-- **A worker none of whose heartbeats raises beats for as long as it takes tasks, and a shutdown
marks it `OFFLINE`**; once one of its heartbeats has raised, it does neither any more. -/
theorem heartbeats_go_on (n : Nat) :
    (∀ s, ReachableBy step (WritesSucceed n) init s →
      ∀ p, s.cluster.processes[n]? = some p →
        ∃ t, s.tasks[n]? = some t ∧ KeptAlive s n p t) ∧
    ∀ (s u v : State) (outcome : WriteOutcome), Reachable step init s →
      outcome ≠ .written → step s (.task n (.write outcome)) = some u →
      Steps step (fun _ _ => True) u v →
      ∀ (p : Process) (t : Tasks), v.cluster.processes[n]? = some p → v.tasks[n]? = some t →
        t.main.isOver = false → ¬ KeptAlive v n p t := by
  constructor
  · intro s hs p hp
    obtain ⟨hlt, -⟩ := List.getElem?_eq_some_iff.mp hp
    have ht := List.getElem?_eq_getElem ((inStep_reachable hs.reachable).length ▸ hlt)
    refine ⟨_, ht, .of_not_raised hs.reachable hp ht ?_⟩
    exact not_raised hs _ ht
  · intro s u v outcome hs ho hstep hrun p t hp ht hm
    obtain ⟨x, hx, hsil⟩ : ∃ x, u.tasks[n]? = some x ∧ x.Silenced := by
      rcases tasks_after hstep with ⟨ce, he, -⟩ | ⟨m, te, x, x', he, hx, hturn, htasks⟩
      · cases he
      · cases he
        obtain ⟨-, -, -, hwf⟩ := process_of_tasks hs hx
        obtain ⟨hlt, -⟩ := List.getElem?_eq_some_iff.mp hx
        exact ⟨x', htasks ▸ List.getElem?_set_self hlt, hwf.silenced hturn ho⟩
    obtain ⟨t', ht', hsil'⟩ := silenced_stays hrun hx hsil
    obtain rfl := Option.some.inj (ht'.symm.trans ht)
    exact hsil'.not_keptAlive ((hs.next hstep).run hrun) hp ht hm

/-- Two workers, one invocation. -/
def opening : List Event := (Cluster.opening [(10, "a"), (11, "b")]).map .cluster

/-- Worker 0 sends two heartbeats and is interrupted while it waits for the next one. -/
def stopsInOrder : List Event :=
  opening ++ [.task 0 .call, .task 0 (.write .written), .task 0 .wake, .task 0 .call,
    .task 0 (.write .written), .task 0 .interrupt, .task 0 .wake, .task 0 .call, .task 0 .join,
    .task 0 (.markOffline .written)]

/-- The first heartbeat of worker 0 raises. It takes a task and executes it, and half a minute
later worker 1 finds it stale. -/
def failsOnce : List Event :=
  opening ++ [.task 0 .call, .task 0 (.write .raised)] ++ (Cluster.readNew 0).map .cluster ++
    [.cluster (.worker 0 (.markRunning 0 20)), .cluster (.worker 0 (.refresh 0)),
      .cluster (.tick (seconds 31)), .task 1 .call, .task 1 (.write .written),
      .cluster (.worker 1 .recoverStaleWorkers)]

/-- A test of worker 0. -/
def atFirst (test : State → Process → Tasks → Bool) (s : State) : Bool :=
  (s.cluster.processes[0]?).any fun p => (s.tasks[0]?).any (test s p)

theorem of_atFirst {test : State → Process → Tasks → Bool} {s : State}
    (h : atFirst test s = true) :
    ∃ p ∈ s.cluster.processes[0]?, ∃ t ∈ s.tasks[0]?, test s p t = true := by
  obtain ⟨p, hp, h⟩ := (Option.any_eq_true _ _).mp h
  obtain ⟨t, ht, h⟩ := (Option.any_eq_true _ _).mp h
  exact ⟨p, hp, t, ht, h⟩

/-- `stopsInOrder` ends with the row marked; the first heartbeat of `failsOnce` silences a worker
that goes on. -/
theorem heartbeats_go_on_runs :
    (∃ s, ReachableBy step (WritesSucceed 0) init s ∧ ∃ p ∈ s.cluster.processes[0]?,
      ∃ t ∈ s.tasks[0]?, t.main = .returned ∧ MarkedOffline s.cluster p) ∧
    ∃ s, Reachable step init s ∧ ∃ p ∈ s.cluster.processes[0]?, ∃ t ∈ s.tasks[0]?,
      t.main = .looping ∧ ¬ KeptAlive s 0 p t := by
  constructor
  · obtain ⟨s, hs, hb⟩ := reachableBy_of_replayWhere step stopsInOrder
      (atFirst fun _ _ t => t.main = .returned)
      (fun s e (hc : decide (WritesSucceed 0 s e) = true) => of_decide_eq_true hc) init_empty
      (by decide +kernel)
    obtain ⟨p, hp, t, ht, hm⟩ := of_atFirst hb
    obtain ⟨t', ht', hk⟩ := (heartbeats_go_on 0).1 s hs p hp
    obtain rfl := Option.some.inj (ht'.symm.trans ht)
    have hret : t'.main = .returned := of_decide_eq_true hm
    exact ⟨s, hs, p, hp, t', ht, hret, hk.offline (.inl hret)⟩
  · obtain ⟨s, hs, hb⟩ := reachable_of_replay step (opening ++ [.task 0 .call])
      (fun s => (step s (.task 0 (.write .raised))).any
        (atFirst fun _ _ t => t.main = .looping))
      init_empty (by decide +kernel)
    obtain ⟨u, hu, hb⟩ := (Option.any_eq_true _ _).mp hb
    obtain ⟨p, hp, t, ht, hm⟩ := of_atFirst hb
    have hloop : t.main = .looping := of_decide_eq_true hm
    refine ⟨u, hs.next hu, p, hp, t, ht, hloop, ?_⟩
    exact (heartbeats_go_on 0).2 s u u .raised hs WriteOutcome.noConfusion hu (.refl u) p t hp ht
      (by rw [hloop]; rfl)

/-- **A worker whose heartbeat task has ended executes a task while another worker takes it for
dead**, and when it is interrupted it stops without marking its row. -/
theorem heartbeat_ends_at_error :
    (∃ s, Reachable step init s ∧ ∃ p ∈ s.cluster.processes[0]?, ∃ t ∈ s.tasks[0]?,
      p.loop.isOver = false ∧ t.stopEvent = false ∧ t.heartbeat.isOver = true ∧
        p.coroutines.countP Process.isExecuting = 1 ∧
        ∀ a ∈ s.cluster.db.attempts.rows, a.status ≠ .running) ∧
    ∃ s, Reachable step init s ∧ ∃ p ∈ s.cluster.processes[0]?, ∃ t ∈ s.tasks[0]?,
      t.main = .heartbeatRaised ∧ ¬ MarkedOffline s.cluster p := by
  constructor
  · obtain ⟨s, hs, hb⟩ := reachable_of_replay step failsOnce
      (atFirst fun s p t => p.loop.isOver = false ∧ t.stopEvent = false ∧
        t.heartbeat.isOver = true ∧ p.coroutines.countP Process.isExecuting = 1 ∧
        ∀ a ∈ s.cluster.db.attempts.rows, a.status ≠ .running)
      init_empty (by decide +kernel)
    obtain ⟨p, hp, t, ht, h⟩ := of_atFirst hb
    exact ⟨s, hs, p, hp, t, ht, of_decide_eq_true h⟩
  · obtain ⟨s, hs, hb⟩ := reachable_of_replay step
      (failsOnce ++ [.task 0 .interrupt, .task 0 .join])
      (atFirst fun s p t => t.main = .heartbeatRaised ∧ ¬ MarkedOffline s.cluster p)
      init_empty (by decide +kernel)
    obtain ⟨p, hp, t, ht, h⟩ := of_atFirst hb
    exact ⟨s, hs, p, hp, t, ht, of_decide_eq_true h⟩

end Serverless.Lifecycle
