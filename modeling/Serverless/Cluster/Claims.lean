import Serverless.Cluster.Crew

/-!
# From whom a recovery takes messages

A recovery lists the pending entries of a stale consumer and claims them with a second
command. Whoever holds an entry when the second command arrives loses it, and the
compatibility path asks for no consumer at all. A claim takes from stale workers only if
nothing has moved in between, and if no other consumer has an entry that is idle for long.
-/
namespace Serverless.Cluster

open Serverless.Library Serverless.Model

/-- The entry is pending after the step as well, but with another holder or delivered anew. -/
def Moved (t : State) (q : Pending String) : Prop := ∃ q' ∈ t.group.pending, q'.id = q.id ∧ q' ≠ q

/-- The worker of the consumer has not recorded a heartbeat for as long as `p` waits before it
judges a worker stale. -/
def Silent (s : State) (p : Process) (w : Worker) : Prop :=
  w.lastHeartbeat < s.clock - seconds p.config.staleWorkerSeconds

/-- A step that moves a pending entry is the step of a worker whose stale scan has returned the
worker it takes the entry from, and that worker has no fresh heartbeat. -/
def TakesFromStale (s : State) (e : Event) (t : State) : Prop :=
  ∀ q ∈ s.group.pending, Moved t q → ∃ n event p scan, e = .worker n event ∧
    s.processes[n]? = some p ∧ p.loop.scan = some scan ∧ ∃ w ∈ s.db.workers,
      w.id ∈ scan.staleWorkerIds ∧ (w.id, q.consumer) ∈ s.crew ∧ Silent s p w

/-- The consumer asked and the ids it answered, between `XPENDING` and `XCLAIM`. -/
def Loop.listing : Loop → Option (String × List StreamId)
  | .listed _ _ _ _ consumer ids => some (consumer, ids)
  | _ => none

/-- The scan of a recovery that is about to send `XAUTOCLAIM`. -/
def Loop.autoclaim : Loop → Option RecoverySummary
  | .autoclaiming scan _ _ => some scan
  | _ => none

/-- The consumer's worker is silent. -/
def SilentConsumer (s : State) (p : Process) (consumer : String) : Prop :=
  ∀ w ∈ s.db.workers.rows, (w.id, consumer) ∈ s.crew → Silent s p w

/-- Every listed entry that is still pending is still held by the consumer that was asked, and
its worker has not come back. -/
def ListingHolds (s : State) (p : Process) : Prop :=
  ∀ l ∈ p.loop.listing, ∀ q ∈ s.group.pending, q.id ∈ l.2 →
    q.consumer = l.1 ∧ SilentConsumer s p l.1

/-- Every entry that is idle for long is held by a worker of the scan that has not come back. -/
def OnlyStaleIdle (s : State) (p : Process) : Prop :=
  ∀ scan ∈ p.loop.autoclaim, ∀ q ∈ s.group.pending,
    ConsumerGroup.idleEnough (seconds p.config.staleWorkerSeconds) s.clock q = true →
    (∃ id ∈ scan.staleWorkerIds, (id, q.consumer) ∈ s.crew) ∧ SilentConsumer s p q.consumer

def Undisturbed (s : State) : Event → Prop
  | .worker n .xclaim => ∀ p ∈ s.processes[n]?, ListingHolds s p
  | .worker n .xautoclaim => ∀ p ∈ s.processes[n]?, OnlyStaleIdle s p
  | _ => True

instance (s : State) (p : Process) (w : Worker) : Decidable (Silent s p w) :=
  inferInstanceAs (Decidable (_ < _))

instance (s : State) (p : Process) (consumer : String) : Decidable (SilentConsumer s p consumer) :=
  inferInstanceAs (Decidable (∀ w ∈ s.db.workers.rows, (w.id, consumer) ∈ s.crew → Silent s p w))

instance (s : State) (p : Process) : Decidable (ListingHolds s p) :=
  inferInstanceAs (Decidable (∀ l ∈ p.loop.listing, ∀ q ∈ s.group.pending, q.id ∈ l.2 →
    q.consumer = l.1 ∧ SilentConsumer s p l.1))

instance (s : State) (p : Process) : Decidable (OnlyStaleIdle s p) :=
  inferInstanceAs (Decidable (∀ scan ∈ p.loop.autoclaim, ∀ q ∈ s.group.pending, _))

instance (s : State) (e : Event) : Decidable (Undisturbed s e) :=
  match e with
  | .worker n .xclaim => inferInstanceAs (Decidable (∀ p ∈ s.processes[n]?, ListingHolds s p))
  | .worker n .xautoclaim => inferInstanceAs (Decidable (∀ p ∈ s.processes[n]?, OnlyStaleIdle s p))
  | .worker _ .heartbeat | .worker _ .recoverStaleWorkers | .worker _ .proceed
  | .worker _ .xpending | .worker _ .markWorkersOffline | .worker _ .xreadgroup
  | .worker _ (.markRunning _ _) | .worker _ (.refresh _) | .worker _ (.execute _ _)
  | .worker _ (.markFinished _ _ _) | .worker _ (.xack _) | .worker _ (.failTask _)
  | .worker _ .failIteration | .worker _ .interrupt | .worker _ .markOffline | .worker _ .stop
  | .tick _ | .createInvocation .. | .select _ | .publish _ _ | .commit _ | .rollback _
  | .register .. => inferInstanceAs (Decidable True)

instance (t : State) (q : Pending String) : Decidable (Moved t q) :=
  inferInstanceAs (Decidable (∃ q' ∈ t.group.pending, q'.id = q.id ∧ q' ≠ q))

/-! ## Which steps move an entry -/

/-- Entries stay with their holders. -/
theorem not_moved {s t : State} (h : ∀ q' ∈ t.group.pending, q' ∈ s.group.pending ∨
    q'.id ∉ s.group.pending.map (·.id)) {q : Pending String} (hq : q ∈ s.group.pending) :
    ¬ Moved t q := by
  rintro ⟨q', hq', hid, hne⟩
  rcases h q' hq' with hm | hm
  · exact hne (List.inj_on_of_nodup_map s.group.pending_nodup hm hq hid)
  · exact hm (hid ▸ List.mem_map_of_mem hq)

/-- What a claim moves was listed and idle enough. -/
theorem claims_of_moved {s t : State} {consumer : String} {minIdle : Int} {ids : List StreamId}
    (h : t.group = s.group.claim consumer minIdle ids s.clock) {q : Pending String}
    (hq : q ∈ s.group.pending) (hm : Moved t q) :
    q.id ∈ ids ∧ ConsumerGroup.idleEnough minIdle s.clock q = true := by
  obtain ⟨q', hq', hid, hne⟩ := hm
  rw [h] at hq'
  obtain ⟨r, hr, rfl⟩ := List.mem_map.mp hq'
  rw [ConsumerGroup.reassign_id] at hid
  obtain rfl : r = q := List.inj_on_of_nodup_map s.group.pending_nodup hr hq hid
  unfold ConsumerGroup.reassign at hne
  split at hne
  · rename_i hc
    simpa [ConsumerGroup.claims] using hc
  · exact absurd rfl hne

/-- **Only `XCLAIM` and `XAUTOCLAIM` move an entry**, and only what was listed, or was idle for
long. -/
theorem moved_cases {s t : State} {e : Event} (hs : step s e = some t) {q : Pending String}
    (hq : q ∈ s.group.pending) (hm : Moved t q) : ∃ n p, s.processes[n]? = some p ∧
    ((∃ scan recovered names tasks consumer ids, e = .worker n .xclaim ∧
        p.loop = .listed scan recovered names tasks consumer ids ∧ q.id ∈ ids) ∨
      ∃ scan recovered startId, e = .worker n .xautoclaim ∧
        p.loop = .autoclaiming scan recovered startId ∧
        ConsumerGroup.idleEnough (seconds p.config.staleWorkerSeconds) s.clock q = true) := by
  cases step_effect hs with
  | ticked | created | selected | committed | rolledBack | registered =>
    exact absurd hm (not_moved (fun _ h => Or.inl h) hq)
  | published b d todo done outcome hb =>
    refine absurd hm (not_moved (s := s) (fun q' h => Or.inl ?_) hq)
    change q' ∈ (addMessage s.group _ _).pending at h
    revert h
    generalize (publishDispatch s.db d outcome (s.group.entries.length + 1) s.clock).2 = m
    cases m <;> exact id
  | worked n p e u p' hp hw =>
    refine ⟨n, p, hp, ?_⟩
    have hstay : (∀ q' ∈ u.group.pending, q' ∈ s.group.pending ∨
        q'.id ∉ s.group.pending.map (·.id)) → ¬ Moved (u.setProcess n p') q :=
      fun h => not_moved (t := u.setProcess n p') h hq
    cases hw with
    | own | heartbeat | scanned | offlined | started | dismissed | notStarted | finished
    | shutDown => exact absurd hm (hstay fun _ h => Or.inl h)
    | read hl =>
      refine absurd hm (hstay fun q' h => ?_)
      rcases List.mem_append.mp h with h | h
      · exact Or.inl h
      · obtain ⟨id, hid, rfl⟩ := List.mem_map.mp h
        refine Or.inr fun hmem => ?_
        obtain ⟨r, hr, he⟩ := List.mem_map.mp hmem
        have h₁ := (s.group.pending_le r hr).2
        have h₂ := (ConsumerGroup.mem_nextIds.mp hid).1
        change r.id = id at he
        omega
    | acked j c hc hst => exact absurd hm (hstay fun q' h => Or.inl (List.mem_of_mem_filter h))
    | claimed scan recovered names tasks consumer ids hl =>
      obtain ⟨hid, -⟩ := claims_of_moved rfl hq hm
      exact Or.inl ⟨scan, recovered, names, tasks, consumer, ids, rfl, hl, hid⟩
    | autoclaimed scan recovered startId ids nextStartId claimed hl hids =>
      obtain ⟨-, hidle⟩ := claims_of_moved rfl hq hm
      exact Or.inr ⟨scan, recovered, startId, rfl, hl, hidle⟩

/-- At any point of any run. -/
theorem takesFromStale_of_undisturbed {s t : State} {e : Event} (h : Reachable step init s)
    (hs : step s e = some t) (he : Undisturbed s e) : TakesFromStale s e t := by
  intro q hq hm
  have hcrew := crew_reachable h
  -- the row of a worker of the crew
  have hrow : ∀ {p : Process} {id : UUID}, (id, q.consumer) ∈ s.crew →
      SilentConsumer s p q.consumer → ∃ w ∈ s.db.workers, w.id = id ∧ Silent s p w := by
    intro p id hc hsil
    obtain ⟨w, hw, rfl⟩ := hcrew.rows _ hc
    exact ⟨w, hw, rfl, hsil w hw hc⟩
  obtain ⟨n, p, hp, ⟨scan, recovered, names, tasks, consumer, ids, rfl, hl, hid⟩ |
    ⟨scan, recovered, startId, rfl, hl, hidle⟩⟩ := moved_cases hs hq hm
  · obtain ⟨hcons, hsil⟩ := he p hp (consumer, ids) (by rw [hl]; rfl) q hq hid
    have hloop := hcrew.loops p (List.mem_of_getElem? hp)
    rw [hl] at hloop
    obtain ⟨hscan, -, hname, -⟩ := hloop
    obtain ⟨id, hids, hc⟩ := hscan consumer hname
    obtain rfl : consumer = q.consumer := hcons.symm
    obtain ⟨w, hw, rfl, hws⟩ := hrow hc hsil
    exact ⟨n, _, p, scan, rfl, hp, by rw [hl]; rfl, w, hw, hids, hc, hws⟩
  · obtain ⟨⟨id, hids, hc⟩, hsil⟩ := he p hp scan (by rw [hl]; rfl) q hq hidle
    obtain ⟨w, hw, rfl, hws⟩ := hrow hc hsil
    exact ⟨n, _, p, scan, rfl, hp, by rw [hl]; rfl, w, hw, hids, hc, hws⟩

/-- **In every run of undisturbed recoveries messages are taken only from workers judged
stale.** -/
theorem claims_from_stale {s : State} (h : init s) (run : List Event)
    (hrun : ∀ x ∈ trace step s run, Undisturbed x.1 x.2.1) :
    ∀ x ∈ trace step s run, TakesFromStale x.1 x.2.1 x.2.2 := by
  intro x hx
  have h₀ : Reachable step init s := ReachableBy.start h
  obtain ⟨hr, hs⟩ := h₀.mem_trace hx
  exact takesFromStale_of_undisturbed hr hs (hrun x hx)

/-- A worker that has died with an entry unprocessed is recovered by one other worker. -/
def singleRecovery : List Event :=
  opening [(10, "a"), (11, "b")] ++ readNew 0 ++
    [.tick (seconds 31), .worker 0 .stop, .worker 1 .heartbeat, .worker 1 .recoverStaleWorkers,
      .worker 1 .xpending, .worker 1 .xclaim]

/-- The claim of `singleRecovery` moves the entry away from the dead worker. -/
theorem claims_from_stale_singleRecovery :
    (∃ x ∈ trace step empty singleRecovery, ∃ q ∈ x.1.group.pending, Moved x.2.2 q) ∧
    ∀ x ∈ trace step empty singleRecovery, TakesFromStale x.1 x.2.1 x.2.2 :=
  ⟨by decide, claims_from_stale init_empty singleRecovery (by decide)⟩

/-- Two workers recover one dead worker: both list its entry, the first claims it and starts
to execute it, and then the second claims it. -/
def overlappingRecoveries : List Event :=
  opening [(10, "a"), (11, "b"), (12, "c")] ++ readNew 0 ++
    [.tick (seconds 31), .worker 0 .stop, .worker 1 .heartbeat, .worker 2 .heartbeat,
      .worker 1 .recoverStaleWorkers, .worker 2 .recoverStaleWorkers, .worker 2 .xpending,
      .worker 1 .xpending, .worker 1 .xclaim, .worker 1 .proceed, .worker 1 .proceed,
      .worker 1 (.markRunning 0 20), .worker 2 .xclaim]

/-- The second claim of `overlappingRecoveries` takes the entry from a worker whose heartbeat
is fresh. -/
theorem not_claims_from_stale :
    init empty ∧ ∃ x ∈ trace step empty overlappingRecoveries, ¬ TakesFromStale x.1 x.2.1 x.2.2 := by
  refine ⟨init_empty, ?_⟩
  have hfresh : ∃ x ∈ trace step empty overlappingRecoveries, ∃ q ∈ x.1.group.pending,
      Moved x.2.2 q ∧ ∀ p ∈ x.1.processes, ∀ w ∈ x.1.db.workers.rows,
        (w.id, q.consumer) ∈ x.1.crew → ¬ Silent x.1 p w := by decide
  obtain ⟨x, hx, q, hq, hm, hfresh⟩ := hfresh
  refine ⟨x, hx, fun htakes => ?_⟩
  obtain ⟨n, event, p, scan, -, hn, -, w, hw, -, hc, hsil⟩ := htakes q hq hm
  exact hfresh p (List.mem_of_getElem? hn) w hw hc hsil

end Serverless.Cluster
