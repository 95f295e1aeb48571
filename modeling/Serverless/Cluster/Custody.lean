import Serverless.Cluster.Crew
import Serverless.Cluster.Rows

/-!
# Custody of stream entries

What can restart an invocation is an outbox row that is not published or an entry that is
not acknowledged. Workers acknowledge a message they take for obsolete, and they are wrong
about it when they work on a copy: another worker has claimed the entry meanwhile, or
claims it while an attempt started from it is still `RUNNING`. In runs without such claims
every entry has one custodian, and the latest attempt of an unfinished invocation was
started from an entry that is still there or is followed by an outbox row.
-/
namespace Serverless.Cluster

open Serverless.Library Serverless.Model

/-- The entries a claim of the process takes. -/
def taken (s : State) (p : Process) : WorkerEvent → List StreamId
  | .xclaim =>
    match p.loop with
    | .listed _ _ _ _ _ ids => s.group.claimedIds 0 ids s.clock
    | _ => []
  | .xautoclaim =>
    match p.loop with
    | .autoclaiming _ _ startId => (s.group.autoClaimIds (seconds p.config.staleWorkerSeconds)
        startId p.config.claimCount s.clock).1
    | _ => []
  | _ => []

/-- No process has a copy of the entry at hand, and no attempt started from it is `RUNNING`. -/
def Unattended (s : State) (id : StreamId) : Prop :=
  id ∉ s.items.map (·.1.streamMessageId) ∧
  ∀ a ∈ s.db.attempts.rows, a.status = .running → s.origin a.id ≠ id

/-- Claims take unattended entries only. -/
def CleanClaims (s : State) : Event → Prop
  | .worker n event => ∀ p ∈ s.processes[n]?, ∀ id ∈ taken s p event, Unattended s id
  | _ => True

instance (s : State) (id : StreamId) : Decidable (Unattended s id) :=
  inferInstanceAs (Decidable (_ ∧ _))

instance (s : State) (e : Event) : Decidable (CleanClaims s e) :=
  match e with
  | .worker n event =>
    inferInstanceAs (Decidable (∀ p ∈ s.processes[n]?, ∀ id ∈ taken s p event, Unattended s id))
  | .tick _ | .createInvocation .. | .select _ | .publish _ _ | .commit _ | .rollback _
  | .register .. => inferInstanceAs (Decidable True)

/-- An outbox row of the invocation is unpublished, or an entry of it is unacknowledged. -/
def Restartable (s : State) (i : Invocation) : Prop :=
  (∃ d ∈ s.db.dispatches, d.invocationId = i.id ∧ d.publishedAt = none) ∨
  ∃ id e, s.group.entry id = some e ∧ e.fields.invocationId = i.id ∧ s.group.Unacked id

/-! ## The invariant -/

section Custody

variable (db : Database) (g : Group) (origin : UUID → StreamId)

/-- The next attempt is scheduled, or the entry the latest one was started from is there. -/
def Covered (i : Invocation) : Prop :=
  db.scheduledRetry i.id (i.attemptCount + 1) ∨ ∃ a ∈ db.attempts,
    a.invocationId = i.id ∧ a.attemptNumber = i.attemptCount ∧ g.Unacked (origin a.id)

/-- The invocation of the task can do without the task's entry. -/
def Released (task : InvocationTask) : Prop :=
  ∀ i ∈ db.invocations, i.id = task.invocationId → i.status.isTerminal ∨
    task.attemptNumber ≤ i.attemptCount ∧ (db.scheduledRetry i.id (i.attemptCount + 1) ∨
      ∀ a ∈ db.attempts, a.invocationId = i.id → a.attemptNumber = i.attemptCount →
        origin a.id ≠ task.streamMessageId)

/-- What a coroutine may rely on, by how far it has come. -/
def StageOk (task : InvocationTask) : Stage → Prop
  | .ready => ∀ a ∈ db.attempts, origin a.id = task.streamMessageId →
      task.recovered = true ∧ a.status ≠ .running
  | .refreshing b | .executing b | .finishing b _ => task.attemptNumber ≤ b.attemptNumber ∧
      ∀ a ∈ db.attempts, origin a.id = task.streamMessageId → a.attemptNumber ≤ b.attemptNumber
  | .acking => Released db origin task

structure Custody (items : List (InvocationTask × Stage)) : Prop where
  nodup : (items.map (·.1.streamMessageId)).Nodup
  pending : ∀ x ∈ items, x.1.streamMessageId ∈ g.pending.map (·.id)
  stage : ∀ x ∈ items, StageOk db origin x.1 x.2
  covered : ∀ i ∈ db.invocations, ¬ i.status.isTerminal → Covered db g origin i
  acked : ∀ id e, g.entry id = some e → ¬ g.Unacked id → ∀ i ∈ db.invocations,
    i.id = e.fields.invocationId → i.status.isTerminal ∨ e.fields.attemptNumber ≤ i.attemptCount

end Custody

theorem Keeps.scheduledRetry {db db' : Database} (h : Keeps db db') {id : UUID} {n : Nat}
    (hs : db.scheduledRetry id n) : db'.scheduledRetry id n := by
  obtain ⟨d, hd, hid, hn⟩ := hs
  obtain ⟨d', hd', hid', hn'⟩ := h.scheduled d hd
  exact ⟨d', hd', hid'.trans hid, hn'.trans hn⟩

/-- What an invocation was before the transaction. -/
theorem Keeps.before {db db' : Database} (h : Keeps db db') {i' : Invocation}
    (hi' : i' ∈ db'.invocations) : ∃ i ∈ db.invocations, i.id = i'.id ∧
      i.attemptCount = i'.attemptCount ∧ (i.status.isTerminal → i'.status.isTerminal) := by
  obtain ⟨i, hi, hid, hc, -⟩ := h.backward i' hi'
  refine ⟨i, hi, hid, hc, fun ht => ?_⟩
  exact Table.eq_of_key (h.terminal i hi ht) hi' hid ▸ ht

namespace Released

variable {db db' : Database} {origin : UUID → StreamId} {task : InvocationTask}

theorem keeps (h : Released db origin task) (hk : Keeps db db') : Released db' origin task := by
  intro i' hi' hid'
  obtain ⟨i, hi, hid, hc, ht⟩ := hk.before hi'
  rw [← hid, ← hc]
  refine (h i hi (hid.trans hid')).imp ht fun hr => ⟨hr.1, hr.2.imp hk.scheduledRetry ?_⟩
  intro hall a' ha' hinv hnum
  obtain ⟨a, ha, hai, hainv, hanum, -⟩ := hk.none a' ha'
  rw [← hai]
  exact hall a ha (hainv.trans hinv) (hanum.trans hnum)

/-- A task that is dismissed by `mark_running` and then acknowledged. -/
theorem dismissed (hwf : DbWf db) (hready : StageOk db origin task .ready)
    {workerId : Option UUID} {attemptId : UUID} {now : Time} {error : StartError}
    (hr : markRunning db task workerId attemptId now = (db', .error error))
    (ha : acknowledges error = true) : Released db' origin task := by
  have hsame : ∀ {i j : Invocation}, db.invocations.get task.invocationId = some i →
      j ∈ db.invocations → j.id = task.invocationId → j = i := fun hget hj hid =>
    Table.eq_of_key hj (Table.get_mem hget) (hid.trans (Table.get_key hget).symm)
  cases markRunning_cases hr with
  | missing | rejected => cases ha
  | terminal i hget ht =>
    intro j hj hid
    exact Or.inl (hsame hget hj hid ▸ ht)
  | superseded i hget hs hn =>
    intro j hj hid
    obtain rfl := hsame hget hj hid
    refine Or.inr ⟨hn, Or.inr fun a ham hinv hnum hao => ?_⟩
    -- the latest attempt is running, so it was not started from this entry
    obtain ⟨b, hb, hbinv, hbnum, hbrun⟩ := hwf.running j hj hs
    obtain rfl : a = b := Database.attempt_eq_of_number ham hb (hinv.trans hbinv.symm)
      (hnum.trans hbnum.symm)
    exact (hready a ham hao).2 hbrun
  | expired i hget ht hs hd =>
    intro j hj hid
    rcases Table.mem_modify_cases (by exact fun _ => ⟨rfl, rfl⟩) hget hj with rfl | ⟨-, hne⟩
    · exact Or.inl (by simp only [Invocation.expire]; decide)
    · exact absurd hid hne
  | future i hget ht => exact absurd ha (by simpa [acknowledges] using ht)
  | late i hget hs hd hn hrec =>
    intro j hj hid
    obtain rfl := hsame hget hj hid
    refine Or.inr ⟨hn, ?_⟩
    rcases hrec with hrec | hsched
    · refine Or.inr fun a ham hinv hnum hao => ?_
      rw [(hready a ham hao).1] at hrec
      cases hrec
    · exact Or.inl hsched

/-- A task whose attempt has been finished. -/
theorem finished {g : Group} (hwf : DbWf db) {attempt row : InvocationAttempt}
    {result : RuntimeExecutionResult} {decision : RetryDecision} {dispatchId : UUID} {now : Time}
    (hx : ItemWf db g (task, .finishing attempt result))
    (hs : StageOk db origin task (.finishing attempt result)) (hk : Keeps db db')
    (hm : markFinished db task.invocationId attempt.id (some attempt) result decision dispatchId
      now = (db', .ok row)) : Released db' origin task := by
  obtain ⟨hinv, r, hr, hrid, hrinv, hrnum⟩ := hx.held attempt rfl
  intro j hj hid
  cases markFinished_cases hm with
  | retried i a dispatches hget hload hai hi ha hd hv =>
    obtain rfl : attempt = a := (eq_of_loadAttempt hload).symm
    obtain ⟨j₀, hj₀, hjid, hjc, -⟩ := hk.before hj
    -- the finished attempt has been counted
    have hle : attempt.attemptNumber ≤ j.attemptCount := by
      obtain ⟨i₀, hi₀, hi₀d, -, hi₀le⟩ := hwf.attemptOwner r hr
      obtain rfl : i₀ = j₀ := Table.eq_of_key hi₀ hj₀
        ((hi₀d.trans (hrinv.trans hinv)).trans (hjid.trans hid).symm)
      rw [← hrnum, ← hjc]
      exact hi₀le
    refine Or.inr ⟨hs.1.trans hle, ?_⟩
    rcases Nat.lt_or_ge attempt.attemptNumber j.attemptCount with hlt | hge
    · -- a later attempt exists, and it was started from another entry
      refine Or.inr fun b' hb' hbinv hbnum hbo => ?_
      obtain ⟨b, hb, hbid, -, hbn, -⟩ := hk.none b' hb'
      have := hs.2 b hb (hbid ▸ hbo)
      omega
    · refine Or.inl ⟨_, (Table.mem_insert hv).mpr (Or.inr rfl), hid.symm, ?_⟩
      simp only [retryDispatch]
      omega
  | completed i a status hget hload hai hi ha hd hst =>
    apply Or.inl
    rcases Table.mem_modify_cases (by exact fun _ => ⟨rfl, rfl⟩) hget hj with rfl | ⟨-, hne⟩
    · exact attemptToInvocationStatus_isTerminal hst
    · exact absurd hid hne

end Released

theorem StageOk.keeps {db db' : Database} {origin : UUID → StreamId} {task : InvocationTask}
    {stage : Stage} (h : StageOk db origin task stage) (hk : Keeps db db') :
    StageOk db' origin task stage := by
  have hheld : ∀ {b : InvocationAttempt}, (∀ a ∈ db.attempts,
      origin a.id = task.streamMessageId → a.attemptNumber ≤ b.attemptNumber) →
      ∀ a ∈ db'.attempts, origin a.id = task.streamMessageId → a.attemptNumber ≤ b.attemptNumber := by
    intro b hall a' ha' ho
    obtain ⟨a, ha, hid, -, hn, -⟩ := hk.none a' ha'
    exact hn ▸ hall a ha (hid ▸ ho)
  cases stage with
  | ready =>
    intro a' ha' ho
    obtain ⟨a, ha, hid, -, -, -, hrun⟩ := hk.none a' ha'
    obtain ⟨hr, hs⟩ := h a ha (hid ▸ ho)
    exact ⟨hr, fun hrun' => hs (hrun hrun')⟩
  | refreshing b | executing b => exact ⟨h.1, hheld h.2⟩
  | finishing b result => exact ⟨h.1, hheld h.2⟩
  | acking => exact Released.keeps h hk

theorem StageOk.move {db : Database} {g : Group} {origin : UUID → StreamId}
    {task : InvocationTask} {stage stage' : Stage} (h : StageOk db origin task stage)
    (hx : ItemWf db g (task, stage)) (hm : StageMove db stage stage') :
    StageOk db origin task stage' := by
  cases hm with
  | refreshed b =>
    obtain ⟨-, row, hrow, hid, -, hn⟩ := hx.held b rfl
    rw [refreshAttempt_eq hrow hid]
    exact ⟨hn ▸ h.1, fun a ha ho => hn ▸ h.2 a ha ho⟩
  | executed b result => exact h

/-- The stage of another task when a `mark_running` goes through: the attempts started from its
entry are old ones. -/
theorem StageOk.started {db db' : Database} {origin origin' : UUID → StreamId}
    {task other : InvocationTask} {stage : Stage} {workerId : Option UUID}
    {attempt : InvocationAttempt} {i : Invocation} (hs : StageOk db origin other stage)
    (hst : Started db task workerId attempt db' i) (hwf : DbWf db)
    (hback : ∀ a ∈ db'.attempts, origin' a.id = other.streamMessageId →
      a ∈ db.attempts ∧ origin a.id = other.streamMessageId) :
    StageOk db' origin' other stage := by
  have hheld : ∀ {b : InvocationAttempt}, (∀ a ∈ db.attempts,
      origin a.id = other.streamMessageId → a.attemptNumber ≤ b.attemptNumber) → ∀ a ∈ db'.attempts,
      origin' a.id = other.streamMessageId → a.attemptNumber ≤ b.attemptNumber := by
    intro b hall a ha hao
    obtain ⟨ham, hao'⟩ := hback a ha hao
    exact hall a ham hao'
  cases stage with
  | ready =>
    intro a ha hao
    obtain ⟨ham, hao'⟩ := hback a ha hao
    exact hs a ham hao'
  | refreshing b | executing b => exact ⟨hs.1, hheld hs.2⟩
  | finishing b result => exact ⟨hs.1, hheld hs.2⟩
  | acking =>
    intro j hj hjd
    rcases hst.others hj with ⟨hid, hcount⟩ | ⟨hj, hjne⟩
    · have hkey : i.id = task.invocationId := Table.get_key hst.found
      rcases hs i (Table.get_mem hst.found) ((hkey.trans hid.symm).trans hjd) with ht | ⟨hn, -⟩
      · exact absurd ht (TerminalKept.waiting_not_terminal hst.waiting)
      · refine Or.inr ⟨by omega, Or.inr fun a ha hinv hnum hao => ?_⟩
        obtain ⟨ham, -⟩ := hback a ha hao
        have := hwf.counted hst ham (hinv.trans hid)
        omega
    · refine (hs j hj hjd).imp_right fun hr => ⟨hr.1, hr.2.imp hst.scheduledRetry ?_⟩
      intro hall a ha hinv hnum hao
      obtain ⟨ham, hao'⟩ := hback a ha hao
      exact hall a ham hinv hnum hao'

namespace Custody

variable {db db' : Database} {g g' : Group} {origin : UUID → StreamId}
  {items items' rest : List (InvocationTask × Stage)}

theorem subperm (h : Custody db g origin items) (hi : items'.Subperm items) :
    Custody db g origin items' where
  nodup := by
    obtain ⟨l, hp, hl⟩ := hi
    exact (hp.map _).nodup_iff.mp (h.nodup.sublist (hl.map _))
  pending := fun x hx => h.pending x (hi.subset hx)
  stage := fun x hx => h.stage x (hi.subset hx)
  covered := h.covered
  acked := h.acked

theorem keeps (h : Custody db g origin items) (hk : Keeps db db') :
    Custody db' g origin items where
  nodup := h.nodup
  pending := h.pending
  stage := fun x hx => (h.stage x hx).keeps hk
  covered := fun i' hi' ht => by
    obtain ⟨i, hi, hid, hc, hterm⟩ := hk.before hi'
    unfold Covered
    rw [← hid, ← hc]
    refine (h.covered i hi fun h => ht (hterm h)).imp hk.scheduledRetry ?_
    rintro ⟨a, ha, hinv, hn, hun⟩
    obtain ⟨a', ha', hid', hinv', hn'⟩ := hk.attempts a ha
    exact ⟨a', ha', hinv'.trans hinv, hn'.trans hn, hid' ▸ hun⟩
  acked := fun id e he hun i' hi' hid' => by
    obtain ⟨i, hi, hid, hc, hterm⟩ := hk.before hi'
    rw [← hc]
    exact (h.acked id e he hun i hi (hid.trans hid')).imp_left hterm

/-- One coroutine has moved on. -/
theorem restage {task : InvocationTask} {stage stage' : Stage}
    (h : Custody db g origin ((task, stage) :: rest)) (hs : StageOk db origin task stage') :
    Custody db g origin ((task, stage') :: rest) where
  nodup := h.nodup
  pending := fun x hx => by
    rcases List.mem_cons.mp hx with rfl | hx
    · exact h.pending (task, stage) List.mem_cons_self
    · exact h.pending x (List.mem_cons_of_mem _ hx)
  stage := fun x hx => by
    rcases List.mem_cons.mp hx with rfl | hx
    · exact hs
    · exact h.stage x (List.mem_cons_of_mem _ hx)
  covered := h.covered
  acked := h.acked

/-- The ids of the other tasks differ. -/
theorem ne_of_mem {task : InvocationTask} {stage : Stage}
    (h : Custody db g origin ((task, stage) :: rest)) {x : InvocationTask × Stage}
    (hx : x ∈ rest) : x.1.streamMessageId ≠ task.streamMessageId := by
  intro he
  exact (List.nodup_cons.mp h.nodup).1 (List.mem_map.mpr ⟨x, hx, he⟩)

/-- A message was added to the stream, or not. -/
theorem add (h : Custody db g origin items) (message : Option StreamMessage) (now : Time) :
    Custody db (addMessage g message now) origin items := by
  cases message with
  | none => exact h
  | some m =>
    refine ⟨h.nodup, h.pending, h.stage, fun i hi ht => ?_, fun id e he hun => ?_⟩
    · apply (h.covered i hi ht).imp_right
      rintro ⟨a, ha, hinv, hn, hu⟩
      exact ⟨a, ha, hinv, hn, ConsumerGroup.unacked_add hu⟩
    · change (g.add m now).entry id = some e at he
      have hsome : ((g.add m now).entry id).isSome = true := by rw [he]; rfl
      rw [ConsumerGroup.entry_add] at he
      split at he
      · -- the new entry has not been delivered
        rename_i hid
        have hle := g.delivered_le
        exact absurd ⟨hsome, Or.inl (by change g.delivered < id; omega)⟩ hun
      · exact h.acked id e he fun hu => hun (ConsumerGroup.unacked_add hu)

/-- Entries were handed out: to a reader, or to a claimer. -/
theorem take (h : Custody db g origin items) {tasks : List InvocationTask}
    (hentry : ∀ id, g'.entry id = g.entry id) (hun : ∀ id, g'.Unacked id ↔ g.Unacked id)
    (hpend : ∀ id ∈ g.pending.map (·.id), id ∈ g'.pending.map (·.id))
    (hn : (tasks.map (·.streamMessageId)).Nodup)
    (hnew : ∀ task ∈ tasks, task.streamMessageId ∉ items.map (·.1.streamMessageId) ∧
      task.streamMessageId ∈ g'.pending.map (·.id) ∧ StageOk db origin task .ready) :
    Custody db g' origin (tasks.map (·, .ready) ++ items) where
  nodup := by
    rw [List.map_append, List.map_map]
    refine List.nodup_append'.mpr ⟨hn, h.nodup, fun id hid hid' => ?_⟩
    obtain ⟨task, ht, rfl⟩ := List.mem_map.mp hid
    exact (hnew task ht).1 hid'
  pending := fun x hx => by
    rcases List.mem_append.mp hx with hx | hx
    · obtain ⟨task, ht, rfl⟩ := List.mem_map.mp hx
      exact (hnew task ht).2.1
    · exact hpend _ (h.pending x hx)
  stage := fun x hx => by
    rcases List.mem_append.mp hx with hx | hx
    · obtain ⟨task, ht, rfl⟩ := List.mem_map.mp hx
      exact (hnew task ht).2.2
    · exact h.stage x hx
  covered := fun i hi ht => by
    apply (h.covered i hi ht).imp_right
    rintro ⟨a, ha, hinv, hnum, hu⟩
    exact ⟨a, ha, hinv, hnum, (hun _).mpr hu⟩
  acked := fun id e he hu => h.acked id e (hentry id ▸ he) fun hu' => hu ((hun id).mpr hu')

/-- The entry of a released task is acknowledged. -/
theorem ack {task : InvocationTask} (h : Custody db g origin ((task, .acking) :: rest))
    (hx : ItemWf db g (task, .acking)) (ho : ∀ a ∈ db.attempts, OriginOf g (origin a.id) a) :
    Custody db (g.ack task.streamMessageId) origin rest := by
  have hrel : Released db origin task := h.stage (task, .acking) List.mem_cons_self
  obtain ⟨e₀, he₀, hinv₀, hnum₀⟩ := hx.entry
  refine ⟨(List.nodup_cons.mp h.nodup).2, fun x hxr => ?_,
    fun x hxr => h.stage x (List.mem_cons_of_mem _ hxr), fun i hi ht => ?_, fun id e he hun => ?_⟩
  · exact ConsumerGroup.mem_pending_ack.mpr ⟨h.pending x (List.mem_cons_of_mem _ hxr),
      h.ne_of_mem hxr⟩
  · rcases h.covered i hi ht with hs | ⟨a, ha, hinv, hn, hu⟩
    · exact Or.inl hs
    by_cases he : origin a.id = task.streamMessageId
    · -- the latest attempt was started from this very entry
      obtain ⟨⟨e, hee, hei⟩, -⟩ := ho a ha
      rw [he, he₀] at hee
      obtain rfl := Option.some.inj hee
      have hid : i.id = task.invocationId := hinv.symm.trans (hei.symm.trans hinv₀)
      rcases hrel i hi hid with hterm | ⟨-, hs | hall⟩
      · exact absurd hterm ht
      · exact Or.inl hs
      · exact absurd he (hall a ha hinv hn)
    · exact Or.inr ⟨a, ha, hinv, hn, ConsumerGroup.unacked_ack hu he⟩
  · rw [ConsumerGroup.entry_ack] at he
    by_cases hid : id = task.streamMessageId
    · rw [hid, he₀] at he
      obtain rfl := Option.some.inj he
      intro i hi hii
      refine (hrel i hi (hii.trans hinv₀)).imp_right fun hr => ?_
      rw [hnum₀]
      exact hr.1
    · exact h.acked id e he fun hu => hun (ConsumerGroup.unacked_ack hu hid)

/-- A new invocation is scheduled. -/
theorem created (h : Custody db g origin items) {request : CreateRequest}
    {version : FunctionVersion} {invocationId dispatchId : UUID} {now : Time}
    (hc : insertInvocation db request version invocationId dispatchId now = .ok db')
    (hx : ∀ x ∈ items, ItemWf db g x)
    (hown : ∀ e ∈ g.entries, ∃ i ∈ db.invocations, i.id = e.fields.invocationId) :
    Custody db' g origin items := by
  obtain ⟨invocations, dispatches, hi, hd, rfl⟩ := insertInvocation_ok hc
  -- no entry belongs to the new invocation
  have hfresh : ∀ {id e}, g.entry id = some e → invocationId ≠ e.fields.invocationId := by
    intro id e he heq
    obtain ⟨j, hj, hjd⟩ := hown e (ConsumerGroup.entry_eq_some he).2.2
    exact Table.get_eq_none.mp (Table.insert_fresh hi) j hj (hjd.trans heq.symm)
  have hold : ∀ {i id e}, i ∈ invocations → g.entry id = some e →
      i.id = e.fields.invocationId → i ∈ db.invocations := by
    intro i id e him he hid
    rcases (Table.mem_insert hi).mp him with him | rfl
    · exact him
    · exact absurd hid (hfresh he)
  have hsched : ∀ {id n}, db.scheduledRetry id n →
      Database.scheduledRetry { db with invocations := invocations, dispatches := dispatches } id n := by
    rintro id n ⟨d, hdm, hrest⟩
    exact ⟨d, (Table.mem_insert hd).mpr (Or.inl hdm), hrest⟩
  refine ⟨h.nodup, h.pending, fun x hxm => ?_, fun i him ht => ?_, fun id e he hun i him hid => ?_⟩
  · have hs := h.stage x hxm
    obtain ⟨e, he, hinv, -⟩ := (hx x hxm).entry
    obtain ⟨task, stage⟩ := x
    cases stage with
    | ready | refreshing | executing | finishing => exact hs
    | acking =>
      intro i him hid
      exact (hs i (hold him he (hid.trans hinv.symm)) hid).imp_right fun hr =>
        ⟨hr.1, hr.2.imp_left hsched⟩
  · rcases (Table.mem_insert hi).mp him with him | rfl
    · exact (h.covered i him ht).imp_left hsched
    · exact Or.inl ⟨_, (Table.mem_insert hd).mpr (Or.inr rfl), rfl, rfl⟩
  · exact h.acked id e he hun i (hold him he hid) hid

/-- A `mark_running` has gone through: the new attempt is the latest, and its entry is there. -/
theorem started {task : InvocationTask} (h : Custody db g origin ((task, .ready) :: rest))
    {workerId : Option UUID} {attempt : InvocationAttempt} {i : Invocation}
    (hst : Started db task workerId attempt db' i) (hwf : DbWf db)
    (hx : ItemWf db g (task, .ready)) (ho : ∀ a ∈ db.attempts, OriginOf g (origin a.id) a) :
    Custody db' g (Function.update origin attempt.id task.streamMessageId)
      ((task, .refreshing attempt) :: rest) := by
  set origin' := Function.update origin attempt.id task.streamMessageId with horigin
  have hold : ∀ a ∈ db.attempts, origin' a.id = origin a.id :=
    fun a ha => Function.update_of_ne (hst.fresh a ha) _ _
  have hnew : origin' attempt.id = task.streamMessageId := Function.update_self _ _ _
  have hkey : i.id = task.invocationId := Table.get_key hst.found
  refine ⟨h.nodup, fun x hxm => ?_, fun x hxm => ?_, fun j hj ht => ?_,
    fun id e he hun j hj hjd => ?_⟩
  · rcases List.mem_cons.mp hxm with rfl | hxm
    · exact h.pending (task, .ready) List.mem_cons_self
    · exact h.pending x (List.mem_cons_of_mem _ hxm)
  · rcases List.mem_cons.mp hxm with rfl | hxm
    · refine ⟨by rw [hst.number]; exact hst.asked, fun a ha hao => ?_⟩
      rw [hst.number]
      rcases hst.attempts.mp ha with ha | rfl
      · rw [hold a ha] at hao
        obtain ⟨⟨e, hee, hei⟩, -⟩ := ho a ha
        obtain ⟨e', he', hinv', -⟩ := hx.entry
        rw [hao, he'] at hee
        obtain rfl := Option.some.inj hee
        have := hwf.counted hst ha (hei.symm.trans hinv')
        omega
      · exact hst.number.le
    · have hne := h.ne_of_mem hxm
      refine (h.stage x (List.mem_cons_of_mem _ hxm)).started hst hwf fun a ha hao => ?_
      rcases hst.attempts.mp ha with ha | rfl
      · exact ⟨ha, (hold a ha).symm.trans hao⟩
      · exact absurd (hao.symm.trans hnew) hne
  · rcases hst.others hj with ⟨hid, hcount⟩ | ⟨hj, hjne⟩
    · refine Or.inr ⟨attempt, hst.attempts.mpr (Or.inr rfl), hst.invocationId.trans hid.symm,
        hst.number.trans hcount.symm, ?_⟩
      rw [hnew]
      exact ConsumerGroup.unacked_of_pending (h.pending (task, .ready) List.mem_cons_self)
    · apply (h.covered j hj ht).imp hst.scheduledRetry
      rintro ⟨a, ha, hinv, hn, hu⟩
      exact ⟨a, hst.attempts.mpr (Or.inl ha), hinv, hn, hold a ha ▸ hu⟩
  · rcases hst.others hj with ⟨hid, hcount⟩ | ⟨hj, hjne⟩
    · have hi := h.acked id e he hun i (Table.get_mem hst.found) ((hkey.trans hid.symm).trans hjd)
      apply Or.inr
      have := hi.resolve_left (TerminalKept.waiting_not_terminal hst.waiting)
      omega
    · exact h.acked id e he hun j hj hjd

end Custody

/-! ## Runs -/

def State.InCustody (s : State) : Prop := Custody s.db s.group s.origin s.items

theorem taskOf_ids (g : Group) (recovered : Bool) (ids : List StreamId) :
    ((ids.filterMap (taskOf g recovered)).map (·.streamMessageId)).Sublist ids := by
  induction ids with
  | nil => exact List.nil_sublist _
  | cons id ids ih =>
    cases htask : taskOf g recovered id with
    | none =>
      rw [List.filterMap_cons_none htask]
      exact ih.cons id
    | some task =>
      rw [List.filterMap_cons_some htask, List.map_cons, (taskOf_some htask).1]
      exact ih.cons_cons id

/-- A claim of unattended entries. -/
theorem State.InCustody.claim {s : State} (h : s.InCustody) {consumer : String} {minIdle : Int}
    {ids claimed : List StreamId} (hn : claimed.Nodup)
    (hp : ∀ id ∈ claimed, id ∈ s.group.pending.map (·.id))
    (hun : ∀ id ∈ claimed, Unattended s id) :
    Custody s.db (s.group.claim consumer minIdle ids s.clock) s.origin
      ((claimed.filterMap (taskOf s.group true)).map (·, .ready) ++ s.items) := by
  have hids := ConsumerGroup.claim_pending_ids s.group consumer minIdle ids s.clock
  refine Custody.take h (fun id => ConsumerGroup.entry_claim _ _ _ _ _ id)
    (fun id => ConsumerGroup.unacked_claim _ _ _ _ _) (fun id hid => by rw [hids]; exact hid)
    (hn.sublist (taskOf_ids _ _ _)) fun task htask => ?_
  obtain ⟨id, hid, ht⟩ := List.mem_filterMap.mp htask
  obtain ⟨rfl, hrec⟩ := taskOf_some ht
  obtain ⟨hfree, hstop⟩ := hun _ hid
  refine ⟨hfree, by rw [hids]; exact hp _ hid, fun a ha hao => ⟨hrec, fun hrun => ?_⟩⟩
  exact hstop a ha hrun hao

/-- A read: the entries are new to everyone. -/
theorem State.InCustody.read {s : State} (h : s.InCustody) (hr : Rows s) (consumer : String)
    (count : Nat) :
    Custody s.db (s.group.read consumer count s.clock) s.origin
      (((s.group.nextIds count).filterMap (taskOf s.group false)).map (·, .ready) ++ s.items) := by
  refine Custody.take h (fun id => ConsumerGroup.entry_read _ _ _ _ id)
    (fun id => ConsumerGroup.unacked_read _ _ _ _) (fun id hid => ?_)
    (List.Nodup.sublist (taskOf_ids _ _ _) List.nodup_range') fun task htask => ?_
  · show id ∈ (s.group.pending ++ _).map (·.id)
    rw [List.map_append]
    exact List.mem_append_left _ hid
  · obtain ⟨id, hid, ht⟩ := List.mem_filterMap.mp htask
    obtain ⟨rfl, -⟩ := taskOf_some ht
    have hlt := (ConsumerGroup.mem_nextIds.mp hid).1
    refine ⟨fun hm => ?_, ?_, fun a ha hao => ?_⟩
    · obtain ⟨x, hx, he⟩ := List.mem_map.mp hm
      exact absurd (he ▸ (hr.items x hx).delivered) (Nat.not_le.mpr hlt)
    · show _ ∈ (s.group.pending ++ _).map (·.id)
      rw [List.map_append, List.map_map]
      exact List.mem_append_right _ (List.mem_map.mpr ⟨_, hid, rfl⟩)
    · exact absurd (hao ▸ (hr.origins a ha).2) (Nat.not_le.mpr hlt)

theorem custody_worked {s u : State} {n : Nat} {p p' : Process} {e : WorkerEvent}
    (h : s.InCustody) (hr : Rows s) (hcrew : CrewWf s) (hclean : CleanClaims s (.worker n e))
    (hp : s.processes[n]? = some p) (hw : WorkerEffect s p e u p') :
    (u.setProcess n p').InCustody := by
  have hdrop : p'.items.Subperm p.items → ∀ {db}, Keeps s.db db →
      Custody db s.group s.origin (u.setProcess n p').items :=
    fun hi _ hk => (Custody.keeps h hk).subperm (items_dropped hp hw hi)
  have htake : ∀ {tasks : List InvocationTask} {g : Group},
      p'.items.Perm (tasks.map (·, .ready) ++ p.items) →
      Custody s.db g s.origin (tasks.map (·, .ready) ++ s.items) →
      Custody s.db g s.origin (u.setProcess n p').items :=
    fun hi hc => hc.subperm (items_taken hp hw hi).subperm
  have hmove : ∀ {j c} (l : List (InvocationTask × Stage)), p.coroutines[j]? = some c →
      p'.items.Perm (l ++ p.others j) → ∃ rest,
      Custody s.db s.group s.origin ((c.task, c.stage) :: rest) ∧
      ItemWf s.db s.group (c.task, c.stage) ∧ (u.setProcess n p').items.Subperm (l ++ rest) := by
    intro j c l hc hi
    obtain ⟨rest, hs, ht⟩ := items_moved hp hw hc hi
    exact ⟨rest, Custody.subperm h hs.symm.subperm, hr.items _ (hs.mem_iff.mpr List.mem_cons_self),
      ht.subperm⟩
  have hsame : Keeps s.db s.db := .of_eq hr.wf rfl rfl rfl
  cases hw with
  | own e p' ho =>
    rcases ho.items with hi | ⟨j, c, stage, hc, hm, hi⟩
    · exact hdrop hi hsame
    · obtain ⟨rest, hcust, hx, ht⟩ := hmove [_] hc hi
      have hs := hcust.stage (c.task, c.stage) List.mem_cons_self
      exact (hcust.restage (hs.move hx hm)).subperm ht
  | heartbeat db hdb => exact hdrop (List.Subperm.refl _) (.heartbeat hr.wf hdb)
  | scanned scan hl hscan =>
    exact hdrop (Process.items_dropLoop (Process.afterScan_tasks _))
      (.recoverStaleWorkers hr.wf _ _ _)
  | claimed scan recovered names tasks consumer ids hl =>
    have hloop := hcrew.loops p (List.mem_of_getElem? hp)
    rw [hl] at hloop
    refine htake (Process.items_goTo (by rw [hl]; rfl)) (h.claim (hloop.2.2.2.filter _) ?_ ?_)
    · exact fun id hid => (ConsumerGroup.mem_claimedIds _ _ _ _ hid).2
    · exact fun id hid => hclean p hp id (by simp only [taken, hl]; exact hid)
  | autoclaimed scan recovered startId ids nextStartId claimed hl hids hc =>
    subst hc
    refine htake (Process.items_goTo (by rw [hl]; rfl))
      (h.claim (ConsumerGroup.autoClaimIds_nodup hids) ?_ ?_)
    · intro id hid
      obtain ⟨q, hq, rfl, -⟩ := ConsumerGroup.mem_autoClaimIds hids hid
      exact List.mem_map_of_mem hq
    · exact fun id hid => hclean p hp id (by simp only [taken, hl, hids]; exact hid)
  | offlined scan recovered hl =>
    exact hdrop (Process.items_dropLoop (Process.afterRecovery_tasks _)) (.of_eq hr.wf rfl rfl rfl)
  | read hl => exact htake (Process.items_goTo (by rw [hl]; rfl)) (h.read hr _ _)
  | started j c attemptId db attempt hc hst hm =>
    obtain ⟨rest, hcust, hx, ht⟩ := hmove [_] hc (Process.items_setStage hc _)
    rw [hst] at hcust hx
    obtain ⟨i, hi⟩ := markRunning_started hm
    exact (hcust.started hi hr.wf hx hr.origins).subperm ht
  | dismissed j c attemptId db error hc hst hm ha =>
    obtain ⟨rest, hcust, hx, ht⟩ := hmove [_] hc (Process.items_setStage hc _)
    rw [hst] at hcust
    have hready := hcust.stage (c.task, .ready) List.mem_cons_self
    refine ((hcust.keeps (.markRunning hr.wf hm)).restage ?_).subperm ht
    exact Released.dismissed hr.wf hready hm ha
  | notStarted j c attemptId db error hc hst hm =>
    exact hdrop (Process.items_failed.trans (Process.others_subperm hc)) (.markRunning hr.wf hm)
  | finished j c attempt result jitter dispatchId db row hc hst hm =>
    obtain ⟨rest, hcust, hx, ht⟩ := hmove [_] hc (Process.items_setStage hc _)
    rw [hst] at hcust hx
    obtain ⟨hinv, r, hrow, h₁, h₂, -⟩ := hx.held attempt rfl
    have hk : Keeps s.db db := .markFinished hr.wf hrow h₁ (h₂.trans hinv) hm
    have hs := hcust.stage (c.task, .finishing attempt result) List.mem_cons_self
    refine ((hcust.keeps hk).restage ?_).subperm ht
    exact Released.finished hr.wf hx hs hk hm
  | acked j c hc hst =>
    obtain ⟨rest, hcust, hx, ht⟩ := hmove [] hc (List.Perm.refl _)
    rw [hst] at hcust hx
    exact (hcust.ack hx hr.origins).subperm ht
  | shutDown db hl hdb => exact hdrop (Process.items_dropLoop rfl) (.heartbeat hr.wf hdb)

theorem custody_step {s t : State} {e : Event} (hr : Reachable step init s) (h : s.InCustody)
    (hclean : CleanClaims s e) (hs : step s e = some t) : t.InCustody := by
  have hrows := rows_reachable hr
  cases step_effect hs with
  | ticked | selected | rolledBack => exact h
  | created request version invocationId dispatchId queuedAt db hq hc =>
    exact Custody.created h hc hrows.items (entry_owner hr)
  | published b d todo done outcome hb => exact Custody.add h _ _
  | committed b done hb =>
    refine Custody.keeps h (.of_eq hrows.wf rfl rfl ?_)
    exact Table.index_flush (by exact fun _ _ => ⟨rfl, rfl⟩) _
  | registered workerId hostname consumerName persisted config workers hn hw =>
    have hk : Keeps s.db { s.db with workers := workers } := .of_eq hrows.wf rfl rfl rfl
    refine (Custody.keeps h hk).subperm ?_
    simp [State.items, Process.items, Loop.tasks, List.Subperm.refl]
  | worked n p e u p' hp hw => exact custody_worked h hrows (crew_reachable hr) hclean hp hw

theorem custody_reachable {s : State} (h : ReachableBy step CleanClaims init s) : s.InCustody := by
  refine h.invariant (fun s hs => ?_) fun hr hi hclean hs => custody_step hr.reachable hi hclean hs
  obtain ⟨⟨functions, versions, hdb⟩, hg, -, hp, -, -⟩ := hs
  have hitems : s.items = [] := by simp [State.items, hp]
  unfold State.InCustody
  rw [hitems, hdb, hg]
  refine ⟨List.nodup_nil, by simp, by simp, fun i hi => absurd hi (Table.not_mem_empty i), ?_⟩
  exact fun id e he hun i hi => absurd hi (Table.not_mem_empty i)

/-- **In a run that claims unattended entries only, no invocation is left without anything that
can restart it.** -/
theorem no_invocation_stranded {s : State} (h : ReachableBy step CleanClaims init s) :
    ∀ i ∈ s.db.invocations, ¬ i.status.isTerminal → Restartable s i := by
  intro i hi ht
  have hcust := custody_reachable h
  have hr := h.reachable
  rcases hcust.covered i hi ht with ⟨d, hd, hid, hn⟩ | ⟨a, ha, hinv, -, hu⟩
  · by_cases hp : d.publishedAt = none
    · exact Or.inl ⟨d, hd, hid, hp⟩
    · -- the entry of the next attempt cannot have been acknowledged
      obtain ⟨id, e, -, he, hc⟩ := (outbox_reachable hr).recorded d hd hp
      simp only [carries, decide_eq_true_eq] at hc
      refine Or.inr ⟨id, e, he, hc.1.trans hid, ?_⟩
      by_contra hun
      rcases hcust.acked id e he hun i hi (hid.symm.trans hc.1.symm) with hterm | hle
      · exact ht hterm
      · omega
  · obtain ⟨⟨e, he, hei⟩, -⟩ := (rows_reachable hr).origins a ha
    exact Or.inr ⟨_, e, he, hei.trans hinv, hu⟩

/-- A worker dies while it executes; another worker recovers it and starts the next attempt from
the claimed entry. -/
def restarted : List Event :=
  opening [(10, "a"), (11, "b")] ++ readNew 0 ++
    [.worker 0 (.markRunning 0 20), .worker 0 (.refresh 0), .tick (seconds 31), .worker 0 .stop,
      .worker 1 .heartbeat, .worker 1 .recoverStaleWorkers, .worker 1 .xpending, .worker 1 .xclaim,
      .worker 1 .proceed, .worker 1 .proceed, .worker 1 (.markRunning 0 21)]

/-- `restarted` claims an unattended entry, and its invocation, now at its second attempt, can be
restarted once more. -/
theorem no_invocation_stranded_restarted : ∃ s, ReachableBy step CleanClaims init s ∧
    ∃ i ∈ s.db.invocations, i.attemptCount = 2 ∧ i.status = .running ∧ Restartable s i := by
  obtain ⟨s, hs, hp⟩ := reachableBy_of_replayWhere step restarted
    (fun s => s.db.invocations.rows.any fun i => i.attemptCount = 2 ∧ i.status = .running)
    (fun s e (hc : decide (CleanClaims s e) = true) => of_decide_eq_true hc) init_empty (by decide)
  simp only [List.any_eq_true, decide_eq_true_eq] at hp
  obtain ⟨i, hi, hcount, hrun⟩ := hp
  exact ⟨s, hs, i, hi, hcount, hrun,
    no_invocation_stranded hs i hi (TerminalKept.running_not_terminal hrun)⟩

/-- A worker is late with its heartbeat and has not started its task yet when another worker
claims the entry and starts it. The late worker takes its own copy for obsolete and
acknowledges the entry; then the other worker dies. -/
def acknowledgedCopy : List Event :=
  opening [(10, "a"), (11, "b")] ++ readNew 0 ++
    [.tick (seconds 31), .worker 1 .heartbeat, .worker 1 .recoverStaleWorkers, .worker 1 .xpending,
      .worker 1 .xclaim, .worker 1 .proceed, .worker 1 .proceed, .worker 1 (.markRunning 0 20),
      .worker 0 (.markRunning 0 21), .worker 0 (.xack 0), .worker 1 .stop]

/-- After `acknowledgedCopy` the invocation is `RUNNING`, its outbox row is published and the
stream has no entry left for it. -/
theorem not_no_invocation_stranded : ∃ s, Reachable step init s ∧
    ∃ i ∈ s.db.invocations, ¬ i.status.isTerminal ∧ ¬ Restartable s i := by
  obtain ⟨s, hs, hp⟩ := reachable_of_replay step acknowledgedCopy
    (fun s => s.group.pending.isEmpty && s.group.entries.length = s.group.delivered &&
      (s.db.dispatches.rows.all fun d => d.publishedAt ≠ none) &&
      s.db.invocations.rows.any fun i => ¬ i.status.isTerminal) init_empty (by decide)
  simp only [Bool.and_eq_true, List.isEmpty_iff, List.all_eq_true, List.any_eq_true,
    decide_eq_true_eq] at hp
  obtain ⟨⟨⟨hpend, hdel⟩, hpub⟩, i, hi, ht⟩ := hp
  refine ⟨s, hs, i, hi, ht, ?_⟩
  rintro (⟨d, hd, -, hnone⟩ | ⟨id, e, he, -, -, hu⟩)
  · exact hpub d hd hnone
  · rcases hu with hlt | hm
    · have := (ConsumerGroup.entry_eq_some he).2.1
      omega
    · simp [hpend] at hm

end Serverless.Cluster
