import Serverless.Serving.Results

/-!
# Result files

A large result is kept in a file that is named after the invocation, so every attempt of the
invocation that gets as far as a large result writes it, in time or not. What any of them writes has
been given for the invocation: the reference of a success never dangles, and never leads to the result
of another invocation.
-/
namespace Serverless.Serving

open Serverless.Library Serverless.Model Serverless.Runtime Serverless.Ledger
open Serverless.Model.DockerRuntimeExecutor

variable {p : Deployed} {x : DockerRuntimeExecutor} {d : Docker} {spec : RuntimeInvocationSpec}
  {result : RuntimeExecutionResult} {s t : Logs.State} {db db' : Database}

/-! ## The write of the result -/

def resultWrite (x : DockerRuntimeExecutor) (id : UUID) (contents : List UInt8) : ContainerCall :=
  .write (x.resultPath id, contents)

/-- The call writes the result file of the invocation. -/
def WritesResult (x : DockerRuntimeExecutor) (id : UUID) (call : ContainerCall) : Prop :=
  ∃ contents, call = resultWrite x id contents

/-- The text of a result. -/
def resultBytes (x : DockerRuntimeExecutor) (value : JsonValue) : List UInt8 :=
  Utf8.encode (x.lib.dumps value)

theorem noResult_perform {α : Type} {id : UUID} {call : ContainerCall} {outcome : Except Fault α}
    (h : ∀ file, call ≠ .write file) :
    Traced.Avoids (WritesResult x id) (Traced.perform call outcome) :=
  Traced.avoids_perform fun ⟨_, he⟩ => h _ he

theorem noResult_readStderr (id : UUID) : Traced.Avoids (WritesResult x id) (readStderr d) :=
  Traced.Avoids.bind (noResult_perform fun _ => ContainerCall.noConfusion) fun _ => Traced.avoids_pure _

theorem noResult_readStdout (id : UUID) : Traced.Avoids (WritesResult x id) (readStdout d) :=
  Traced.Avoids.bind (noResult_perform fun _ => ContainerCall.noConfusion) fun _ => Traced.avoids_pure _

theorem noResult_wasOomKilled (id : UUID) : Traced.Avoids (WritesResult x id) (wasOomKilled d) := by
  apply Traced.Avoids.handle
  · exact Traced.Avoids.bind (noResult_perform fun _ => ContainerCall.noConfusion) fun _ => makes_silent _
  · exact fun _ => Traced.avoids_pure _

theorem noResult_storeLogs (id : UUID) (logs : ReadLogs) :
    Traced.Avoids (WritesResult x id) (x.storeLogs d id logs) := by
  unfold storeLogs
  split
  · split
    · exact Traced.avoids_pure _
    · refine Traced.Avoids.bind (Traced.avoids_perform fun ⟨c, he⟩ => ?_) fun _ => Traced.avoids_pure _
      have hpath : x.logPath id = x.resultPath id := (Prod.mk.inj (ContainerCall.write.inj he)).1
      exact logPath_ne_resultPath _ _ (by rw [hpath])
  · exact fun call hcall => absurd hcall List.not_mem_nil

theorem noResult_timeoutResult (container : Container) :
    Traced.Avoids (WritesResult x spec.invocationId) (x.timeoutResult d spec container) := by
  unfold timeoutResult
  refine Traced.Avoids.bind ?_ fun _ => Traced.Avoids.bind ?_ fun logs => Traced.Avoids.bind ?_ fun _ =>
    Traced.avoids_pure _
  · exact Traced.Avoids.handle (noResult_perform fun _ => ContainerCall.noConfusion) fun _ =>
      Traced.avoids_pure _
  · exact (noResult_readStderr _).handle fun _ => Traced.avoids_pure _
  · exact (noResult_storeLogs _ _).handle fun _ => Traced.avoids_pure _

theorem noResult_cleanup (container : Option Container) :
    Traced.Avoids (WritesResult x spec.invocationId) (x.cleanup d spec container) := by
  rw [cleanup_eq]
  rintro call hcall ⟨c, rfl⟩
  rcases List.mem_append.mp hcall with h | h
  · split at h
    · cases List.mem_singleton.mp h
    · cases h
  · cases List.mem_singleton.mp h

/-- What is written is the result of the envelope. -/
theorem resultWrite_parsedOutput {container : Container} {stdout : List UInt8} {exitCode : Int}
    {logsRef : Option String} {contents : List UInt8}
    (h : resultWrite x spec.invocationId contents ∈
      (x.parsedOutput d spec container exitCode logsRef (.ok stdout)).calls) :
    exitCode = 0 ∧ ∃ envelope, x.lib.loads (outputText stdout) = .value (.dict envelope) ∧
      contents = resultBytes x ((envelope.lookup ↑"result").getD .null) := by
  rw [parsedOutput] at h
  split at h
  · cases h
  · cases h
  · rename_i result file files hparse
    have hfile : resultWrite x spec.invocationId contents = .write file := by
      rw [Traced.mem_bind_calls, Traced.mem_perform_calls] at h
      rcases h with h | ⟨u, -, h⟩
      · exact h
      · cases h
    have hparses := parses_total x { hostOf d container with writeResult := .ok () } spec.invocationId
      stdout exitCode d.elapsedMs logsRef container.id
    rw [hparse] at hparses
    generalize hr : Except.ok (result, file :: files) = r at hparses
    cases hparses with
    | empty | invalid | notObject | reported | exit => cases hr
    | raised => cases hr
    | succeeded ht hl hok hexit =>
      refine ⟨hexit, _, hl, ?_⟩
      unfold DockerRuntimeExecutor.buildSuccessResult at hr
      dsimp only at hr
      split at hr
      · cases hr
      · have hwritten : file = _ := (List.cons.inj (Prod.mk.inj (Except.ok.inj hr)).2).1
        rw [hwritten] at hfile
        exact (Prod.mk.inj (ContainerCall.write.inj hfile)).2

theorem resultWrite_exitedResult {container : Container} {v : PyValue} {contents : List UInt8}
    (hwait : d.wait spec.timeoutSeconds = .ok v)
    (h : resultWrite x spec.invocationId contents ∈ (x.exitedResult d spec container v).calls) :
    ∃ stdout envelope, Printed x d spec v stdout envelope ∧
      contents = resultBytes x ((envelope.lookup ↑"result").getD .null) := by
  unfold exitedResult at h
  have hwrites : WritesResult x spec.invocationId (resultWrite x spec.invocationId contents) := ⟨_, rfl⟩
  rw [Traced.mem_bind_calls] at h
  rcases h with h | ⟨exitCode, hcode, h⟩
  · cases h
  rw [Traced.mem_bind_calls] at h
  rcases h with h | ⟨stderr, -, h⟩
  · exact absurd hwrites (noResult_readStderr _ _ h)
  rw [Traced.mem_bind_calls] at h
  rcases h with h | ⟨logsRef, -, h⟩
  · exact absurd hwrites (noResult_storeLogs _ _ _ h)
  rw [Traced.mem_bind_calls] at h
  rcases h with h | ⟨oomKilled, -, h⟩
  · exact absurd hwrites (noResult_wasOomKilled _ _ h)
  split at h
  · cases h
  rw [Traced.mem_bind_calls] at h
  rcases h with h | ⟨read, hout, h⟩
  · exact absurd hwrites (noResult_readStdout _ _ h)
  obtain ⟨out, hd, hread⟩ := readStdout_returns hout
  obtain ⟨stdout, rfl⟩ : ∃ stdout, read = .ok stdout := by
    cases read with
    | error object => cases h
    | ok stdout => exact ⟨stdout, rfl⟩
  obtain ⟨rfl, envelope, hloads, rfl⟩ := resultWrite_parsedOutput h
  refine ⟨stdout, envelope, ⟨hwait, ?_, ⟨out, hd, hread⟩, hloads⟩, rfl⟩
  cases hextract : extractExitCode d v with
  | error e => simp [hextract, Except.mapError] at hcode
  | ok n =>
    simp only [hextract, Except.mapError, Except.ok.injEq] at hcode
    rw [hcode]

/-- **What an execution writes to the result file is the result of the envelope that it has read.** -/
theorem resultWrite_executeContainerCalls {contents : List UInt8}
    (h : resultWrite x spec.invocationId contents ∈ (x.executeContainerCalls d spec).calls) :
    ∃ v stdout envelope, Printed x d spec v stdout envelope ∧
      contents = resultBytes x ((envelope.lookup ↑"result").getD .null) := by
  have hwrites : WritesResult x spec.invocationId (resultWrite x spec.invocationId contents) := ⟨_, rfl⟩
  unfold executeContainerCalls at h
  rw [Traced.mem_bind_calls, Traced.mem_perform_calls] at h
  rcases h with h | ⟨u, -, h⟩
  · cases h
  dsimp only at h
  split at h
  · cases h
  rw [Traced.mem_bind_calls, Traced.mem_perform_calls] at h
  rcases h with h | ⟨u, -, h⟩
  · cases h
  rw [Traced.ensure_calls, List.mem_append] at h
  rcases h with h | h
  · unfold tryBody at h
    rw [Traced.mem_bind_calls, Traced.mem_perform_calls] at h
    rcases h with h | ⟨container, -, h⟩
    · cases h
    cases container with
    | none => cases h
    | some container =>
      unfold useContainer at h
      dsimp only at h
      split at h
      · rename_i v hwait
        rw [Traced.mem_bind_calls, Traced.mem_perform_calls] at h
        rcases h with h | ⟨u, -, h⟩
        · cases h
        exact ⟨v, resultWrite_exitedResult hwait h⟩
      · split at h
        · rw [Traced.mem_bind_calls, Traced.mem_perform_calls] at h
          rcases h with h | ⟨u, -, h⟩
          · cases h
          exact absurd hwrites (noResult_timeoutResult _ _ h)
        · rw [Traced.mem_perform_calls] at h
          cases h
  · exact absurd hwrites (noResult_cleanup _ _ h)

/-! ## A reference stands for a write -/

theorem parsed_resultRef {host : Host} {id : UUID} {stdout : List UInt8} {exitCode durationMs : Int}
    {logsRef containerId : Option String} {files : List File}
    (h : x.parseRuntimeOutput host id stdout exitCode durationMs logsRef containerId = .ok (result, files))
    (href : result.resultRef ≠ none) : ∃ contents, files = [(x.resultPath id, contents)] := by
  have hparses := parses_total x host id stdout exitCode durationMs logsRef containerId
  rw [h] at hparses
  generalize hr : Except.ok (result, files) = r at hparses
  cases hparses with
  | empty | invalid | notObject | reported | exit =>
    cases hr
    exact absurd rfl href
  | raised => cases hr
  | succeeded =>
    unfold DockerRuntimeExecutor.buildSuccessResult at hr
    dsimp only at hr
    split at hr
    · cases hr
      exact absurd rfl href
    · split at hr
      · cases hr
      · exact ⟨_, (Prod.mk.inj (Except.ok.inj hr)).2⟩

theorem exitedResult_resultRef {container : Container} {v : PyValue}
    (h : (x.exitedResult d spec container v).outcome = .ok result) (href : result.resultRef ≠ none) :
    ∃ contents, resultWrite x spec.invocationId contents ∈ (x.exitedResult d spec container v).calls := by
  unfold exitedResult at h ⊢
  obtain ⟨exitCode, -, h, hcalls⟩ := Traced.outcome_bind h
  rw [hcalls]
  obtain ⟨stderr, -, h, hcalls⟩ := Traced.outcome_bind h
  rw [hcalls]
  obtain ⟨logsRef, -, h, hcalls⟩ := Traced.outcome_bind h
  rw [hcalls]
  obtain ⟨oomKilled, -, h, hcalls⟩ := Traced.outcome_bind h
  rw [hcalls]
  split at h
  · cases h
    exact absurd rfl href
  · rename_i hoom
    obtain ⟨read, -, h, hcalls⟩ := Traced.outcome_bind h
    rw [if_neg hoom, hcalls]
    obtain ⟨stdout, rfl⟩ : ∃ stdout, read = .ok stdout := by
      cases read with
      | error object => cases h
      | ok stdout => exact ⟨stdout, rfl⟩
    have hparsed : ∃ contents, resultWrite x spec.invocationId contents ∈
        (x.parsedOutput d spec container exitCode logsRef (.ok stdout)).calls := by
      rw [parsedOutput] at h ⊢
      split at h
      · cases h
      · rename_i hparse
        cases h
        obtain ⟨contents, hfiles⟩ := parsed_resultRef hparse href
        cases hfiles
      · rename_i hparse
        obtain ⟨u, -, h, hcalls⟩ := Traced.outcome_bind h
        cases h
        obtain ⟨contents, hfiles⟩ := parsed_resultRef hparse href
        refine ⟨contents, ?_⟩
        rw [hcalls, (List.cons.inj hfiles).1]
        exact List.mem_cons_self
    obtain ⟨contents, hmem⟩ := hparsed
    refine ⟨contents, ?_⟩
    simp only [List.mem_append]
    exact .inr (.inr (.inr (.inr (.inr hmem))))

theorem executeContainerCalls_resultRef (h : (x.executeContainerCalls d spec).outcome = .ok result)
    (href : result.resultRef ≠ none) :
    ∃ contents, resultWrite x spec.invocationId contents ∈ (x.executeContainerCalls d spec).calls := by
  unfold executeContainerCalls at h ⊢
  obtain ⟨u, -, h, hcalls⟩ := Traced.outcome_bind h
  rw [hcalls]
  dsimp only at h ⊢
  split at h
  · cases h
  rename_i hpackage
  rw [if_neg hpackage]
  obtain ⟨u, -, h, hcalls⟩ := Traced.outcome_bind h
  rw [hcalls, Traced.ensure_calls]
  rw [cleanup_eq, Traced.ensure_outcome rfl] at h
  have hbody : ∃ contents, resultWrite x spec.invocationId contents ∈
      (x.tryBody d spec (resolvePath x.workspaceRoot spec.packageUri)).calls := by
    unfold tryBody at h ⊢
    obtain ⟨container, -, h, hcalls⟩ := Traced.outcome_bind h
    rw [hcalls]
    cases container with
    | none => cases h
    | some container =>
      unfold useContainer at h ⊢
      dsimp only at h ⊢
      split at h
      · obtain ⟨u, -, h, hcalls⟩ := Traced.outcome_bind h
        obtain ⟨contents, hmem⟩ := exitedResult_resultRef h href
        rw [hcalls]
        exact ⟨contents, List.mem_append_right _ (List.mem_append_right _ hmem)⟩
      · split at h
        · obtain ⟨u, -, h, -⟩ := Traced.outcome_bind h
          exact absurd (timeoutResult_returned h).2 href
        · cases h
  obtain ⟨contents, hmem⟩ := hbody
  exact ⟨contents, List.mem_append_right _ (List.mem_append_right _ (List.mem_append_left _ hmem))⟩

/-! ## The result file afterwards -/

theorem resultPath_ne_resultPath {u u' : UUID} (h : u ≠ u') :
    (x.resultPath u).resolve ≠ (x.resultPath u').resolve :=
  storedAt_ne (x := x) (by decide : PlainName "results") (by decide) (by decide) (by decide) (by decide)
    (by decide) (.inr ⟨rfl, h⟩)

theorem resultPath_ne_inputPath (u u' : UUID) : (x.resultPath u).resolve ≠ (x.inputPath u').resolve :=
  storedAt_ne (x := x) (by decide : PlainName "results") (by decide : PlainName "inputs") (by decide)
    (by decide) (by decide) (by decide) (.inl (by decide))

section Calls

variable {input left : List UInt8} {id u : UUID} {files : Files (List UInt8)} {calls : List ContainerCall}

theorem read_applyCall_result (hwrite : d.writeResult = .ok ()) (contents : List UInt8) :
    (x.applyCall d input left id files (resultWrite x id contents)).read (x.resultPath id) = some contents := by
  have hpath : x.resultPath id ≠ x.logPath id := fun he =>
    logPath_ne_resultPath id id (by rw [← he] : (x.logPath id).resolve = (x.resultPath id).resolve)
  rw [resultWrite, applyCall_write, if_neg hpath, hwrite]
  exact Files.read_write_same rfl

theorem read_applyCall_noResult {call : ContainerCall} (h : Permitted x d id call)
    (hne : ¬ WritesResult x id call ∨ u ≠ id) :
    (x.applyCall d input left id files call).read (x.resultPath u) = files.read (x.resultPath u) := by
  cases call with
  | writeInput path =>
    have hpath : path = x.inputPath id := h
    rw [applyCall_writeInput, Files.read_write_other]
    rw [hpath]
    exact resultPath_ne_inputPath u id
  | unlink path missingOk =>
    have hpath : path = x.inputPath id := h
    rw [applyCall_unlink]
    split
    · rw [Files.read_remove_other]
      rw [hpath]
      exact resultPath_ne_inputPath u id
    · rfl
  | write file =>
    obtain ⟨path, contents⟩ := file
    rw [applyCall_write, Files.read_write_other]
    rcases h with hresult | ⟨-, hlog⟩
    · have hpath : path = x.resultPath id := hresult
      rw [hpath]
      refine resultPath_ne_resultPath (hne.resolve_left fun hn => hn ⟨contents, ?_⟩)
      rw [resultWrite, hpath]
    · have hpath : path = x.logPath id := (Prod.mk.inj (ContainerCall.write.inj hlog)).1
      rw [hpath]
      exact (logPath_ne_resultPath id u).symm
  | fromEnv | run | wait | kill | logs | reload | remove => rfl

/-- The result file of another invocation stays, and that of this one holds what was written last. -/
theorem read_applyCalls_result (files : Files (List UInt8)) (hwrite : d.writeResult = .ok ())
    (h : ∀ c ∈ calls, Permitted x d id c) :
    (x.applyCalls d input left id files calls).read (x.resultPath u) = files.read (x.resultPath u) ∧
        (u = id → ∀ c ∈ calls, ¬ WritesResult x id c) ∨
      u = id ∧ ∃ contents, resultWrite x id contents ∈ calls ∧
        (x.applyCalls d input left id files calls).read (x.resultPath u) = some contents := by
  induction calls generalizing files with
  | nil => exact .inl ⟨rfl, fun _ c hc => absurd hc List.not_mem_nil⟩
  | cons c calls ih =>
    rw [List.forall_mem_cons] at h
    rcases ih (x.applyCall d input left id files c) h.2 with ⟨hread, hnone⟩ | ⟨hu, contents, hmem, hread⟩
    · by_cases hc : u = id ∧ WritesResult x id c
      · obtain ⟨rfl, contents, rfl⟩ := hc
        refine .inr ⟨rfl, contents, List.mem_cons_self, ?_⟩
        exact hread.trans (read_applyCall_result hwrite contents)
      · refine .inl ⟨hread.trans (read_applyCall_noResult h.1 ?_), fun hu => ?_⟩
        · by_cases hu : u = id
          · exact .inl fun hw => hc ⟨hu, hw⟩
          · exact .inr hu
        · rw [List.forall_mem_cons]
          exact ⟨fun hw => hc ⟨hu, hw⟩, hnone hu⟩
    · exact .inr ⟨hu, contents, List.mem_cons_of_mem _ hmem, hread⟩

end Calls

/-! ## The invariant -/

/-- The containers run the runner, and a result that is written is written in full. -/
def HostedInFull (p : Deployed) (x : DockerRuntimeExecutor) (s : Logs.State) (e : Logs.Event) : Prop :=
  Hosted p x s e ∧ match e with
    | .run _ d _ _ => d.writeResult = .ok ()
    | .call _ | .plan .. | .finish .. => True

/-- The result file of the invocation holds a value that has been given for it. -/
def HoldsResult (p : Deployed) (x : DockerRuntimeExecutor) (s : Logs.State) (i : Invocation) : Prop :=
  ∃ value, ComesFrom p x s.ledger.db i value ∧
    s.files.read (x.resultPath i.id) = some (resultBytes x value)

/-- It holds one as long as the file stays, whatever becomes of the row. -/
theorem HoldsResult.later {i j : Invocation} (h : HoldsResult p x s i)
    (hdb : Continues s.ledger.db t.ledger.db) (hij : SameWork i j)
    (hfile : t.files.read (x.resultPath i.id) = s.files.read (x.resultPath i.id)) : HoldsResult p x t j := by
  obtain ⟨value, hanswers, hread⟩ := h
  refine ⟨value, hanswers.later hdb hij, ?_⟩
  rw [hij.id, hfile, hread]

/-- **The invariant**: a reference to a result leads to a value that has been given. -/
structure Filed (p : Deployed) (x : DockerRuntimeExecutor) (s : Logs.State) : Prop where
  early : ∀ attemptId held result, s.jobs attemptId = some (.planned held (.finished result)) →
    result.resultRef = none
  job : ∀ attemptId held result, s.jobs attemptId = some (.returned held result) → result.resultRef ≠ none →
    ∃ i ∈ s.ledger.db.invocations, i.id = held.invocationId ∧ HoldsResult p x s i
  stored : ∀ i ∈ s.ledger.db.invocations, i.status = .succeeded → i.resultRef ≠ none → HoldsResult p x s i

/-- What an execution writes to a result file has been given for the invocation of its attempt. -/
theorem Answered.writes {attemptId : UUID} {held : InvocationAttempt} {plan : Plan} {input left : List UInt8}
    (h : Answered p x s) (hlib : x.lib = Json.pyLib p.F p.repr)
    (hjob : s.jobs attemptId = some (.planned held plan)) (hok : Hosted p x s (.run attemptId d input left))
    {contents : List UInt8}
    (hwrite : resultWrite x held.invocationId contents ∈ (x.executeCalls d plan).calls) :
    ∃ i ∈ s.ledger.db.invocations, i.id = held.invocationId ∧
      ∃ value, ComesFrom p x s.ledger.db i value ∧ contents = resultBytes x value := by
  have hsession := h.job attemptId _ hjob
  cases plan with
  | finished result => cases hwrite
  | raised e => cases hwrite
  | container spec =>
    obtain ⟨i, v, f, hspec, hid⟩ := hsession
    obtain ⟨hlimits, hruns⟩ := hok
    have hcarried : spec.Carried p.F :=
      hspec.carried (hlimits v hspec.version) (h.payload i hspec.invocation)
    rw [← hid, ← hspec.id] at hwrite
    obtain ⟨v, stdout, envelope, hprinted, rfl⟩ := resultWrite_executeContainerCalls hwrite
    have hgiven := (hruns held spec hjob).prints hlib hcarried hprinted
    exact ⟨i, hspec.invocation, hid, _, hspec.comesFrom hgiven, rfl⟩

theorem JobAnswers.spec_id {held : InvocationAttempt} {plan : Plan}
    (h : JobAnswers p x db (.planned held plan)) :
    ∀ spec ∈ plan.spec, spec.invocationId = held.invocationId := by
  intro spec hspec
  rw [Plan.spec_some hspec] at h
  obtain ⟨i, v, f, hfor, hid⟩ := h
  exact hfor.id.trans hid

theorem executeCalls_resultRef {plan : Plan} {id : UUID} (hid : ∀ spec ∈ plan.spec, spec.invocationId = id)
    (hplan : ∀ result, plan = .finished result → result.resultRef = none)
    (href : (processedResult (x.executeCalls d plan)).resultRef ≠ none) :
    ∃ contents, resultWrite x id contents ∈ (x.executeCalls d plan).calls := by
  unfold processedResult at href
  split at href
  · rename_i result hrun
    cases plan with
    | finished result' =>
      cases hrun
      exact absurd (hplan _ rfl) href
    | raised e => cases hrun
    | container spec =>
      rw [← hid spec rfl]
      exact executeContainerCalls_resultRef hrun href
  · exact absurd rfl href

namespace Filed

theorem init (h : Logs.init s) : Filed p x s := by
  obtain ⟨⟨functions, versions, hledger⟩, hjobs⟩ := h
  refine ⟨fun attemptId held result hj => ?_, fun attemptId held result hj => ?_, fun i hi => ?_⟩
  · rw [hjobs] at hj
    cases hj
  · rw [hjobs] at hj
    cases hj
  · rw [hledger] at hi
    exact absurd hi (Table.not_mem_empty i)

/-- A step that changes the database only. -/
theorem of_rows (h : Filed p x s) {new : Invocation → Prop} {ledger : Ledger.State}
    (hdb : Continues s.ledger.db ledger.db) (hrows : ∀ j ∈ ledger.db.invocations, RowFrom s.ledger.db new j)
    (hstored : ∀ j, new j → j.status = .succeeded → j.resultRef ≠ none →
      ∃ i ∈ s.ledger.db.invocations, SameWork i j ∧ HoldsResult p x s i) :
    Filed p x { s with ledger := ledger } where
  early := h.early
  job attemptId held result hj href := by
    obtain ⟨i, hi, hid, hholds⟩ := h.job attemptId held result hj href
    obtain ⟨j, hj, hij⟩ := hdb.invocations i hi
    exact ⟨j, hj, hij.id.trans hid, hholds.later hdb hij rfl⟩
  stored j hj hs href := by
    rcases hrows j hj with ⟨i, hi, hij, hsame⟩ | hnew
    · obtain rfl := hsame hs
      exact (h.stored j hi hs href).later hdb (.refl j) rfl
    · obtain ⟨i, hi, hij, hholds⟩ := hstored j hnew hs href
      exact hholds.later hdb hij rfl

/-- A step that changes one session only. -/
theorem of_job (h : Filed p x s) {attemptId : UUID} {job : Logs.Job}
    (hearly : ∀ held result, job = .planned held (.finished result) → result.resultRef = none)
    (hreturned : ∀ held result, job = .returned held result → result.resultRef ≠ none →
      ∃ i ∈ s.ledger.db.invocations, i.id = held.invocationId ∧ HoldsResult p x s i) :
    Filed p x (Logs.setJob s attemptId job) where
  early id held result hj := by
    rw [Logs.jobs_setJob] at hj
    split at hj
    · cases hj
      exact hearly held result rfl
    · exact h.early id held result hj
  job id held result hj href := by
    rw [Logs.jobs_setJob] at hj
    split at hj
    · cases hj
      exact hreturned held result rfl href
    · exact h.job id held result hj href
  stored := h.stored

theorem call (h : Filed p x s) {c : Call} {ledger : Ledger.State}
    (hs : Ledger.step s.ledger c = some ledger) (hc : Logs.isMarkFinished c = false) :
    Filed p x { s with ledger := ledger } := by
  refine h.of_rows (call_continues hs hc) (fun j hj => call_rows hs hc hj) ?_
  rintro j ⟨request, version, invocationId, dispatchId, now, rfl, rfl, -⟩ hstatus
  cases hstatus

/-- The files after an execution: every result file still holds what it should, and so does the one
that the execution may refer to. -/
theorem run (h : Filed p x s) (ha : Answered p x s) (hlib : x.lib = Json.pyLib p.F p.repr)
    {attemptId : UUID} {held : InvocationAttempt} {plan : Plan}
    (hjob : s.jobs attemptId = some (.planned held plan)) {input left : List UInt8}
    (hok : HostedInFull p x s (.run attemptId d input left)) :
    Filed p x (Logs.afterRun x s attemptId d input left held plan) := by
  obtain ⟨hhosted, hwrite⟩ := hok
  have hid := (ha.job attemptId _ hjob).spec_id
  have hmakes := makes_executeCalls (x := x) (d := d) hid
  let files := x.applyCalls d input left held.invocationId s.files (x.executeCalls d plan).calls
  have hcontinues : Continues s.ledger.db s.ledger.db :=
    ⟨fun _ => id, fun _ => id, fun i hi => ⟨i, hi, .refl i⟩⟩
  -- a file that holds such a value holds one afterwards
  have hkeeps : ∀ i ∈ s.ledger.db.invocations, HoldsResult p x s i →
      HoldsResult p x { s with files := files } i := by
    intro i hi hholds
    rcases read_applyCalls_result (u := i.id) s.files hwrite hmakes with
      ⟨hread, -⟩ | ⟨hu, contents, hmem, hread⟩
    · exact hholds.later hcontinues (.refl i) hread
    · obtain ⟨j, hj, hji, value, hanswers, rfl⟩ := ha.writes hlib hjob hhosted hmem
      obtain rfl := Table.eq_of_key hj hi (hji.trans hu.symm)
      exact ⟨value, hanswers, hread⟩
  have hfiles : Filed p x { s with files := files } := by
    refine ⟨h.early, fun id held' result hj href => ?_, fun i hi hs href => hkeeps i hi (h.stored i hi hs href)⟩
    obtain ⟨i, hi, hii, hholds⟩ := h.job id held' result hj href
    exact ⟨i, hi, hii, hkeeps i hi hholds⟩
  have hreturned : Filed p x (Logs.setJob { s with files := files } attemptId
      (.returned held (processedResult (x.executeCalls d plan)))) := by
    refine hfiles.of_job (fun _ _ he => by cases he) fun held' result he href => ?_
    cases he
    obtain ⟨contents, hmem⟩ := executeCalls_resultRef hid
      (fun result hplan => h.early attemptId held result (hplan ▸ hjob)) href
    obtain ⟨i, hi, hii, -⟩ := ha.writes hlib hjob hhosted hmem
    refine ⟨i, hi, hii, ?_⟩
    rcases read_applyCalls_result (u := i.id) s.files hwrite hmakes with
      ⟨-, hnone⟩ | ⟨hu, contents', hmem', hread⟩
    · exact absurd ⟨contents, rfl⟩ (hnone hii _ hmem)
    · obtain ⟨j, hj, hji, value, hanswers, rfl⟩ := ha.writes hlib hjob hhosted hmem'
      obtain rfl := Table.eq_of_key hj hi (hji.trans hu.symm)
      exact ⟨value, hanswers, hread⟩
  exact ⟨hreturned.early, hreturned.job, hreturned.stored⟩

theorem finish (h : Filed p x s) {attemptId : UUID} {held : InvocationAttempt}
    (hjob : s.jobs attemptId = some (.returned held result)) {decision : RetryDecision} {dispatchId : UUID}
    {now : Time} {r : Except CompleteError InvocationAttempt}
    (hm : markFinished s.ledger.db held.invocationId attemptId (some held) result decision dispatchId now =
      (db, r)) : Filed p x (Logs.afterFinish s attemptId db) := by
  have hrows : Filed p x { s with ledger := ⟨db, s.ledger.stream⟩ } := by
    refine h.of_rows (finish_continues hm) (fun j hj => finish_rows hm hj) ?_
    rintro j ⟨i, hi, hij, hid, hs, -, hresult⟩ - href
    rw [hresult] at href
    obtain ⟨k, hk, hki, hholds⟩ := h.job attemptId held result hjob href
    obtain rfl := Table.eq_of_key hk hi (hki.trans hid.symm)
    exact ⟨k, hk, hij, hholds⟩
  exact hrows.of_job (fun _ _ he => by cases he) fun _ _ he => by cases he

theorem step (h : Filed p x s) (ha : Answered p x s) (hlib : x.lib = Json.pyLib p.F p.repr) {e : Logs.Event}
    (hok : HostedInFull p x s e) (hs : Logs.step x s e = some t) : Filed p x t := by
  cases e with
  | call c =>
    simp only [Logs.step, Option.ite_none_left_eq_some, Bool.not_eq_true, Option.map_eq_some_iff] at hs
    obtain ⟨hc, ledger, hledger, rfl⟩ := hs
    exact h.call hledger hc
  | plan attemptId task now =>
    simp only [Logs.step] at hs
    split at hs
    · simp only [Option.ite_none_right_eq_some, Option.some.injEq] at hs
      obtain ⟨hid, rfl⟩ := hs
      refine h.of_job (fun held result he => ?_) fun _ _ he => by cases he
      rw [planExecution_finished (Logs.Job.planned.inj he).2]
      rfl
    · cases hs
  | run attemptId d input left =>
    simp only [Logs.step] at hs
    split at hs
    · rename_i held plan hjob
      cases hs
      exact h.run ha hlib hjob hok
    · cases hs
  | finish attemptId policy dispatchId now =>
    simp only [Logs.step] at hs
    split at hs
    · rename_i held result hjob
      cases hs
      exact h.finish hjob rfl
    · cases hs

end Filed

theorem filed_of_reachable (hlib : x.lib = Json.pyLib p.F p.repr)
    (h : ReachableBy (Logs.step x) (HostedInFull p x) Logs.init s) : Filed p x s := by
  have hboth : Answered p x s ∧ Filed p x s :=
    h.invariant (I := fun s => Answered p x s ∧ Filed p x s) (fun _ hi => ⟨.init hi, .init hi⟩)
      fun _ hi hok hs => ⟨hi.1.step hlib hok.1 hs, hi.2.step hi.1 hlib hok hs⟩
  exact hboth.2

/-- **No reference dangles.** The reference of a success leads, for good, to a file that holds a value
which the handler of its version has returned for its payload, or which the package of its version has
written itself, whatever attempts of it or of others write their results, in time or not. -/
theorem result_files_hold_answers (hlib : x.lib = Json.pyLib p.F p.repr) (habs : x.storageRoot.isAbsolute)
    (h : ReachableBy (Logs.step x) (HostedInFull p x) Logs.init s) {i : Invocation}
    (hi : i ∈ s.ledger.db.invocations) (hs : i.status = .succeeded) {ref : String}
    (href : i.resultRef = some ref) :
    ∃ value, (AnswersInvocation p x s.ledger.db i value ∨ ClaimedFor p x s.ledger.db i value) ∧
      s.files.read (resolvePath x.workspaceRoot ref) = some (Utf8.encode (x.lib.dumps value)) := by
  obtain ⟨value, hanswers, hread⟩ := (filed_of_reachable hlib h).stored i hi hs (by rw [href]; simp)
  refine ⟨value, hanswers, ?_⟩
  have hpath : (x.resultPath i.id).isAbsolute := isAbsolute_join (isAbsolute_join habs _) _
  obtain ⟨-, -, -, recorded, -, hrecorded⟩ :=
    (answered_of_reachable hlib (h.mono fun _ _ hok => hok.1)).stored i hi hs
  rw [href, RecordedAs] at hrecorded
  split at hrecorded
  · cases hrecorded.2
  · rw [Option.some.inj hrecorded.2]
    exact (congrArg s.files (resolvePath_storageRef x.workspaceRoot hpath)).trans hread

/-- A worker for which the greeting is too long to be kept inline. -/
def terseWorker : DockerRuntimeExecutor := { demoExecutor with maxInlineResultBytes := 4 }

def greetsInFull (s : Logs.State) (e : Logs.Event) : Bool :=
  greets s e && match e with
    | .run _ d _ _ => d.writeResult.toBool
    | .call _ | .plan .. | .finish .. => true

theorem hostedInFull_of_greets (s : Logs.State) (e : Logs.Event) (h : greetsInFull s e = true) :
    HostedInFull greeters terseWorker s e := by
  simp only [greetsInFull, Bool.and_eq_true] at h
  refine ⟨hosted_of_greets terseWorker s e h.1, ?_⟩
  cases e with
  | call | plan | finish => trivial
  | run attemptId d input left =>
    have hwritten : d.writeResult.toBool = true := h.2
    show d.writeResult = .ok ()
    cases hd : d.writeResult with
    | ok u => rfl
    | error f =>
      rw [hd] at hwritten
      cases hwritten

/-- The greeting is in a file, and it is the handler's. -/
theorem result_files_hold_answers_ada :
    ∃ s, ReachableBy (Logs.step terseWorker) (HostedInFull greeters terseWorker) Logs.init s ∧
      ∃ i ∈ s.ledger.db.invocations, i.status = .succeeded ∧ ∃ ref, i.resultRef = some ref ∧
        ∃ value, (AnswersInvocation greeters terseWorker s.ledger.db i value ∨
            ClaimedFor greeters terseWorker s.ledger.db i value) ∧
          s.files.read (resolvePath terseWorker.workspaceRoot ref) =
            some (Utf8.encode (terseWorker.lib.dumps value)) := by
  obtain ⟨s, hs, hp⟩ := reachableBy_of_replayWhere (Logs.step terseWorker) greetingRun
    (fun s => s.ledger.db.invocations.rows.any fun i => i.status = .succeeded && i.resultRef.isSome)
    hostedInFull_of_greets Logs.init_empty (by decide +kernel)
  obtain ⟨i, hi, hstatus⟩ := List.any_eq_true.mp hp
  rw [Bool.and_eq_true, decide_eq_true_eq, Option.isSome_iff_exists] at hstatus
  obtain ⟨hstatus, ref, href⟩ := hstatus
  have habs : terseWorker.storageRoot.isAbsolute := by decide +kernel
  exact ⟨s, hs, i, hi, hstatus, ref, href, result_files_hold_answers rfl habs hs hi hstatus href⟩

end Serverless.Serving
