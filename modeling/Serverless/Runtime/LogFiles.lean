import Serverless.Model.PackagePaths
import Serverless.Runtime.Cleanup
import Serverless.Runtime.Recording

/-!
# The log file of an execution

The executor names its files after the invocation. An execution that reads something from
stderr writes it to the log file of its invocation and to no other log file, and a result
refers to that file only if it has been written.
-/
namespace Serverless.Runtime

open Serverless.Library Serverless.Model Serverless.Model.DockerRuntimeExecutor PosixPath

variable {x : DockerRuntimeExecutor} {d : Docker} {spec : RuntimeInvocationSpec}

/-! ## Which file is where -/

/-- Where the executor keeps a file of an invocation, below its storage root. -/
def storedAt (x : DockerRuntimeExecutor) (directory suffix : String) (invocationId : UUID) : PosixPath :=
  (x.storageRoot.join (.parse directory)).join (.parse (invocationId.str ++ suffix))

theorem isSegment_fileName (u : UUID) {suffix : String} (hs : '/' ∉ suffix.toList)
    (hlen : 2 ≤ suffix.toList.length) :
    IsSegment (u.str ++ suffix).toList ∧ (u.str ++ suffix).toList ≠ up := by
  obtain ⟨⟨hne, -, hslash⟩, -⟩ := UUID.isSegment_str u
  rw [String.toList_append]
  have hpos := List.length_pos_iff.mpr hne
  have hlong : 2 < (u.str.toList ++ suffix.toList).length := by
    rw [List.length_append]
    omega
  refine ⟨⟨fun h => ?_, fun h => ?_, fun h => ?_⟩, fun h => ?_⟩
  · rw [h] at hlong
    simp at hlong
  · rw [h] at hlong
    simp at hlong
  · exact (List.mem_append.mp h).elim hslash hs
  · rw [h] at hlong
    simp [up] at hlong

/-- A directory name without dots and slashes. -/
def PlainName (name : String) : Prop := name.toList ≠ [] ∧ '.' ∉ name.toList ∧ '/' ∉ name.toList

instance (name : String) : Decidable (PlainName name) := inferInstanceAs (Decidable (_ ∧ _))

theorem resolve_storedAt (x : DockerRuntimeExecutor) {directory suffix : String}
    (hd : PlainName directory) (hs : '/' ∉ suffix.toList)
    (hlen : 2 ≤ suffix.toList.length) (u : UUID) :
    collapse (storedAt x directory suffix u).parts =
      collapse x.storageRoot.parts ++ [directory.toList, (u.str ++ suffix).toList] := by
  obtain ⟨hseg, hup⟩ := isSegment_fileName u hs hlen
  have hd := isSegment_of_plain hd.1 hd.2.1 hd.2.2
  rw [storedAt, (join_single _ hseg).2, (join_single _ hd.1).2, List.append_assoc]
  apply collapse_append
  simp only [List.cons_append, List.nil_append, List.mem_cons, List.not_mem_nil, or_false, not_or]
  exact ⟨Ne.symm hd.2, Ne.symm hup⟩

/-- Files of different directories, or of different invocations, are different files. -/
theorem storedAt_ne {directory suffix directory' suffix' : String} {u u' : UUID}
    (hd : PlainName directory) (hd' : PlainName directory') (hs : '/' ∉ suffix.toList)
    (hs' : '/' ∉ suffix'.toList) (hlen : 2 ≤ suffix.toList.length) (hlen' : 2 ≤ suffix'.toList.length)
    (h : directory ≠ directory' ∨ (suffix = suffix' ∧ u ≠ u')) :
    (storedAt x directory suffix u).resolve ≠ (storedAt x directory' suffix' u').resolve := by
  intro heq
  have hparts := resolve_eq_iff.mp heq
  rw [resolve_storedAt x hd hs hlen, resolve_storedAt x hd' hs' hlen'] at hparts
  obtain ⟨hdir, hname⟩ := List.cons.inj (List.append_cancel_left hparts)
  rcases h with hne | ⟨rfl, hne⟩
  · exact hne (String.ext hdir)
  · have hu := (List.cons.inj hname).1
    rw [String.toList_append, String.toList_append] at hu
    exact hne (UUID.str_injective (List.append_cancel_right hu))

theorem logPath_ne_logPath {u u' : UUID} (h : u ≠ u') :
    (x.logPath u).resolve ≠ (x.logPath u').resolve :=
  storedAt_ne (x := x) (by decide : PlainName "logs") (by decide) (by decide) (by decide) (by decide)
    (by decide) (.inr ⟨rfl, h⟩)

theorem logPath_ne_resultPath (u u' : UUID) : (x.logPath u).resolve ≠ (x.resultPath u').resolve :=
  storedAt_ne (x := x) (by decide : PlainName "logs") (by decide : PlainName "results") (by decide)
    (by decide) (by decide) (by decide) (.inl (by decide))

theorem logPath_ne_inputPath (u u' : UUID) : (x.logPath u).resolve ≠ (x.inputPath u').resolve :=
  storedAt_ne (x := x) (by decide : PlainName "logs") (by decide : PlainName "inputs") (by decide)
    (by decide) (by decide) (by decide) (.inl (by decide))

/-! ## The calls that touch files -/

/-- The write of the logs. -/
def logWrite (x : DockerRuntimeExecutor) (d : Docker) (invocationId : UUID) : ContainerCall :=
  .write (x.logPath invocationId, d.stderrBytes.take x.maxLogBytes)

/-- What an execution does to files: its input, its result, and its logs if there are any. -/
def Permitted (x : DockerRuntimeExecutor) (d : Docker) (invocationId : UUID) : ContainerCall → Prop
  | .writeInput path | .unlink path _ => path = x.inputPath invocationId
  | .write file => file.1 = x.resultPath invocationId ∨
      (d.stderrBytes ≠ [] ∧ .write file = logWrite x d invocationId)
  | .fromEnv | .run _ | .wait _ | .kill | .logs _ _ | .reload | .remove _ => True

/-- What has been read from stderr, if that can be used as bytes, is what it stands for. -/
theorem readStderr_returns {logs : ReadLogs} (h : (readStderr d).outcome = .ok logs) :
    ∀ bytes, logs = .ok bytes → bytes = d.stderrBytes := by
  intro bytes hbytes
  obtain ⟨v, hv, hlogs, -⟩ := Traced.outcome_bind h
  have hv : d.stderr = .ok v := hv
  have hlogs : readLogs v = logs := Except.ok.inj hlogs
  rw [hbytes] at hlogs
  simp [Docker.stderrBytes, hv, hlogs, Except.toOption]

/-- Logs that cannot be read count as none. -/
theorem handled_readStderr_returns {logs : ReadLogs}
    (h : (Traced.handle (readStderr d) catchAll fun _ => pure (.ok [])).outcome = .ok logs) :
    ∀ bytes, logs = .ok bytes → bytes = d.stderrBytes := by
  rcases Traced.outcome_handle h with ⟨h, -⟩ | ⟨e, he, hnil⟩
  · exact readStderr_returns h
  · intro bytes hbytes
    cases hnil
    cases hbytes
    cases hstderr : d.stderr with
    | error f =>
      rw [Docker.stderrBytes, hstderr]
      rfl
    | ok v =>
      rw [readStderr, Traced.bind_ok (a := v) (by exact hstderr)] at he
      cases he

theorem makes_silent {α : Type} {kind : ContainerCall → Prop} (outcome : Except Fault α) :
    Traced.Makes kind (⟨[], outcome⟩ : Execution α) := by
  intro call h
  cases h

theorem makes_readStderr (id : UUID) : Traced.Makes (Permitted x d id) (readStderr d) :=
  Traced.Makes.bind (Traced.makes_perform trivial) fun _ _ => Traced.makes_pure _

theorem makes_readStdout (id : UUID) : Traced.Makes (Permitted x d id) (readStdout d) :=
  Traced.Makes.bind (Traced.makes_perform trivial) fun _ _ => Traced.makes_pure _

theorem makes_storeLogs (id : UUID) {logs : ReadLogs}
    (hlogs : ∀ bytes, logs = .ok bytes → bytes = d.stderrBytes) :
    Traced.Makes (Permitted x d id) (x.storeLogs d id logs) := by
  unfold storeLogs
  split
  · rename_i bytes
    obtain rfl := hlogs bytes rfl
    split
    · exact Traced.makes_pure _
    · rename_i hne
      exact Traced.Makes.bind (Traced.makes_perform (.inr ⟨hne, rfl⟩)) fun _ _ => Traced.makes_pure _
  · exact makes_silent _

theorem makes_wasOomKilled (id : UUID) : Traced.Makes (Permitted x d id) (wasOomKilled d) := by
  apply Traced.Makes.handle
  · exact Traced.Makes.bind (Traced.makes_perform trivial) fun _ _ => makes_silent _
  · exact fun _ => Traced.makes_pure _

theorem makes_timeoutResult (container : Container) :
    Traced.Makes (Permitted x d spec.invocationId) (x.timeoutResult d spec container) := by
  refine Traced.Makes.bind ?_ fun _ _ => Traced.Makes.bind ?_ fun stderr hstderr =>
    Traced.Makes.bind ?_ fun _ _ => Traced.makes_pure _
  · exact Traced.Makes.handle (Traced.makes_perform trivial) fun _ => Traced.makes_pure _
  · exact (makes_readStderr _).handle fun _ => Traced.makes_pure _
  · exact (makes_storeLogs _ (handled_readStderr_returns hstderr)).handle fun _ => Traced.makes_pure _

/-- The only file that parsing writes is the result. -/
theorem parseRuntimeOutput_files {host : Host} {id : UUID} {stdout : List UInt8}
    {exitCode durationMs : Int} {logsRef containerId : Option String}
    {result : RuntimeExecutionResult} {files : List File}
    (h : x.parseRuntimeOutput host id stdout exitCode durationMs logsRef containerId =
      .ok (result, files)) :
    result.logsRef = logsRef ∧ ∀ file ∈ files, file.1 = x.resultPath id := by
  have hparses := parses_total x host id stdout exitCode durationMs logsRef containerId
  rw [h] at hparses
  refine ⟨hparses.keeps.logsRef, ?_⟩
  generalize hr : Except.ok (result, files) = r at hparses
  cases hparses with
  | empty | invalid | notObject | reported | exit =>
    cases hr
    exact fun file hfile => absurd hfile List.not_mem_nil
  | raised => cases hr
  | succeeded =>
    unfold DockerRuntimeExecutor.buildSuccessResult at hr
    dsimp only at hr
    split at hr
    · cases hr
      exact fun file hfile => absurd hfile List.not_mem_nil
    · split at hr
      · cases hr
      · cases hr
        intro file hfile
        rw [List.mem_singleton.mp hfile]

theorem makes_parsedOutput (container : Container) (exitCode : Int) (logsRef : Option String)
    (stdout : ReadLogs) :
    Traced.Makes (Permitted x d spec.invocationId)
      (x.parsedOutput d spec container exitCode logsRef stdout) := by
  unfold parsedOutput
  split
  · exact Traced.makes_raise _
  split
  · exact Traced.makes_raise _
  · exact Traced.makes_pure _
  · rename_i result file files hparse
    have hfile := (parseRuntimeOutput_files hparse).2 file List.mem_cons_self
    exact Traced.Makes.bind (Traced.makes_perform (.inl hfile)) fun _ _ => Traced.makes_pure _

theorem makes_exitedResult (container : Container) (waitResult : PyValue) :
    Traced.Makes (Permitted x d spec.invocationId) (x.exitedResult d spec container waitResult) := by
  refine Traced.Makes.bind (makes_silent _) fun exitCode _ =>
    (makes_readStderr _).bind fun stderr hstderr => ?_
  refine (makes_storeLogs _ (readStderr_returns hstderr)).bind fun logsRef _ =>
    (makes_wasOomKilled _).bind fun oomKilled _ => ?_
  split
  · exact Traced.makes_pure _
  · exact (makes_readStdout _).bind fun stdout _ => makes_parsedOutput _ _ _ _

theorem makes_tryBody (packagePath : PosixPath) :
    Traced.Makes (Permitted x d spec.invocationId) (x.tryBody d spec packagePath) := by
  refine Traced.Makes.bind (Traced.makes_perform trivial) fun container _ => ?_
  cases container with
  | none => exact Traced.makes_raise _
  | some container =>
    unfold useContainer
    dsimp only
    split
    · exact Traced.Makes.bind (Traced.makes_perform trivial) fun _ _ => makes_exitedResult _ _
    · split
      · exact Traced.Makes.bind (Traced.makes_perform trivial) fun _ _ => makes_timeoutResult _
      · exact Traced.makes_perform trivial

theorem makes_cleanup (container : Option Container) :
    Traced.Makes (Permitted x d spec.invocationId) (x.cleanup d spec container) := by
  rw [cleanup_eq]
  intro call hcall
  rcases List.mem_append.mp hcall with h | h
  · split at h
    · rw [List.mem_singleton.mp h]
      trivial
    · cases h
  · rw [List.mem_singleton.mp h]
    rfl

/-- **Every call of an execution leaves the log files of other invocations alone.** -/
theorem makes_executeContainerCalls :
    Traced.Makes (Permitted x d spec.invocationId) (x.executeContainerCalls d spec) := by
  refine Traced.Makes.bind (Traced.makes_perform trivial) fun _ _ => ?_
  dsimp only
  split
  · exact Traced.makes_raise _
  · exact Traced.Makes.bind (Traced.makes_perform rfl) fun _ _ =>
      (makes_tryBody _).ensure (makes_cleanup _)

/-! ## What a reference stands for -/

/-- The execution has written its logs, and refers to them. -/
structure Referred (x : DockerRuntimeExecutor) (d : Docker) (invocationId : UUID) (ref : String)
    (calls : List ContainerCall) : Prop where
  ref_eq : ref = storageRef x.workspaceRoot (x.logPath invocationId)
  written : d.writeLogs = .ok ()
  logged : logWrite x d invocationId ∈ calls

theorem Referred.mono {id : UUID} {ref : String} {calls calls' : List ContainerCall}
    (h : Referred x d id ref calls) (hsub : calls ⊆ calls') : Referred x d id ref calls' :=
  ⟨h.ref_eq, h.written, hsub h.logged⟩

theorem storeLogs_referred {id : UUID} {logs : ReadLogs} {ref : String}
    (hlogs : ∀ bytes, logs = .ok bytes → bytes = d.stderrBytes)
    (h : (x.storeLogs d id logs).outcome = .ok (some ref)) :
    Referred x d id ref (x.storeLogs d id logs).calls := by
  cases logs with
  | error object =>
    unfold storeLogs at h
    cases hw : d.writeLogs <;> rw [hw] at h <;> cases h
  | ok bytes =>
  obtain rfl := hlogs bytes rfl
  unfold storeLogs at h ⊢
  dsimp only at h ⊢
  split at h
  · cases h
  · rename_i hne
    rw [if_neg hne]
    obtain ⟨u, hu, href, hcalls⟩ := Traced.outcome_bind h
    rw [hcalls]
    refine ⟨(Option.some.inj (Except.ok.inj href)).symm, ?_, List.mem_cons_self⟩
    have hu : asOSError d.writeLogs = .ok u := hu
    cases hw : d.writeLogs with
    | ok u => rfl
    | error e =>
      rw [hw] at hu
      cases hu

theorem timeoutResult_referred {container : Container} {result : RuntimeExecutionResult} {ref : String}
    (h : (x.timeoutResult d spec container).outcome = .ok result) (href : result.logsRef = some ref) :
    Referred x d spec.invocationId ref (x.timeoutResult d spec container).calls := by
  unfold timeoutResult at h ⊢
  obtain ⟨u, -, h, hcalls⟩ := Traced.outcome_bind h
  rw [hcalls]
  obtain ⟨stderr, hstderr, h, hcalls⟩ := Traced.outcome_bind h
  rw [hcalls]
  obtain ⟨logsRef, hlogs, h, hcalls⟩ := Traced.outcome_bind h
  rw [hcalls]
  cases h
  obtain rfl : logsRef = some ref := href
  have hbytes := handled_readStderr_returns hstderr
  rcases Traced.outcome_handle hlogs with ⟨hlogs, hsame⟩ | ⟨e, -, hnone⟩
  · rw [hsame]
    refine (storeLogs_referred hbytes hlogs).mono fun call hcall => ?_
    exact List.mem_append_right _ (List.mem_append_right _ (List.mem_append_left _ hcall))
  · cases hnone

theorem exitedResult_referred {container : Container} {waitResult : PyValue}
    {result : RuntimeExecutionResult} {ref : String}
    (h : (x.exitedResult d spec container waitResult).outcome = .ok result)
    (href : result.logsRef = some ref) :
    Referred x d spec.invocationId ref (x.exitedResult d spec container waitResult).calls := by
  unfold exitedResult at h ⊢
  obtain ⟨exitCode, -, h, hcalls⟩ := Traced.outcome_bind h
  rw [hcalls]
  obtain ⟨stderr, hstderr, h, hcalls⟩ := Traced.outcome_bind h
  rw [hcalls]
  obtain ⟨logsRef, hlogs, h, hcalls⟩ := Traced.outcome_bind h
  rw [hcalls]
  obtain ⟨oomKilled, -, h, hcalls⟩ := Traced.outcome_bind h
  have hkept : result.logsRef = logsRef := by
    split at h
    · cases h
      rfl
    · obtain ⟨stdout, -, h, -⟩ := Traced.outcome_bind h
      unfold parsedOutput at h
      split at h
      · cases h
      split at h
      · cases h
      · rename_i hparse
        cases h
        exact (parseRuntimeOutput_files hparse).1
      · rename_i hparse
        obtain ⟨u, -, h, -⟩ := Traced.outcome_bind h
        cases h
        exact (parseRuntimeOutput_files hparse).1
  obtain rfl : logsRef = some ref := hkept.symm.trans href
  refine (storeLogs_referred (readStderr_returns hstderr) hlogs).mono fun call hcall => ?_
  exact List.mem_append_right _ (List.mem_append_right _ (List.mem_append_left _ hcall))

theorem tryBody_referred {packagePath : PosixPath} {result : RuntimeExecutionResult} {ref : String}
    (h : (x.tryBody d spec packagePath).outcome = .ok result) (href : result.logsRef = some ref) :
    Referred x d spec.invocationId ref (x.tryBody d spec packagePath).calls := by
  unfold tryBody at h ⊢
  obtain ⟨container, -, h, hcalls⟩ := Traced.outcome_bind h
  rw [hcalls]
  refine Referred.mono ?_ (List.subset_append_right _ _)
  cases container with
  | none => cases h
  | some container =>
    unfold useContainer at h ⊢
    dsimp only at h ⊢
    split at h
    · obtain ⟨u, -, h, hcalls⟩ := Traced.outcome_bind h
      rw [hcalls]
      exact (exitedResult_referred h href).mono (List.subset_append_right _ _)
    · split at h
      · rename_i htimeout
        rw [if_pos htimeout]
        obtain ⟨u, -, h, hcalls⟩ := Traced.outcome_bind h
        rw [hcalls]
        exact (timeoutResult_referred h href).mono (List.subset_append_right _ _)
      · cases h

/-- **A result that refers to logs has written them.** -/
theorem executeContainerCalls_referred {result : RuntimeExecutionResult} {ref : String}
    (h : (x.executeContainerCalls d spec).outcome = .ok result) (href : result.logsRef = some ref) :
    Referred x d spec.invocationId ref (x.executeContainerCalls d spec).calls := by
  unfold executeContainerCalls at h ⊢
  obtain ⟨u, -, h, hcalls⟩ := Traced.outcome_bind h
  rw [hcalls]
  dsimp only at h ⊢
  refine Referred.mono ?_ (List.subset_append_right _ _)
  split at h
  · cases h
  · rename_i hpackage
    rw [if_neg hpackage]
    obtain ⟨u, -, h, hcalls⟩ := Traced.outcome_bind h
    rw [hcalls, Traced.ensure_calls]
    rw [cleanup_eq, Traced.ensure_outcome rfl] at h
    refine (tryBody_referred h href).mono fun call hcall => ?_
    exact List.mem_append_right _ (List.mem_append_left _ hcall)

/-! ## Which executions open the file -/

/-- An execution opens the log file: a container is started and waited for, and has printed
something on stderr. -/
structure Opens (x : DockerRuntimeExecutor) (d : Docker) (spec : RuntimeInvocationSpec) : Prop where
  client : d.client = .ok ()
  package : d.packageExists (resolvePath x.workspaceRoot spec.packageUri) = true
  input : d.writeInput = .ok ()
  started : ∃ container, d.run (resolvePath x.workspaceRoot spec.packageUri) = .ok (some container)
  ended : (∃ value code, d.wait spec.timeoutSeconds = .ok value ∧ extractExitCode d value = .ok code) ∨
    ∃ f, d.wait spec.timeoutSeconds = .error f ∧ f.exception.isTimeoutError = true
  printed : d.stderrBytes ≠ []

theorem logWrite_mem_storeLogs {id : UUID} :
    logWrite x d id ∈ (x.storeLogs d id (.ok d.stderrBytes)).calls ↔ d.stderrBytes ≠ [] := by
  unfold storeLogs
  dsimp only
  split
  · rename_i hnil
    exact iff_of_false List.not_mem_nil (not_not_intro hnil)
  · rename_i hne
    exact iff_of_true (Traced.mem_bind_calls.mpr (.inl (Traced.mem_perform_calls.mpr rfl))) hne

/-- Whatever is stored, the logs are written only if there are some. -/
theorem logWrite_of_storeLogs {id : UUID} {logs : ReadLogs}
    (hlogs : ∀ bytes, logs = .ok bytes → bytes = d.stderrBytes)
    (h : logWrite x d id ∈ (x.storeLogs d id logs).calls) : d.stderrBytes ≠ [] := by
  cases logs with
  | ok bytes =>
    obtain rfl := hlogs bytes rfl
    exact logWrite_mem_storeLogs.mp h
  | error object => cases h

theorem readStderr_ok (hne : d.stderrBytes ≠ []) :
    (readStderr d).outcome = .ok (.ok d.stderrBytes) := by
  cases hstderr : d.stderr with
  | error f =>
    rw [Docker.stderrBytes, hstderr] at hne
    exact absurd rfl hne
  | ok v =>
    rw [readStderr_outcome, hstderr]
    cases hread : readLogs v with
    | error object =>
      simp [Docker.stderrBytes, hstderr, hread, Except.toOption] at hne
    | ok bytes => simp [Docker.stderrBytes, hstderr, hread, Except.map, Except.toOption]

/-- Calls that are not a write are not the write of the logs. -/
theorem noLogs_readStderr (id : UUID) : Traced.Avoids (· = logWrite x d id) (readStderr d) :=
  Traced.Avoids.bind (Traced.avoids_perform ContainerCall.noConfusion) fun _ => Traced.avoids_pure _

theorem noLogs_readStdout (id : UUID) : Traced.Avoids (· = logWrite x d id) (readStdout d) :=
  Traced.Avoids.bind (Traced.avoids_perform ContainerCall.noConfusion) fun _ => Traced.avoids_pure _

theorem noLogs_wasOomKilled (id : UUID) : Traced.Avoids (· = logWrite x d id) (wasOomKilled d) := by
  apply Traced.Avoids.handle
  · exact Traced.Avoids.bind (Traced.avoids_perform ContainerCall.noConfusion) fun _ => makes_silent _
  · exact fun _ => Traced.avoids_pure _

theorem noLogs_parsedOutput (container : Container) (exitCode : Int) (logsRef : Option String)
    (stdout : ReadLogs) : Traced.Avoids (· = logWrite x d spec.invocationId)
      (x.parsedOutput d spec container exitCode logsRef stdout) := by
  unfold parsedOutput
  split
  · exact Traced.avoids_raise _
  split
  · exact Traced.avoids_raise _
  · exact Traced.avoids_pure _
  · rename_i result file files hparse
    have hfile := (parseRuntimeOutput_files hparse).2 file List.mem_cons_self
    refine Traced.Avoids.bind (Traced.avoids_perform fun h => ?_) fun _ => Traced.avoids_pure _
    have hpath : x.logPath spec.invocationId = x.resultPath spec.invocationId := by
      rw [← hfile, ContainerCall.write.inj h]
    exact logPath_ne_resultPath _ _ (by rw [hpath])

theorem logWrite_not_mem_cleanup {container : Option Container} :
    logWrite x d spec.invocationId ∉ cleanupCalls x spec container := by
  unfold cleanupCalls
  split <;> simp [logWrite]

theorem logWrite_mem_exitedResult {container : Container} {value : PyValue} :
    logWrite x d spec.invocationId ∈ (x.exitedResult d spec container value).calls ↔
      (∃ code, extractExitCode d value = .ok code) ∧ d.stderrBytes ≠ [] := by
  unfold exitedResult
  constructor
  · intro h
    rw [Traced.mem_bind_calls] at h
    rcases h with h | ⟨code, hcode, h⟩
    · cases h
    have hcode : ∃ code, extractExitCode d value = .ok code := by
      cases hc : extractExitCode d value with
      | ok c => exact ⟨c, rfl⟩
      | error e => simp [hc, Except.mapError] at hcode
    refine ⟨hcode, ?_⟩
    rw [Traced.mem_bind_calls] at h
    rcases h with h | ⟨logs, hlogs, h⟩
    · exact absurd rfl (noLogs_readStderr _ _ h)
    rw [Traced.mem_bind_calls] at h
    rcases h with h | ⟨logsRef, -, h⟩
    · exact logWrite_of_storeLogs (readStderr_returns hlogs) h
    refine absurd rfl (Traced.Avoids.bind (noLogs_wasOomKilled _) (fun oomKilled => ?_) _ h)
    split
    · exact Traced.avoids_pure _
    · exact (noLogs_readStdout _).bind fun _ => noLogs_parsedOutput _ _ _ _
  · rintro ⟨⟨code, hcode⟩, hne⟩
    refine Traced.mem_bind_calls.mpr (.inr ⟨code, by rw [hcode]; rfl, ?_⟩)
    refine Traced.mem_bind_calls.mpr (.inr ⟨_, readStderr_ok hne, ?_⟩)
    exact Traced.mem_bind_calls.mpr (.inl (logWrite_mem_storeLogs.mpr hne))

theorem logWrite_mem_timeoutResult {container : Container} :
    logWrite x d spec.invocationId ∈ (x.timeoutResult d spec container).calls ↔
      d.stderrBytes ≠ [] := by
  unfold timeoutResult
  constructor
  · intro h
    rw [Traced.mem_bind_calls, Traced.mem_handle_pure_calls, Traced.mem_perform_calls] at h
    rcases h with h | ⟨u, -, h⟩
    · cases h
    rw [Traced.mem_bind_calls, Traced.mem_handle_pure_calls] at h
    rcases h with h | ⟨logs, hlogs, h⟩
    · exact absurd rfl (noLogs_readStderr _ _ h)
    rw [Traced.mem_bind_calls, Traced.mem_handle_pure_calls] at h
    rcases h with h | ⟨logsRef, -, h⟩
    · exact logWrite_of_storeLogs (handled_readStderr_returns hlogs) h
    · cases h
  · intro hne
    obtain ⟨u, hu⟩ :=
      Traced.handle_returns (Traced.perform ContainerCall.kill d.kill) catchAll () fun _ _ => rfl
    have hread : (Traced.handle (readStderr d) catchAll fun _ => pure (.ok [])).outcome =
        .ok (.ok d.stderrBytes) := by
      rw [Traced.handle_ok (readStderr_ok hne), readStderr_ok hne]
    refine Traced.mem_bind_calls.mpr (.inr ⟨u, hu, ?_⟩)
    refine Traced.mem_bind_calls.mpr (.inr ⟨_, hread, ?_⟩)
    exact Traced.mem_bind_calls.mpr (.inl (Traced.mem_handle_pure_calls.mpr (logWrite_mem_storeLogs.mpr hne)))

theorem logWrite_mem_tryBody {packagePath : PosixPath} :
    logWrite x d spec.invocationId ∈ (x.tryBody d spec packagePath).calls ↔
      (∃ container, d.run packagePath = .ok (some container)) ∧
      ((∃ value code, d.wait spec.timeoutSeconds = .ok value ∧ extractExitCode d value = .ok code) ∨
        ∃ f, d.wait spec.timeoutSeconds = .error f ∧ f.exception.isTimeoutError = true) ∧
      d.stderrBytes ≠ [] := by
  unfold tryBody
  constructor
  · intro h
    rw [Traced.mem_bind_calls, Traced.mem_perform_calls] at h
    rcases h with h | ⟨container, hrun, h⟩
    · cases h
    cases container with
    | none => cases h
    | some container =>
      refine ⟨⟨container, hrun⟩, ?_⟩
      unfold useContainer at h
      dsimp only at h
      split at h
      · rename_i value hwait
        rw [Traced.mem_bind_calls, Traced.mem_perform_calls] at h
        rcases h with h | ⟨u, -, h⟩
        · cases h
        obtain ⟨⟨code, hcode⟩, hne⟩ := logWrite_mem_exitedResult.mp h
        exact ⟨.inl ⟨value, code, hwait, hcode⟩, hne⟩
      · rename_i f hwait
        split at h
        · rename_i htimeout
          rw [Traced.mem_bind_calls, Traced.mem_perform_calls] at h
          rcases h with h | ⟨u, -, h⟩
          · cases h
          exact ⟨.inr ⟨f, hwait, htimeout⟩, logWrite_mem_timeoutResult.mp h⟩
        · rw [Traced.mem_perform_calls] at h
          cases h
  · rintro ⟨⟨container, hrun⟩, hended, hne⟩
    refine Traced.mem_bind_calls.mpr (.inr ⟨some container, hrun, ?_⟩)
    unfold useContainer
    rcases hended with ⟨value, code, hwait, hcode⟩ | ⟨f, hwait, htimeout⟩
    · rw [hwait]
      refine Traced.mem_bind_calls.mpr (.inr ⟨(), rfl, ?_⟩)
      exact logWrite_mem_exitedResult.mpr ⟨⟨code, hcode⟩, hne⟩
    · rw [hwait]
      dsimp only
      rw [if_pos htimeout]
      exact Traced.mem_bind_calls.mpr (.inr ⟨(), rfl, logWrite_mem_timeoutResult.mpr hne⟩)

/-- **An execution writes its logs exactly if it gets as far as the log file.** -/
theorem logWrite_mem_iff :
    logWrite x d spec.invocationId ∈ (x.executeContainerCalls d spec).calls ↔ Opens x d spec := by
  unfold executeContainerCalls
  constructor
  · intro h
    rw [Traced.mem_bind_calls, Traced.mem_perform_calls] at h
    rcases h with h | ⟨u, hclient, h⟩
    · cases h
    dsimp only at h
    split at h
    · cases h
    · rename_i hpackage
      rw [Traced.mem_bind_calls, Traced.mem_perform_calls] at h
      rcases h with h | ⟨v, hinput, h⟩
      · cases h
      rw [Traced.ensure_calls, List.mem_append, cleanup_eq] at h
      rcases h with h | h
      · obtain ⟨hrun, hended, hne⟩ := logWrite_mem_tryBody.mp h
        exact ⟨hclient, not_not.mp hpackage, hinput, hrun, hended, hne⟩
      · exact absurd h logWrite_not_mem_cleanup
  · intro h
    refine Traced.mem_bind_calls.mpr (.inr ⟨(), h.client, ?_⟩)
    dsimp only
    rw [if_neg (not_not.mpr h.package)]
    refine Traced.mem_bind_calls.mpr (.inr ⟨(), h.input, ?_⟩)
    rw [Traced.ensure_calls]
    exact List.mem_append_left _ (logWrite_mem_tryBody.mpr ⟨h.started, h.ended, h.printed⟩)

/-- The plan is for a container, and the execution opens the log file. -/
def Logs (x : DockerRuntimeExecutor) (d : Docker) (plan : Plan) : Prop :=
  ∃ spec ∈ plan.spec, Opens x d spec

/-! ## The files afterwards -/

/-- What is in the log file after an execution that has opened it. -/
def logContents (x : DockerRuntimeExecutor) (d : Docker) (left : List UInt8) : List UInt8 :=
  if d.writeLogs.toBool then d.stderrBytes.take x.maxLogBytes else left

section Files

variable {input left : List UInt8} {id u : UUID} {files : Files (List UInt8)}

theorem applyCall_writeInput (path : PosixPath) :
    x.applyCall d input left id files (.writeInput path) =
      files.write path (if d.writeInput.toBool then input else left) := rfl

theorem applyCall_write (path : PosixPath) (contents : List UInt8) :
    x.applyCall d input left id files (.write (path, contents)) =
      files.write path (if (if path = x.logPath id then d.writeLogs else d.writeResult).toBool
        then contents else left) := rfl

theorem applyCall_unlink (path : PosixPath) (missingOk : Bool) :
    x.applyCall d input left id files (.unlink path missingOk) =
      if d.unlink.toBool then files.remove path else files := by
  cases hu : d.unlink.toBool <;> simp [applyCall, leaves, hu]

theorem read_applyCall_logWrite :
    (x.applyCall d input left id files (logWrite x d id)).read (x.logPath id) =
      some (logContents x d left) := by
  rw [logWrite, applyCall_write, if_pos rfl]
  exact Files.read_write_same rfl

theorem read_applyCall_other {call : ContainerCall} (h : Permitted x d id call)
    (hne : call ≠ logWrite x d id ∨ u ≠ id) :
    (x.applyCall d input left id files call).read (x.logPath u) = files.read (x.logPath u) := by
  cases call with
  | writeInput path =>
    have hpath : path = x.inputPath id := h
    rw [applyCall_writeInput, Files.read_write_other]
    rw [hpath]
    exact logPath_ne_inputPath u id
  | unlink path missingOk =>
    have hpath : path = x.inputPath id := h
    rw [applyCall_unlink]
    split
    · rw [Files.read_remove_other]
      rw [hpath]
      exact logPath_ne_inputPath u id
    · rfl
  | write file =>
    obtain ⟨path, contents⟩ := file
    rw [applyCall_write, Files.read_write_other]
    rcases h with hresult | ⟨-, hlog⟩
    · have hpath : path = x.resultPath id := hresult
      rw [hpath]
      exact logPath_ne_resultPath u id
    · have hpath : path = x.logPath id := (Prod.mk.inj (ContainerCall.write.inj hlog)).1
      rw [hpath]
      exact logPath_ne_logPath (hne.resolve_left fun hn => hn hlog)
  | fromEnv | run | wait | kill | logs | reload | remove => rfl

/-- The log file of another invocation, or of an execution that has not opened it. -/
theorem read_applyCalls_other {calls : List ContainerCall} (h : ∀ c ∈ calls, Permitted x d id c)
    (hne : logWrite x d id ∉ calls ∨ u ≠ id) :
    (x.applyCalls d input left id files calls).read (x.logPath u) = files.read (x.logPath u) := by
  induction calls generalizing files with
  | nil => rfl
  | cons c calls ih =>
    have hc : c ≠ logWrite x d id ∨ u ≠ id :=
      hne.imp_left fun hn heq => hn (heq ▸ List.mem_cons_self)
    have hrest : logWrite x d id ∉ calls ∨ u ≠ id :=
      hne.imp_left fun hn hm => hn (List.mem_cons_of_mem _ hm)
    show (x.applyCalls d input left id (x.applyCall d input left id files c) calls).read _ = _
    rw [ih (fun c' hc' => h c' (List.mem_cons_of_mem _ hc')) hrest,
      read_applyCall_other (h c List.mem_cons_self) hc]

/-- The log file of an execution that has opened it. -/
theorem read_applyCalls_log {calls : List ContainerCall} (h : ∀ c ∈ calls, Permitted x d id c)
    (hlog : logWrite x d id ∈ calls) :
    (x.applyCalls d input left id files calls).read (x.logPath id) = some (logContents x d left) := by
  induction calls generalizing files with
  | nil => cases hlog
  | cons c calls ih =>
    show (x.applyCalls d input left id (x.applyCall d input left id files c) calls).read _ = _
    have hrest : ∀ c' ∈ calls, Permitted x d id c' := fun c' hc' => h c' (List.mem_cons_of_mem _ hc')
    by_cases hlater : logWrite x d id ∈ calls
    · exact ih hrest hlater
    · have hc : logWrite x d id = c := by
        rcases List.mem_cons.mp hlog with hc | hc
        · exact hc
        · exact absurd hc hlater
      rw [read_applyCalls_other hrest (.inl hlater), ← hc, read_applyCall_logWrite]

end Files

/-! ## A whole call of the executor -/

section Execute

variable {plan : Plan} {id u : UUID} {input left : List UInt8} {files : Files (List UInt8)}

theorem makes_executeCalls (h : ∀ spec ∈ plan.spec, spec.invocationId = id) :
    Traced.Makes (Permitted x d id) (x.executeCalls d plan) := by
  cases plan with
  | finished result => exact Traced.makes_pure _
  | raised e => exact Traced.makes_raise _
  | container spec =>
    rw [← h spec rfl]
    exact makes_executeContainerCalls

theorem logs_iff (h : ∀ spec ∈ plan.spec, spec.invocationId = id) :
    Logs x d plan ↔ logWrite x d id ∈ (x.executeCalls d plan).calls := by
  cases plan with
  | finished result => simp [Logs, Plan.spec, executeCalls, pure, Traced.pure]
  | raised e => simp [Logs, Plan.spec, executeCalls, Traced.raise]
  | container spec =>
    rw [← h spec rfl]
    show _ ↔ logWrite x d spec.invocationId ∈ (x.executeContainerCalls d spec).calls
    rw [logWrite_mem_iff]
    simp [Logs, Plan.spec]

/-- An execution that opens the log file leaves its logs there, or what a failed write leaves. -/
theorem read_log (h : ∀ spec ∈ plan.spec, spec.invocationId = id) (hlog : Logs x d plan) :
    (x.applyCalls d input left id files (x.executeCalls d plan).calls).read (x.logPath id) =
      some (logContents x d left) :=
  read_applyCalls_log (makes_executeCalls h) ((logs_iff h).mp hlog)

/-- An execution touches one log file at most. -/
theorem read_log_other (h : ∀ spec ∈ plan.spec, spec.invocationId = id)
    (hne : ¬ Logs x d plan ∨ u ≠ id) :
    (x.applyCalls d input left id files (x.executeCalls d plan).calls).read (x.logPath u) =
      files.read (x.logPath u) :=
  read_applyCalls_other (makes_executeCalls h) (hne.imp_left (mt (logs_iff h).mpr))

/-- A reference that is passed on to `mark_finished` names the log file, which holds the logs. -/
theorem processedResult_logsRef (h : ∀ spec ∈ plan.spec, spec.invocationId = id)
    (hplan : ∀ result, plan = .finished result → result.logsRef = none) {ref : String}
    (href : (processedResult (x.executeCalls d plan)).logsRef = some ref) :
    ref = storageRef x.workspaceRoot (x.logPath id) ∧ Logs x d plan ∧ d.writeLogs = .ok () := by
  unfold processedResult at href
  split at href
  · rename_i result hresult
    cases plan with
    | finished result' =>
      cases hresult
      rw [hplan _ rfl] at href
      cases href
    | raised e => cases hresult
    | container spec =>
      have hid := h spec rfl
      have hreferred := executeContainerCalls_referred hresult href
      rw [hid] at hreferred
      exact ⟨hreferred.ref_eq, (logs_iff h).mpr hreferred.logged, hreferred.written⟩
  · cases href

end Execute

theorem planExecution_logsRef {db : Database} {task : InvocationTask} {now : Time}
    {result : RuntimeExecutionResult} (h : planExecution db task now = .finished result) :
    result.logsRef = none := by
  rw [planExecution_finished h]
  rfl

theorem planExecution_invocationId {db : Database} {task : InvocationTask} {now : Time}
    {spec : RuntimeInvocationSpec} (h : spec ∈ (planExecution db task now).spec) :
    spec.invocationId = task.invocationId := by
  have hplan := Plan.spec_some h
  unfold planExecution at hplan
  dsimp only at hplan
  split at hplan
  · cases hplan
  split at hplan
  · cases hplan
  rename_i loaded hload
  cases hplan
  unfold Database.loadInvocationSpec at hload
  dsimp only at hload
  split at hload
  · cases hload
  · rename_i i v f hfound
    cases hload
    simp only [Option.bind_eq_bind, Option.bind_eq_some_iff] at hfound
    obtain ⟨i', hi, u, -, v', -, f', -, he⟩ := hfound
    cases he
    have hid : i.id = task.invocationId := Table.get_key hi
    exact hid

end Serverless.Runtime
