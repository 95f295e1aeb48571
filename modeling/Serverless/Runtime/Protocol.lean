import Serverless.Model.PackagePaths
import Serverless.Model.Runner
import Serverless.Runtime.Outcomes

/-!
# Runner and worker on one channel

The runner prints its envelope on the standard output that the user module has already
printed to while it was imported. The worker strips white space and decodes the rest, so
the two agree about a module exactly if it prints nothing visible at that time; what the
handler prints never matters.
-/
namespace Serverless.Runtime

open Serverless.Library Serverless.Model

/-- The value is in the result, or the result refers to a file with its text. -/
def CarriesValue (x : DockerRuntimeExecutor) (v : JsonValue) (result : RuntimeExecutionResult)
    (files : List File) : Prop :=
  if (Utf8.encode (x.lib.dumps v)).length ≤ x.maxInlineResultBytes then
    result.resultInline = v ∧ result.resultRef = none
  else ∃ ref, result.resultRef = some ref ∧ ∃ file ∈ files,
    (resolvePath x.workspaceRoot ref).resolve = file.1.resolve ∧
      file.2 = Utf8.encode (x.lib.dumps v)

/-- The result says how the handler ended. -/
def Reports (x : DockerRuntimeExecutor) :
    HandlerOutcome → RuntimeExecutionResult → List File → Prop
  | .returned v, result, files => result.status = .succeeded ∧ CarriesValue x v result files
  | .raised errorType errorMessage _, result, _ =>
    result.status = .failed ∧ result.errorType = some errorType ∧
      result.errorMessage = some errorMessage

/-- The worker comes to a result, and it says how the handler ended. -/
def Agrees (x : DockerRuntimeExecutor) (o : HandlerOutcome)
    (ended : Except PyException (RuntimeExecutionResult × List File)) : Prop :=
  ∃ result files, ended = .ok (result, files) ∧ Reports x o result files

theorem not_agrees_error {x : DockerRuntimeExecutor} {o : HandlerOutcome} (e : PyException) :
    ¬ Agrees x o (.error e) := by
  rintro ⟨result, files, he, -⟩
  cases he

theorem agrees_ok {x : DockerRuntimeExecutor} {o : HandlerOutcome} {result : RuntimeExecutionResult}
    {files : List File} : Agrees x o (.ok (result, files)) ↔ Reports x o result files := by
  constructor
  · rintro ⟨result', files', he, h⟩
    cases he
    exact h
  · exact fun h => ⟨result, files, rfl, h⟩

/-- `parse_runtime_output` on what a module leaves on standard output, and its exit code. -/
def parsedBy (F : Json.Format) (x : DockerRuntimeExecutor) (host : Host) (invocationId : UUID)
    (durationMs : Int) (logsRef containerId : Option String) (m : UserModule) :
    Except PyException (RuntimeExecutionResult × List File) :=
  x.parseRuntimeOutput host invocationId (Utf8.encode (runnerMain F m).stdout)
    (runnerMain F m).exitCode durationMs logsRef containerId

section

variable {F : Json.Format} {repr : JsonValue → String} {x : DockerRuntimeExecutor} {host : Host}
  {invocationId : UUID} {durationMs : Int} {logsRef containerId : Option String} {m : UserModule}

theorem isAbsolute_join {p : PosixPath} (h : p.isAbsolute) (q : PosixPath) :
    (p.join q).isAbsolute := by
  by_cases hq : q.isAbsolute
  · rw [PosixPath.join, if_pos hq]
    exact hq
  · intro hr
    rw [(PosixPath.join_relative p hq).1] at hr
    exact h hr

/-- `build_success_result` keeps the value, if the file that it may need can be written. -/
theorem buildSuccessResult_carries (habs : x.storageRoot.isAbsolute)
    (hdisk : host.writeResult = .ok ()) (v : JsonValue) (exitCode : Int) :
    Agrees x (.returned v)
      (x.buildSuccessResult host invocationId v durationMs logsRef containerId exitCode) := by
  unfold DockerRuntimeExecutor.buildSuccessResult
  dsimp only
  split
  · rename_i hsize
    refine agrees_ok.mpr ⟨rfl, ?_⟩
    rw [CarriesValue, if_pos hsize]
    exact ⟨rfl, rfl⟩
  · rename_i hsize
    rw [hdisk]
    refine agrees_ok.mpr ⟨rfl, ?_⟩
    rw [CarriesValue, if_neg hsize]
    have hpath : (x.resultPath invocationId).isAbsolute :=
      isAbsolute_join (isAbsolute_join habs _) _
    refine ⟨_, rfl, _, List.mem_singleton_self _, ?_, rfl⟩
    dsimp only
    exact resolvePath_storageRef x.workspaceRoot hpath

theorem dumps_envelope_ne_nil (F : Json.Format) (o : HandlerOutcome) :
    Json.dumps F [' '] o.envelope ≠ [] := by
  obtain ⟨text, he⟩ := o.dumps_envelope F
  rw [he]
  exact List.cons_ne_nil _ _

/-- Behind a blank import the worker decodes the envelope itself. -/
theorem loads_clean (hm : m.outcome.WellFormed F) (hblank : Text.Blank m.importText) :
    Json.loads F (Text.strip (runnerMain F m).stdout) = .ok m.outcome.envelope := by
  rw [strip_runnerMain, Text.dropWhile_blank hblank, List.nil_append]
  have hpad : ∀ c ∈ [' '], Json.isWs c = true := fun c hc => by rw [List.mem_singleton.mp hc]; rfl
  exact Json.loads_dumps hpad (HandlerOutcome.envelope_encodable hm)
    (HandlerOutcome.envelope_depth hm)

/-- Behind anything visible it decodes nothing. -/
theorem loads_noisy (hm : m.outcome.WellFormed F) (hnoise : ¬ Text.Blank m.importText) :
    ∃ e, Json.loads F (Text.strip (runnerMain F m).stdout) = .error e := by
  rw [strip_runnerMain]
  obtain ⟨text, he⟩ := m.outcome.dumps_envelope F
  cases hd : m.importText.dropWhile Text.isSpace with
  | nil => exact absurd (List.dropWhile_eq_nil_iff.mp hd) hnoise
  | cons c front =>
    have hc : Text.isSpace c = false := by
      have hhead := List.head?_dropWhile_not Text.isSpace m.importText
      rw [hd] at hhead
      simpa using hhead
    have hws : Json.isWs c = false := by
      by_contra hw
      rw [Bool.not_eq_false, Json.isWs, decide_eq_true_eq] at hw
      rcases hw with rfl | rfl | rfl | rfl <;> exact absurd hc (by decide)
    exact Json.loads_front (HandlerOutcome.envelope_encodable hm)
      (fun c hc => by rw [List.mem_singleton.mp hc]; rfl) he hws front

theorem outputText_encode (text : List Char) : outputText (Utf8.encode text) = Text.strip text := by
  rw [outputText, Utf8.decode_encode]

/-- There is always something to decode. -/
theorem outputText_ne_nil (F : Json.Format) (m : UserModule) :
    outputText (Utf8.encode (runnerMain F m).stdout) ≠ [] := by
  rw [outputText_encode, strip_runnerMain]
  exact List.append_ne_nil_of_right_ne_nil _ (dumps_envelope_ne_nil F m.outcome)

theorem loads_outputText_ok (hlib : x.lib = Json.pyLib F repr) {v : JsonValue}
    (h : Json.loads F (Text.strip (runnerMain F m).stdout) = .ok v) :
    x.lib.loads (outputText (Utf8.encode (runnerMain F m).stdout)) = .value v := by
  rw [outputText_encode, hlib]
  simp only [Json.pyLib, h]

theorem loads_outputText_error (hlib : x.lib = Json.pyLib F repr) {e : Json.LoadError}
    (h : Json.loads F (Text.strip (runnerMain F m).stdout) = .error e) :
    x.lib.loads (outputText (Utf8.encode (runnerMain F m).stdout)) = e.loaded := by
  rw [outputText_encode, hlib]
  simp only [Json.pyLib, h]

/-- What a text that does not decode is made into. -/
theorem parsedBy_undecodable (hlib : x.lib = Json.pyLib F repr) {msg : String}
    (h : Json.loads F (Text.strip (runnerMain F m).stdout) = .error (.decode msg)) :
    parsedBy F x host invocationId durationMs logsRef containerId m =
      failedWith m.outcome.exitCode durationMs logsRef containerId "InvalidRuntimeOutput"
        s!"Runtime stdout is not valid JSON: {msg}" :=
  (Parses.invalid (outputText_ne_nil F m) (loads_outputText_error hlib h)).eq

/-- A text that asks too much of the decoder ends in an exception. -/
theorem parsedBy_raised (hlib : x.lib = Json.pyLib F repr) {e : Json.LoadError} {exc : PyException}
    (h : Json.loads F (Text.strip (runnerMain F m).stdout) = .error e) (he : e.loaded = .raised exc) :
    parsedBy F x host invocationId durationMs logsRef containerId m = .error exc :=
  (Parses.raised (outputText_ne_nil F m) ((loads_outputText_error hlib h).trans he)).eq

/-- No value is reported from a text that does not decode. -/
theorem not_agrees_returned (hlib : x.lib = Json.pyLib F repr) {e : Json.LoadError} {v : JsonValue}
    (ho : m.outcome = .returned v)
    (h : Json.loads F (Text.strip (runnerMain F m).stdout) = .error e) :
    ¬ Agrees x m.outcome (parsedBy F x host invocationId durationMs logsRef containerId m) := by
  cases e with
  | decode msg =>
    rw [parsedBy_undecodable hlib h, failedWith, agrees_ok, ho]
    rintro ⟨hstatus, -⟩
    cases hstatus
  | tooManyDigits count =>
    rw [parsedBy_raised hlib h rfl]
    exact not_agrees_error _
  | tooDeep kind =>
    rw [parsedBy_raised hlib h rfl]
    exact not_agrees_error _

/-- A string that the envelope has is taken unless it is empty. -/
theorem textOr_str (lib : PyLib) {envelope : List (PyStr × JsonValue)} {key s : PyStr}
    (default : PyStr) (h : envelope.lookup key = some (.str s)) :
    lib.textOr envelope key default = if s = [] then default else s := by
  by_cases hs : s = []
  · simp [PyLib.textOr, h, JsonValue.truthy, hs]
  · simp [PyLib.textOr, h, JsonValue.truthy, PyLib.str, hs]

/-- Behind a blank import the worker agrees about every value, and about every exception whose
class has a name. -/
theorem agrees_envelope (hlib : x.lib = Json.pyLib F repr) (habs : x.storageRoot.isAbsolute)
    (hdisk : host.writeResult = .ok ()) (hm : m.outcome.WellFormed F)
    (h : Json.loads F (Text.strip (runnerMain F m).stdout) = .ok m.outcome.envelope) :
    Agrees x m.outcome (parsedBy F x host invocationId durationMs logsRef containerId m) ↔
      m.outcome.Named := by
  have hload := loads_outputText_ok hlib h
  have htext := outputText_ne_nil F m
  obtain ⟨importText, handlerText, outcome⟩ := m
  cases outcome with
  | returned v =>
    -- the envelope says `ok` and the exit code is zero
    have heq : parsedBy F x host invocationId durationMs logsRef containerId
        ⟨importText, handlerText, .returned v⟩ =
        x.buildSuccessResult host invocationId v durationMs logsRef containerId 0 :=
      (Parses.succeeded htext hload rfl rfl).eq
    rw [heq]
    exact iff_of_true (buildSuccessResult_carries habs hdisk v 0) trivial
  | raised errorType errorMessage traceback =>
    have hne : errorMessage ≠ [] := hm.1
    rw [parsedBy, (Parses.reported htext hload rfl).eq, textOr_str x.lib (s := errorType) _ rfl,
      textOr_str x.lib (s := errorMessage) _ rfl, if_neg hne]
    refine agrees_ok.trans ⟨?_, fun hname => ?_⟩
    · rintro ⟨-, he, -⟩ rfl
      exact absurd (Option.some.inj he) (by simp [CodePoint.ofString_eq_nil])
    · rw [if_neg hname]
      exact ⟨rfl, rfl, rfl⟩

/-- The worker's own text about an output that does not decode. -/
def InvalidOutput (F : Json.Format) (m : UserModule) : Prop :=
  ∃ msg traceback, Json.loads F (Text.strip (runnerMain F m).stdout) = .error (.decode msg) ∧
    m.outcome = .raised "InvalidRuntimeOutput" s!"Runtime stdout is not valid JSON: {msg}" traceback

/-- **Runner and worker agree about a module exactly if its import prints nothing visible** and
its exception, if it ends in one, is of a class with a name. The one coincidence apart from that is
an exception that already says what the worker says about an output it cannot decode. -/
theorem runner_worker_agree (hlib : x.lib = Json.pyLib F repr) (habs : x.storageRoot.isAbsolute)
    (hdisk : host.writeResult = .ok ()) (hm : m.outcome.WellFormed F) (invocationId : UUID)
    (durationMs : Int) (logsRef containerId : Option String) :
    Agrees x m.outcome (parsedBy F x host invocationId durationMs logsRef containerId m) ↔
      Text.Blank m.importText ∧ m.outcome.Named ∨ InvalidOutput F m := by
  by_cases hblank : Text.Blank m.importText
  · have hload := loads_clean hm hblank
    rw [agrees_envelope hlib habs hdisk hm hload]
    constructor
    · exact fun hnamed => Or.inl ⟨hblank, hnamed⟩
    · rintro (⟨-, hnamed⟩ | ⟨msg, traceback, herror, -⟩)
      · exact hnamed
      · rw [hload] at herror
        cases herror
  obtain ⟨e, hload⟩ := loads_noisy hm hblank
  constructor
  · intro h
    cases ho : m.outcome with
    | returned v => exact absurd h (not_agrees_returned hlib ho hload)
    | raised errorType errorMessage traceback =>
      cases e with
      | tooManyDigits count =>
        rw [parsedBy_raised hlib hload rfl] at h
        exact absurd h (not_agrees_error _)
      | tooDeep kind =>
        rw [parsedBy_raised hlib hload rfl] at h
        exact absurd h (not_agrees_error _)
      | decode msg =>
        rw [parsedBy_undecodable hlib hload, failedWith, agrees_ok, ho] at h
        obtain ⟨-, htype, hmessage⟩ := h
        cases htype
        cases hmessage
        exact Or.inr ⟨msg, traceback, hload, ho⟩
  · rintro (⟨h, -⟩ | ⟨msg, traceback, herror, ho⟩)
    · exact absurd h hblank
    · rw [parsedBy_undecodable hlib herror, failedWith, agrees_ok, ho]
      exact ⟨rfl, rfl, rfl⟩

end

/-- Enough of the float text law for values without floats, under the default recursion limit. -/
def noFloats : Json.Format where
  isFloat _ := False
  repr _ := []
  value _ := some 0
  room := 900
  two_le_room := by decide
  token _ h := h.elim
  value_repr _ h := h.elim

/-- The executor under its default settings. -/
def demoExecutor : DockerRuntimeExecutor where
  lib := Json.pyLib noFloats fun _ => ""
  workspaceRoot := .parse "/srv/platform"
  storageRoot := .parse "/srv/platform/storage"
  maxInlineResultBytes := 32768
  maxLogBytes := 262144

theorem demoExecutor_lib : demoExecutor.lib = Json.pyLib noFloats fun _ => "" := rfl

/-- A host on which everything works, with a container that prints nothing and exits. -/
def demoHost : Host where
  client := .ok ()
  packageExists _ := true
  writeInput := .ok ()
  run _ := .ok ()
  containerId := some "f00d"
  wait _ := .exited 0
  elapsedMs := 12
  stderr := .ok []
  writeLogs := .ok ()
  oomKilled := false
  stdout := .ok []
  writeResult := .ok ()

/-- A module that prints in both phases, at its import no more than a line break. -/
def quietModule : UserModule :=
  ⟨['\n'], ['h', 'i'], .returned (.dict [("message", .str "hello Ada")])⟩

theorem quietModule_blank : Text.Blank quietModule.importText := by
  intro c hc
  rw [List.mem_singleton.mp hc]
  decide

theorem runner_worker_agree_quiet : quietModule.outcome.WellFormed noFloats ∧
    Agrees demoExecutor quietModule.outcome
      (parsedBy noFloats demoExecutor demoHost 3 12 none (some "f00d") quietModule) := by
  have hm : quietModule.outcome.WellFormed noFloats :=
    Json.carried_field (CodePoint.joined_ofString _) (CodePoint.joined_ofString _)
  have habs : demoExecutor.storageRoot.isAbsolute := by decide +kernel
  have hdisk : demoHost.writeResult = .ok () := rfl
  have hiff := runner_worker_agree demoExecutor_lib habs hdisk hm 3 12 none (some "f00d")
  exact ⟨hm, hiff.mpr (Or.inl ⟨quietModule_blank, trivial⟩)⟩

/-- A module that says at its import that it is loading. -/
def noisyModule : UserModule :=
  ⟨['l', 'o', 'a', 'd', 'i', 'n', 'g', '\n'], [], .returned .null⟩

/-- **A line printed at import turns a success into a failure.** -/
theorem import_print_corrupts : noisyModule.outcome.WellFormed noFloats ∧
    ¬ Agrees demoExecutor noisyModule.outcome
      (parsedBy noFloats demoExecutor demoHost 3 12 none (some "f00d") noisyModule) := by
  have hm : noisyModule.outcome.WellFormed noFloats := ⟨.null, by decide⟩
  refine ⟨hm, fun h => ?_⟩
  have hnoise : ¬ Text.Blank noisyModule.importText :=
    fun hb => absurd (hb 'l' List.mem_cons_self) (by decide)
  obtain ⟨e, hload⟩ := loads_noisy hm hnoise
  exact not_agrees_returned demoExecutor_lib rfl hload h

end Serverless.Runtime
