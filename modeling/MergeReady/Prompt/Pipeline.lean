import MergeReady.Evaluation.Refresh
import MergeReady.Prompt.Query

/-!
# From GitHub to the prompt

When the daemon gets its updates from refreshes, what a prompt prints is what one of them rendered
for the repository of its directory.  Nothing on the way changes it: the report, the store, the
answer and the sanitizer.
-/

namespace MergeReady.Prompt

open MergeReady.Lib MergeReady.Lib.Str MergeReady.Lib.Terminal
open MergeReady.Evaluation
open MergeReady.Shared (newline)
open MergeReady.Daemon

/-! ## Rendered texts are coloured -/

/-- The messages of errors are plain. -/
theorem noControl_intoToken (e : RepositoryError) : NoControl (intoToken e).message := by
  cases e <;> exact noControl_of_all (by decide)

section

variable {fromUtf8Lossy : List UInt8 → String} {json : GhJson} {paint : AnsiStyle → Str → Str}

/-- What a refresh renders is coloured, whatever `gh` answers. -/
theorem coloured_rendered (hp : Paints paint) {config : DisplayConfig}
    {compiled : CompiledDisplayConfig} (hclean : CleanConfig config)
    (h : config.compile = .ok compiled) (c : Checkout) :
    Coloured (c.rendered fromUtf8Lossy json paint compiled).output := by
  have hfrom := compiledFrom_of_compile h
  unfold Checkout.rendered
  cases c.prompt fromUtf8Lossy json with
  | error e => exact coloured_renderErrorToken hp hclean.error hfrom.error (noControl_intoToken e)
  | ok prompt =>
    cases prompt with
    | pullRequests prs => exact coloured_render hp hclean h prs
    | noPullRequest =>
      have htoken : config.noPullRequest ∈ tokensOf config := by simp [tokensOf]
      show Coloured (renderToken paint compiled.noPullRequest none)
      refine coloured_renderToken hp (hclean.token _ htoken) hfrom.noPullRequest fun _ hids => ?_
      cases hids
    | noRepository => exact .nil
    | unsupportedRepository => exact .nil
    | defaultBranch => exact .nil

end

/-! ## What the prompt shows -/

/-- A coloured answer is printed as it is. -/
theorem ofOutput_of_coloured {out : String} (h : Coloured out.toList) :
    Prompted.ofOutput (some out) = { printed := out, spawnedDaemon := false } := by
  rw [Prompted.ofOutput, sanitizeOutput_eq_self h]

section

variable {ι : Type*} [DecidableEq ι] {config : DaemonServerConfig} {startedAt : Instant}
  {e₀ : Surroundings} {evs : List (ActorEvent ι Surroundings DaemonCommand DaemonReply)}
  {S : Actors ι Surroundings DaemonState DaemonCommand DaemonReply}
  (fromUtf8Lossy : List UInt8 → String) (ghJson : GhJson) (paint : AnsiStyle → Str → Str)

/-- Every update that is sent to the daemon is the report of a refresh, from a configuration without
control characters. -/
def ReportsRefreshes (evs : List (ActorEvent ι Surroundings DaemonCommand DaemonReply)) : Prop :=
  ∀ i repoId output mode prs, .send i (.process (.update repoId output mode prs)) ∈ evs →
    ∃ config compiled, ∃ c : Checkout, CleanConfig config ∧ config.compile = .ok compiled ∧
      .update repoId output mode prs =
        refreshCallback ⟨repoId⟩ (c.rendered fromUtf8Lossy ghJson paint compiled)

/-- The text is what a refresh of `repoId` rendered, and its report is among the commands. -/
def Rendered (commands : List (ServedCommand ι)) (repoId text : String) : Prop :=
  ∃ x ∈ commands, ∃ config compiled, ∃ c : Checkout, CleanConfig config ∧
    config.compile = .ok compiled ∧
    x.cmd = .process (refreshCallback ⟨repoId⟩ (c.rendered fromUtf8Lossy ghJson paint compiled)) ∧
    text = String.ofList (c.rendered fromUtf8Lossy ghJson paint compiled).output

variable {fromUtf8Lossy} {ghJson} {paint} {requestToString : Shared.Request → Option Str}
  {fromStr : Str → Option Shared.Request} {responseToString : Shared.Response → Option Str}
  {fromSlice : List UInt8 → Option Shared.Response} {i : ι} {reqJson json : Str} {p : Processed}
  (req : Request) (stream : Socket)

/-- **From GitHub to the prompt.**  Whatever `gh` answers to the refreshes, whatever else the tasks
of the daemon do and however the answer is cut into pieces: a prompt that gets its answer in time
prints nothing for a directory in no repository, the placeholder where the repository has no result,
and else what a refresh of that repository rendered, character for character.  A prompt that does not
get it prints the placeholder and starts a daemon. -/
theorem prompt_shows_rendered (hpaint : Paints paint) (hr : DaemonRun config startedAt e₀ evs S)
    (hreports : ReportsRefreshes fromUtf8Lossy ghJson paint evs)
    (hreq : RequestText requestToString fromStr (.query req.cwd) reqJson)
    (hlen : byteLen reqJson < MAX_REQUEST_BYTES)
    (hcall : ∀ request, requestOf fromStr (utf8 (req.encode requestToString)) = some request →
      .call i (.process request) ∈ evs)
    (hrecv : .receive i (.result p) ∈ evs)
    (hresp : ResponseText responseToString fromSlice p.response json)
    (hstream : stream.pieces.flatMap (·.bytes) <+: responseLine responseToString p.response)
    (hrep : -(2 ^ 63 * 1000000000) ≤ e₀.now.nanos - backdate config.staleTtlSecs) :
    ∃ before x after, servedOf evs = before ++ x :: after ∧ x.caller = i ∧
      (¬ Complete json (arrived (deadlineFrom stream.clock) stream)
          (EndsInTime (deadlineFrom stream.clock) stream) →
        main fromSlice (some stream) = { printed := loadingOutput, spawnedDaemon := true }) ∧
      (Complete json (arrived (deadlineFrom stream.clock) stream)
          (EndsInTime (deadlineFrom stream.clock) stream) →
        (x.env.repoInfoFromCwd req.cwd = none →
          main fromSlice (some stream) = { printed := "", spawnedDaemon := false }) ∧
        ∀ repoId branch, x.env.repoInfoFromCwd req.cwd = some (repoId, branch) →
          ∃ calls s, CallsOf config before calls ∧ Run Step .new calls s ∧
            ((resultOf ⟨repoId⟩ calls).join = none →
              main fromSlice (some stream) = { printed := loadingOutput, spawnedDaemon := false }) ∧
            ∀ text, (resultOf ⟨repoId⟩ calls).join = some text →
              Rendered fromUtf8Lossy ghJson paint before repoId text ∧
              main fromSlice (some stream) = { printed := text, spawnedDaemon := false }) := by
  obtain ⟨before, x, after, out, hserved, hxi, hout, -, hmain⟩ :=
    prompt_answer req stream hr hreq hlen hcall hrecv hresp hstream hrep
  refine ⟨before, x, after, hserved, hxi, fun hlate => ?_, fun hcomplete => ?_⟩
  · rw [hmain, if_neg hlate, Prompted.ofOutput]
    exact congrArg (Prompted.mk · true) (sanitizeOutput_eq_self coloured_loadingOutput)
  rw [if_pos hcomplete] at hmain
  rcases hout with ⟨hinfo, rfl⟩ | ⟨repoId, branch, calls, s, hinfo, hcalls, hstore, rfl⟩
  · refine ⟨fun _ => hmain.trans (ofOutput_of_coloured .nil), fun repoId branch h => ?_⟩
    rw [hinfo] at h
    cases h
  · refine ⟨fun h => ?_, fun repoId' branch' h => ?_⟩
    · rw [hinfo] at h
      cases h
    obtain ⟨rfl, rfl⟩ := Prod.mk.inj (Option.some.inj (hinfo.symm.trans h))
    refine ⟨calls, s, hcalls, hstore, fun hnone => ?_, fun text htext => ?_⟩
    · rw [answer, hnone] at hmain
      exact hmain.trans (ofOutput_of_coloured coloured_loadingOutput)
    · obtain ⟨y, hy, mode, prs, hcmd⟩ := reported_of_result hcalls htext
      have hsent := sent_of_mem_before hr hserved hy
      rw [hcmd] at hsent
      obtain ⟨display, compiled, c, hclean, hcompile, hupdate⟩ := hreports _ _ _ _ _ hsent
      obtain ⟨-, hrendered, -⟩ := Shared.Request.update.inj hupdate
      refine ⟨⟨y, hy, display, compiled, c, hclean, hcompile, ?_, hrendered⟩, ?_⟩
      · rw [hcmd, hupdate]
      · rw [answer, htext] at hmain
        refine hmain.trans (ofOutput_of_coloured ?_)
        have hcol := @coloured_rendered fromUtf8Lossy ghJson paint hpaint _ _ hclean hcompile c
        show Coloured text.toList
        rw [hrendered, String.toList_ofList]
        exact hcol

end

namespace Reported

open MergeReady.Daemon.Session

theorem cleanConfig_default : CleanConfig DisplayConfig.default where
  token token h := by
    simp only [tokensOf, List.mem_cons, List.not_mem_nil, or_false] at h
    rcases h with rfl | rfl | rfl | rfl | rfl | rfl | rfl | rfl | rfl | rfl | rfl | rfl | rfl <;>
      exact ⟨by decide, by decide, by decide⟩
  error := ⟨by decide, by decide⟩

/-- The report of a refresh that found one open PR. -/
def report : ServedCommand ℕ :=
  ⟨1, .process (.update repo.inner "✓ Ready for merge" .warm [⟨12, "✓ Ready for merge"⟩]), around 4,
    .result (.reply .ok)⟩

def served : List (ServedCommand ℕ) := [firstQuery, report, secondQuery]

theorem mem_served {x : ServedCommand ℕ} :
    x ∈ served ↔ x = firstQuery ∨ x = report ∨ x = secondQuery := by
  simp only [served, List.mem_cons, List.not_mem_nil, or_false]

theorem report_eq {config : CompiledDisplayConfig} (h : DisplayConfig.default.compile = .ok config)
    (fromUtf8Lossy : List UInt8 → String) (paint : AnsiStyle → Str → Str) :
    report.cmd = .process (refreshCallback repo
      (Topic.checkout.rendered fromUtf8Lossy Topic.json paint config)) := by
  rw [Topic.rendered_checkout h]
  rfl

theorem exists_run : ∃ evs S, Run (Actors.Step (stateActor .defaults (.ofSecs 0)))
    ((stateActor .defaults (.ofSecs 0)).init ℕ (around 0)) evs S ∧ servedOf evs = served ∧
    (∀ i cmd, .send i cmd ∈ evs → ∃ x ∈ served, x.cmd = cmd) ∧
    ∀ x ∈ served, .call x.caller x.cmd ∈ evs ∧ .receive x.caller x.reply ∈ evs := by
  have hr : Run (stateActor .defaults (.ofSecs 0)).SeqStep
      (DaemonState.new .defaults (.ofSecs 0)) served _ :=
    .cons rfl (.cons rfl (.cons rfl (.nil _)))
  have hall : ∀ x ∈ served, around 0 ≤ x.env ∧ x.cmd.StampedAt x.env := by
    intro x hx
    rcases mem_served.1 hx with rfl | rfl | rfl
    · exact ⟨Surroundings.le_def.2 (by decide), trivial⟩
    · exact ⟨Surroundings.le_def.2 (by decide), trivial⟩
    · exact ⟨Surroundings.le_def.2 (by decide), trivial⟩
  have hpair : served.Pairwise fun x y => x.env ≤ y.env := by
    simp only [served, List.pairwise_cons, Surroundings.le_def]
    decide
  obtain ⟨evs, S, hS, hserved, hactor, hbox, hcalls⟩ := Actors.exists_run_of_seq
    (S := (stateActor .defaults (.ofSecs 0)).init ℕ (around 0))
    (show 0 < COMMAND_CHANNEL_SIZE by decide) Served.env hr rfl rfl (fun _ _ => rfl)
    (fun x hx => (hall x hx).1) (by decide) hpair fun x hx => ⟨(hall x hx).2, le_rfl⟩
  refine ⟨evs, S, hS, hserved, fun i cmd hsend => ?_, hcalls⟩
  have hsent := (Actors.fifo hS).2 _ hactor
  rw [hbox, List.append_nil, hserved] at hsent
  have hmem : (i, cmd) ∈ served.map Served.sent := by
    rw [hsent]
    exact List.mem_append_right _ (mem_sentOf.2 hsend)
  obtain ⟨x, hx, heq⟩ := List.mem_map.1 hmem
  exact ⟨x, hx, congrArg Prod.snd heq⟩

/-- The one update that is sent is a report. -/
theorem reportsRefreshes {evs : List (ActorEvent ℕ Surroundings DaemonCommand DaemonReply)}
    (hsent : ∀ i cmd, .send i cmd ∈ evs → ∃ x ∈ served, x.cmd = cmd)
    (fromUtf8Lossy : List UInt8 → String) (paint : AnsiStyle → Str → Str) :
    ReportsRefreshes fromUtf8Lossy Topic.json paint evs := by
  obtain ⟨compiled, hcompiled⟩ := DisplayConfig.returns_compile_default
  have hreport := report_eq hcompiled fromUtf8Lossy paint
  intro i repoId output mode prs hsend
  obtain ⟨x, hx, hcmd⟩ := hsent _ _ hsend
  rcases mem_served.1 hx with rfl | rfl | rfl
  · cases hcmd
  · refine ⟨_, compiled, Topic.checkout, cleanConfig_default, hcompiled, ?_⟩
    cases hcmd
    exact DaemonCommand.process.inj hreport
  · cases hcmd

theorem main_ready : main Ready.fromSlice (some Ready.stream) =
    { printed := "✓ Ready for merge", spawnedDaemon := false } := by
  have hresponse : responseOf Ready.fromSlice
      (arrived (deadlineFrom Ready.stream.clock) Ready.stream) = some "✓ Ready for merge" := by decide
  rw [main_of_socket, if_pos (by decide), hresponse]
  exact ofOutput_of_coloured (coloured_of_plain (noControl_of_all (by decide)))

end Reported

open Ready Reported Daemon.Session in
/-- What `gh` answered at the refresh is printed in full. -/
theorem prompt_shows_rendered_topic : ∃ before after,
    Reported.served = before ++ secondQuery :: after ∧
    Rendered (fun _ => "") Topic.json paintBoldGreen before repo.inner "✓ Ready for merge" ∧
    main fromSlice (some stream) = { printed := "✓ Ready for merge", spawnedDaemon := false } := by
  obtain ⟨evs, S, hr, hserved, hsent, hall⟩ := Reported.exists_run
  obtain ⟨hcall, hrecv⟩ := hall secondQuery (by simp [Reported.served])
  have hreports := reportsRefreshes hsent (fun _ => "") paintBoldGreen
  have hrequest : ∀ request, requestOf fromStr (utf8 (Request.encode requestToString ⟨"/repo"⟩)) =
      some request → .call 2 (.process request) ∈ evs := by
    intro request h
    rw [requestOf_encode requestText (by decide)] at h
    exact Option.some.inj h ▸ hcall
  obtain ⟨before, x, after, hsplit, hxi, -, hshows⟩ := prompt_shows_rendered ⟨"/repo"⟩ stream
    paints_paintBoldGreen hr hreports requestText (by decide) hrequest hrecv responseText
    (by decide) (by decide)
  have hx : x ∈ Reported.served := by
    rw [← hserved, hsplit]
    exact List.mem_append_right _ List.mem_cons_self
  obtain rfl : x = secondQuery := by
    rcases mem_served.1 hx with rfl | rfl | rfl
    · cases hxi
    · cases hxi
    · rfl
  obtain ⟨calls, s, -, -, hnone, hsome⟩ := (hshows (by decide)).2 _ _ rfl
  cases hresult : (resultOf ⟨repo.inner⟩ calls).join with
  | none =>
    rw [main_ready] at hnone
    exact absurd (hnone hresult) (by decide)
  | some text =>
    obtain ⟨hrendered, hmain⟩ := hsome _ hresult
    obtain rfl : "✓ Ready for merge" = text :=
      congrArg Prompted.printed (main_ready.symm.trans hmain)
    exact ⟨before, after, hserved.symm.trans hsplit, hrendered, hmain⟩

end MergeReady.Prompt
