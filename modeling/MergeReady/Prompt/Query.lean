import MergeReady.Daemon.Actor
import MergeReady.Daemon.Connection
import MergeReady.Prompt.Deadline
import MergeReady.Prompt.Rendered

/-!
# A query of the prompt

From the directory the prompt runs in to the text it prints: the request is one line of JSON, the
daemon parses it and answers from its result map, the answer is one line of JSON again, and the
socket cuts that into pieces.  What the two sides need of JSON is said of the texts that are sent.
-/

namespace MergeReady.Prompt

open MergeReady.Lib MergeReady.Lib.Str MergeReady.Lib.Terminal
open MergeReady.Shared (newline)
open MergeReady.Daemon

/-! ## Texts of requests and responses -/

/-- `prompt_ipc::Request` -/
structure Request where
  cwd : String

section

-- `serde_json::to_string` and `serde_json::from_str` at requests
variable (requestToString : Shared.Request → Option Str) (fromStr : Str → Option Shared.Request)

def Request.encode (req : Request) : Str :=
  (requestToString (.query req.cwd)).getD [] ++ ['\n']

/-- What the daemon parses a connection's bytes into. -/
def requestOf (bytes : List UInt8) : Option Shared.Request :=
  (readRequestLine bytes).bind fun buf => fromStr buf.trim

/-- The text of a request in JSON: one line, with nothing around it, that is parsed into the
request. -/
structure RequestText (request : Shared.Request) (json : Str) : Prop where
  toString_eq : requestToString request = some json
  fromStr_eq : fromStr json = some request
  line : '\n' ∉ json
  first : json.dropWhile isWhitespace = json
  last : json.rdropWhile isWhitespace = json

end

section

-- `serde_json::to_string` and `serde_json::from_slice` at responses
variable (responseToString : Shared.Response → Option Str)
  (fromSlice : List UInt8 → Option Shared.Response)

/-- What a connection writes. -/
def responseLine (response : Shared.Response) : List UInt8 :=
  match responseToString response with
  | some json => utf8 (json ++ ['\n'])
  | none => []

/-- The text of a response in JSON: one line that is parsed into the response, and no less of it is
parsed. -/
structure ResponseText (response : Shared.Response) (json : Str) : Prop where
  toString_eq : responseToString response = some json
  fromSlice_eq : fromSlice (utf8 json) = some response
  ne_nil : json ≠ []
  line : '\n' ∉ json
  whole : ∀ bytes, bytes <+: utf8 json → bytes ≠ utf8 json → fromSlice bytes = none

end

/-! ## The line of a text -/

theorem utf8_newline : utf8 ['\n'] = [newline] := by decide

theorem newline_not_mem_utf8 {s : Str} (h : '\n' ∉ s) : newline ∉ utf8 s := by
  intro hmem
  obtain ⟨c, hc, hb⟩ := List.mem_flatMap.1 hmem
  by_cases hascii : c.toNat < 128
  · rw [utf8EncodeChar_of_ascii hascii, List.mem_singleton] at hb
    have hcode := congrArg UInt8.toNat hb
    rw [UInt8.toNat_ofNat', Nat.mod_eq_of_lt (by omega)] at hcode
    have hnl : c = '\n' := Char.ext (UInt32.toNat_inj.1 hcode.symm)
    exact h (hnl ▸ hc)
  · have hge := le_of_mem_utf8EncodeChar (not_lt.1 hascii) hb
    revert hge
    decide

theorem lineOf_append {bytes : List UInt8} (h : newline ∉ bytes) :
    lineOf (bytes ++ [newline]) = bytes ++ [newline] := by
  have hall : ∀ b ∈ bytes, decide (b ≠ newline) = true := fun b hb =>
    decide_eq_true fun heq => h (heq ▸ hb)
  rw [lineOf, List.takeWhile_append_of_pos hall, List.dropWhile_append_of_pos hall]
  simp

/-- **The daemon reads the request that the prompt writes.** -/
theorem requestOf_encode {requestToString : Shared.Request → Option Str}
    {fromStr : Str → Option Shared.Request} {req : Request} {json : Str}
    (h : RequestText requestToString fromStr (.query req.cwd) json)
    (hlen : byteLen json < MAX_REQUEST_BYTES) :
    requestOf fromStr (utf8 (req.encode requestToString)) = some (.query req.cwd) := by
  have hencode : req.encode requestToString = json ++ ['\n'] := by
    rw [Request.encode, h.toString_eq, Option.getD_some]
  have hbytes : utf8 (json ++ ['\n']) = utf8 json ++ [newline] := by rw [utf8_append, utf8_newline]
  have htake : (utf8 (json ++ ['\n'])).take MAX_REQUEST_BYTES = utf8 (json ++ ['\n']) := by
    apply List.take_of_length_le
    rw [hbytes, List.length_append, length_utf8]
    exact hlen
  have hread : readRequestLine (utf8 (json ++ ['\n'])) = some (json ++ ['\n']) := by
    rw [readRequestLine, htake, hbytes, lineOf_append (newline_not_mem_utf8 h.line), ← hbytes,
      fromUtf8_utf8]
    cases json <;> rfl
  have htrim : trim (json ++ ['\n']) = json :=
    trim_append h.first h.last (List.forall_mem_singleton.2 rfl)
  rw [requestOf, hencode, hread, Option.bind_some, htrim]
  exact h.fromStr_eq

/-! ## The answer -/

section Answer

variable {responseToString : Shared.Response → Option Str}
  {fromSlice : List UInt8 → Option Shared.Response} {out : String} {json : Str}

theorem responseLine_eq (h : ResponseText responseToString fromSlice (.output out) json) :
    responseLine responseToString (.output out) = utf8 json ++ [newline] := by
  rw [responseLine, h.toString_eq]
  dsimp only
  rw [utf8_append, utf8_newline]

theorem decode_text (h : ResponseText responseToString fromSlice (.output out) json) :
    Response.decode fromSlice (utf8 json) = some { output := out } := by
  have hall : ∀ b ∈ utf8 json, decide (b ≠ newline) = true := fun b hb =>
    decide_eq_true fun heq => newline_not_mem_utf8 h.line (heq ▸ hb)
  rw [Response.decode, List.takeWhile_eq_self_iff.2 hall, h.fromSlice_eq]

theorem decode_line (h : ResponseText responseToString fromSlice (.output out) json) :
    Response.decode fromSlice (utf8 json ++ [newline]) = some { output := out } := by
  have hall : ∀ b ∈ utf8 json, decide (b ≠ newline) = true := fun b hb =>
    decide_eq_true fun heq => newline_not_mem_utf8 h.line (heq ▸ hb)
  rw [← decode_takeWhile, List.takeWhile_append_of_pos hall, ← decode_text h]
  simp

/-- A part of a response without its end is not taken for one. -/
theorem decode_part (h : ResponseText responseToString fromSlice (.output out) json)
    {bytes : List UInt8} (hpre : bytes <+: utf8 json) (hne : bytes ≠ utf8 json) :
    Response.decode fromSlice bytes = none := by
  have hall : ∀ b ∈ bytes, decide (b ≠ newline) = true := fun b hb =>
    decide_eq_true fun heq => newline_not_mem_utf8 h.line (heq ▸ hpre.subset hb)
  rw [Response.decode, List.takeWhile_eq_self_iff.2 hall, h.whole bytes hpre hne]

/-- All of the response is there: its line, or its text and the end of the stream. -/
structure Complete (json : Str) (bytes : List UInt8) (ended : Prop) : Prop where
  whole : bytes = utf8 json ++ [newline] ∨ ended ∧ bytes = utf8 json
  short : byteLen json < MAX_RESPONSE_BYTES

instance (json : Str) (bytes : List UInt8) (ended : Prop) [Decidable ended] :
    Decidable (Complete json bytes ended) :=
  decidable_of_iff ((bytes = utf8 json ++ [newline] ∨ ended ∧ bytes = utf8 json) ∧
    byteLen json < MAX_RESPONSE_BYTES) ⟨fun ⟨whole, short⟩ => ⟨whole, short⟩,
      fun h => ⟨h.whole, h.short⟩⟩

/-- The line, if the newline comes before the limit. -/
theorem responseOf_line (h : ResponseText responseToString fromSlice (.output out) json)
    {ended : Prop} [Decidable ended] :
    (if newline ∈ (utf8 json ++ [newline]).take MAX_RESPONSE_BYTES ∨ ended then
        responseOf fromSlice (utf8 json ++ [newline])
      else none) = if byteLen json < MAX_RESPONSE_BYTES then some out else none := by
  by_cases hshort : byteLen json < MAX_RESPONSE_BYTES
  · have hlen : (utf8 json ++ [newline]).length ≤ MAX_RESPONSE_BYTES := by
      rw [List.length_append, length_utf8]
      exact hshort
    have hmem : newline ∈ utf8 json ++ [newline] :=
      List.mem_append_right _ (List.mem_singleton_self _)
    have hresponse := responseOf_append fromSlice (b := []) hmem hlen
    rw [List.append_nil, decode_line h] at hresponse
    rw [List.take_of_length_le hlen, if_pos (.inl hmem), if_pos hshort, hresponse]
    rfl
  · have hfull : MAX_RESPONSE_BYTES ≤ (utf8 json).length := by
      rw [length_utf8]
      exact not_lt.1 hshort
    have hnone : newline ∉ (utf8 json ++ [newline]).take MAX_RESPONSE_BYTES := by
      rw [List.take_append_of_le_length hfull]
      exact fun hmem => newline_not_mem_utf8 h.line (List.mem_of_mem_take hmem)
    have hlong : MAX_RESPONSE_BYTES ≤ (utf8 json ++ [newline]).length := by
      rw [List.length_append]
      exact hfull.trans (Nat.le_add_right _ _)
    have hresponse : responseOf fromSlice (utf8 json ++ [newline]) = none := by
      rw [responseOf, if_neg hnone, if_pos (.inr hlong)]
    rw [if_neg hshort, hresponse, ite_self]

/-- A part of the text says nothing, the whole of it the output. -/
theorem responseOf_text (h : ResponseText responseToString fromSlice (.output out) json)
    {bytes : List UInt8} (hpre : bytes <+: utf8 json) :
    responseOf fromSlice bytes =
      if bytes = utf8 json ∧ byteLen json < MAX_RESPONSE_BYTES then some out else none := by
  have hnl : newline ∉ bytes.take MAX_RESPONSE_BYTES := fun hmem =>
    newline_not_mem_utf8 h.line (hpre.subset (List.mem_of_mem_take hmem))
  rw [responseOf, if_neg hnl]
  by_cases hbytes : bytes = utf8 json
  · have hlen : bytes.length = byteLen json := by rw [hbytes, length_utf8]
    have hne : bytes ≠ [] := by
      intro hnil
      obtain ⟨c, cs, rfl⟩ := List.exists_cons_of_ne_nil h.ne_nil
      rw [hnil, byteLen_cons, List.length_nil] at hlen
      have hc := c.utf8Size_pos
      omega
    by_cases hshort : byteLen json < MAX_RESPONSE_BYTES
    · have hread : ¬ (bytes = [] ∨ MAX_RESPONSE_BYTES ≤ bytes.length) := by
        rw [hlen]
        exact not_or.2 ⟨hne, not_le.2 hshort⟩
      rw [if_neg hread, if_pos ⟨hbytes, hshort⟩, hbytes, decode_text h]
      rfl
    · rw [if_pos (.inr (hlen ▸ not_lt.1 hshort)), if_neg fun hc => hshort hc.2]
  · rw [decode_part h hpre hbytes, Option.map_none, ite_self,
      if_neg fun hc : bytes = utf8 json ∧ _ => hbytes hc.1]

/-- What the prompt makes of a part of the line: the output when all of it is there. -/
theorem responseOf_part (h : ResponseText responseToString fromSlice (.output out) json)
    {bytes : List UInt8} (hpre : bytes <+: responseLine responseToString (.output out))
    {ended : Prop} [Decidable ended] :
    (if newline ∈ bytes.take MAX_RESPONSE_BYTES ∨ ended then responseOf fromSlice bytes else none) =
      if Complete json bytes ended then some out else none := by
  rw [responseLine_eq h] at hpre
  rcases List.prefix_concat_iff.1 hpre with rfl | hpart
  · rw [responseOf_line h]
    exact if_congr ⟨fun hshort => ⟨.inl rfl, hshort⟩, fun hc => hc.short⟩ rfl rfl
  · have hnl : newline ∉ bytes := fun hmem => newline_not_mem_utf8 h.line (hpart.subset hmem)
    have hcomplete : Complete json bytes ended ↔
        ended ∧ bytes = utf8 json ∧ byteLen json < MAX_RESPONSE_BYTES := by
      constructor
      · rintro ⟨rfl | ⟨hended, hbytes⟩, hshort⟩
        · exact absurd (List.mem_append_right _ (List.mem_singleton_self _)) hnl
        · exact ⟨hended, hbytes, hshort⟩
      · rintro ⟨hended, hbytes, hshort⟩
        exact ⟨.inr ⟨hended, hbytes⟩, hshort⟩
    by_cases hended : ended
    · rw [if_pos (.inr hended), responseOf_text h hpart]
      exact if_congr (by rw [hcomplete, and_iff_right hended]) rfl rfl
    · rw [if_neg fun hc => hc.elim (fun hmem => hnl (List.mem_of_mem_take hmem)) hended,
        if_neg fun hc => hended (hcomplete.1 hc).1]

end Answer

/-! ## What the prompt shows -/

section Shown

variable {ι : Type*} [DecidableEq ι] {config : DaemonServerConfig} {startedAt : Instant}
  {e₀ : Surroundings} {evs : List (ActorEvent ι Surroundings DaemonCommand DaemonReply)}
  {S : Actors ι Surroundings DaemonState DaemonCommand DaemonReply}

/-- Every output that is reported to the daemon is of plain characters and complete colour codes. -/
def ReportsColoured (evs : List (ActorEvent ι Surroundings DaemonCommand DaemonReply)) : Prop :=
  ∀ i repoId output mode prs, .send i (.process (.update repoId output mode prs)) ∈ evs →
    Coloured output.toList

omit [DecidableEq ι] in
/-- A result of the result map was reported. -/
theorem reported_of_result {before : List (ServedCommand ι)} {calls : List Call}
    (hcalls : CallsOf config before calls) {id : RepoId} {out : String}
    (h : (resultOf id calls).join = some out) :
    ∃ x ∈ before, ∃ mode prs, x.cmd = .process (.update id.inner out mode prs) := by
  obtain ⟨pre, c, post, ev, hsplit, hop, rfl, -⟩ := resultOf_output (Option.join_eq_some_iff.1 h)
  obtain ⟨x, hx, s, t, hm⟩ := hcalls.exists_makes (c := c) (by simp [hsplit])
  exact ⟨x, hx, hm.update_of_completed hop⟩

theorem noControl_of_all {s : Str} (h : s.all (fun c => !isControl c) = true) : NoControl s :=
  fun c hc => Bool.not_eq_true' _ ▸ List.all_eq_true.1 h c hc

theorem coloured_loadingOutput : Coloured loadingOutput.toList :=
  coloured_of_plain (noControl_of_all (by decide))

theorem sanitizeOutput_eq_self {out : String} (h : Coloured out.toList) :
    sanitizeOutput out = out := by
  have hs := sanitizeOutput_of_coloured h
  rwa [String.ofList_toList] at hs

section

variable {requestToString : Shared.Request → Option Str}
  {fromStr : Str → Option Shared.Request} {responseToString : Shared.Response → Option Str}
  {fromSlice : List UInt8 → Option Shared.Response} {i : ι} {reqJson json : Str} {p : Processed}
  (req : Request) (stream : Socket)

/-- The answer that the prompt gets, and what it prints of it. -/
theorem prompt_answer (hr : DaemonRun config startedAt e₀ evs S)
    (hreq : RequestText requestToString fromStr (.query req.cwd) reqJson)
    (hlen : byteLen reqJson < MAX_REQUEST_BYTES)
    (hcall : ∀ request, requestOf fromStr (utf8 (req.encode requestToString)) = some request →
      .call i (.process request) ∈ evs)
    (hrecv : .receive i (.result p) ∈ evs)
    (hresp : ResponseText responseToString fromSlice p.response json)
    (hstream : stream.pieces.flatMap (·.bytes) <+: responseLine responseToString p.response)
    (hrep : -(2 ^ 63 * 1000000000) ≤ e₀.now.nanos - backdate config.staleTtlSecs) :
    ∃ before x after out, servedOf evs = before ++ x :: after ∧ x.caller = i ∧
      ((x.env.repoInfoFromCwd req.cwd = none ∧ out = "") ∨
        ∃ repoId branch calls s, x.env.repoInfoFromCwd req.cwd = some (repoId, branch) ∧
          CallsOf config before calls ∧ Run Step .new calls s ∧
          out = answer (resultOf ⟨repoId⟩ calls)) ∧
      p.response = .output out ∧
      main fromSlice (some stream) = .ofOutput
        (if Complete json (arrived (deadlineFrom stream.clock) stream)
            (EndsInTime (deadlineFrom stream.clock) stream) then some out
          else none) := by
  obtain ⟨x, hx, hxi, hxr, hxc⟩ := Actors.served_of_received hr hrecv
  obtain ⟨before, after, hserved⟩ := List.append_of_mem hx
  have hcmd := Actors.call_unique hr hxc (hcall _ (requestOf_encode hreq hlen))
  have hprints : ∀ out, p.response = .output out → main fromSlice (some stream) = .ofOutput
      (if Complete json (arrived (deadlineFrom stream.clock) stream)
          (EndsInTime (deadlineFrom stream.clock) stream) then some out
        else none) := by
    intro out hout
    rw [hout] at hresp hstream
    rw [main_of_socket, responseOf_part hresp ((arrived_isPrefix _ stream).trans hstream)]
  rcases query_reply hr hserved hcmd hrep with
    ⟨hinfo, hreply⟩ | ⟨repoId, branch, calls, s, hinfo, hcalls, hstore, refresh, hreply⟩
  · obtain rfl := DaemonReply.result.inj (hxr.symm.trans hreply)
    exact ⟨before, x, after, "", hserved, hxi, .inl ⟨hinfo, rfl⟩, rfl, hprints _ rfl⟩
  · obtain rfl := DaemonReply.result.inj (hxr.symm.trans hreply)
    exact ⟨before, x, after, _, hserved, hxi,
      .inr ⟨repoId, branch, calls, s, hinfo, hcalls, hstore, rfl⟩, rfl, hprints _ rfl⟩

theorem sent_of_mem_before {before after : List (ServedCommand ι)} {x y : ServedCommand ι}
    (hr : DaemonRun config startedAt e₀ evs S) (hserved : servedOf evs = before ++ x :: after)
    (hy : y ∈ before) : .send y.caller y.cmd ∈ evs :=
  Actors.sent_of_served hr (mem_servedOf.1 (hserved ▸ List.mem_append_left _ hy))

/-- **What the prompt shows.**  Its request reaches the daemon as it was written; whatever else the
tasks of the daemon do, and however its answer is cut into pieces, the prompt prints the answer of
the result map after what was served before the query, or nothing for a directory in no repository,
when all of it is there before the deadline; and otherwise the placeholder, and starts a daemon.  It
never prints a part of an answer.  When only coloured texts are reported, the answer is printed as
it is. -/
theorem prompt_shows_answer (hr : DaemonRun config startedAt e₀ evs S)
    (hreq : RequestText requestToString fromStr (.query req.cwd) reqJson)
    (hlen : byteLen reqJson < MAX_REQUEST_BYTES)
    (hcall : ∀ request, requestOf fromStr (utf8 (req.encode requestToString)) = some request →
      .call i (.process request) ∈ evs)
    (hrecv : .receive i (.result p) ∈ evs)
    (hresp : ResponseText responseToString fromSlice p.response json)
    (hstream : stream.pieces.flatMap (·.bytes) <+: responseLine responseToString p.response)
    (hrep : -(2 ^ 63 * 1000000000) ≤ e₀.now.nanos - backdate config.staleTtlSecs) :
    ∃ before x after out, servedOf evs = before ++ x :: after ∧ x.caller = i ∧
      ((x.env.repoInfoFromCwd req.cwd = none ∧ out = "") ∨
        ∃ repoId branch calls s, x.env.repoInfoFromCwd req.cwd = some (repoId, branch) ∧
          CallsOf config before calls ∧ Run Step .new calls s ∧
          out = answer (resultOf ⟨repoId⟩ calls)) ∧
      p.response = .output out ∧
      main fromSlice (some stream) = .ofOutput
        (if Complete json (arrived (deadlineFrom stream.clock) stream)
            (EndsInTime (deadlineFrom stream.clock) stream) then some out
          else none) ∧
      (ReportsColoured evs → sanitizeOutput out = out) := by
  obtain ⟨before, x, after, out, hserved, hxi, hout, hp, hmain⟩ :=
    prompt_answer req stream hr hreq hlen hcall hrecv hresp hstream hrep
  refine ⟨before, x, after, out, hserved, hxi, hout, hp, hmain, fun hcol => ?_⟩
  rcases hout with ⟨-, rfl⟩ | ⟨repoId, branch, calls, s, -, hcalls, -, rfl⟩
  · exact sanitizeOutput_eq_self .nil
  · unfold answer
    cases hresult : (resultOf ⟨repoId⟩ calls).join with
    | none => exact sanitizeOutput_eq_self coloured_loadingOutput
    | some out =>
      obtain ⟨y, hy, mode, prs, hcmd⟩ := reported_of_result hcalls hresult
      have hsent := sent_of_mem_before hr hserved hy
      rw [hcmd] at hsent
      exact sanitizeOutput_eq_self (hcol _ _ _ _ _ hsent)

end

end Shown

namespace Ready

open MergeReady.Daemon.Session

/-- The request of a prompt in the repository. -/
def reqJson : Str := "\x7b\"action\":\"query\",\"cwd\":\"/repo\"\x7d".toList

/-- The answer it gets. -/
def json : Str := "\x7b\"tag\":\"output\",\"output\":\"✓ Ready for merge\"\x7d".toList

def requestToString (request : Shared.Request) : Option Str :=
  if request = .query "/repo" then some reqJson else none

def fromStr (s : Str) : Option Shared.Request := if s = reqJson then some (.query "/repo") else none

def responseToString (response : Shared.Response) : Option Str :=
  if response = .output "✓ Ready for merge" then some json else none

def fromSlice (bytes : List UInt8) : Option Shared.Response :=
  if bytes = utf8 json then some (.output "✓ Ready for merge") else none

theorem requestText : RequestText requestToString fromStr (.query "/repo") reqJson where
  toString_eq := if_pos rfl
  fromStr_eq := if_pos rfl
  line := by decide
  first := by decide
  last := by decide

theorem responseText :
    ResponseText responseToString fromSlice (.output "✓ Ready for merge") json where
  toString_eq := if_pos rfl
  fromSlice_eq := if_pos rfl
  ne_nil := by decide
  line := by decide
  whole _ _ hne := if_neg hne

/-- The answer in two pieces. -/
def stream : Socket where
  clock := 0
  pieces := [⟨1000, (utf8 json ++ [newline]).take 12, 20, 0, by decide, by decide⟩,
    ⟨2000, (utf8 json ++ [newline]).drop 12, 0, 30, by decide, by decide⟩]
  ending := none
  delay := 0
  lag := 0

end Ready

open Ready Daemon.Session in
theorem prompt_shows_answer_ready :
    main fromSlice (some stream) = .ofOutput (some "✓ Ready for merge") := by
  obtain ⟨evs, S, hr, hserved, -, hall⟩ := exists_run
  obtain ⟨hcall, hrecv⟩ := hall secondQuery (by simp [served])
  have hrequest : ∀ request, requestOf fromStr (utf8 (Request.encode requestToString ⟨"/repo"⟩)) =
      some request → .call 2 (.process request) ∈ evs := by
    intro request h
    rw [requestOf_encode requestText (by decide)] at h
    exact Option.some.inj h ▸ hcall
  obtain ⟨before, x, after, out, -, -, -, hout, hmain, -⟩ := prompt_shows_answer ⟨"/repo"⟩ stream hr
    requestText (by decide) hrequest hrecv responseText (by decide) (by decide)
  rw [hmain, ← Shared.Response.output.inj hout, if_pos (by decide)]
  rfl

end MergeReady.Prompt
