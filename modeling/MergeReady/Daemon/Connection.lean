import Mathlib.Data.List.TakeWhile
import MergeReady.Lib.Utf8
import MergeReady.Daemon.Requests

/-!
# A connection of the daemon

A connection carries one request: a line of JSON, of which at most `MAX_REQUEST_BYTES` bytes are read.
A line that is longer is cut off there, and the text that is left is parsed like any other.
-/

namespace MergeReady.Daemon

open MergeReady.Lib
open MergeReady.Shared

def MAX_REQUEST_BYTES : ℕ := 1024 * 1024

/-- What `read_line` takes from a stream: its first line with the newline, or all of it. -/
def lineOf (bytes : List UInt8) : List UInt8 :=
  bytes.takeWhile (· ≠ newline) ++ (bytes.dropWhile (· ≠ newline)).take 1

/-- The first line of the first `MAX_REQUEST_BYTES` bytes; `none` if there is nothing or it is not
UTF-8. -/
def readRequestLine (bytes : List UInt8) : Option Str :=
  match Str.fromUtf8 (lineOf (bytes.take MAX_REQUEST_BYTES)) with
  | none => none
  | some buf => if buf.isEmpty then none else some buf

/-- What a connection did. -/
structure Handled where
  state : DaemonState
  /-- the request given to `process` -/
  processed : Option Request
  response : Option Response
  /-- the refresh started -/
  refresh : Option (RepoId × String)
  /-- the files were removed and the exit was sent -/
  stop : Bool

/-- The connection is dropped without an answer. -/
def Handled.ignored (state : DaemonState) : Handled :=
  { state := state, processed := none, response := none, refresh := none, stop := false }

section

-- `serde_json::from_str` at `Request`, and the lookup of a directory's repository
variable (fromStr : Str → Option Request) (repoInfoFromCwd : String → Option (String × String))

def handle (state : DaemonState) (now : Instant) (nowWall : SystemTime) (bytes : List UInt8) :
    Handled :=
  match readRequestLine bytes with
  | none => .ignored state
  | some buf =>
    match fromStr buf.trim with
    | none => .ignored state
    | some request =>
      let (state, result) := process repoInfoFromCwd request state now nowWall
      { state := state
        processed := some request
        response := some result.response
        refresh := match result.refreshRepoId, result.refreshCwd with
          | some repoId, some cwd => some (repoId, cwd)
          | _, _ => none
        stop := result.stop }

variable {fromStr} {repoInfoFromCwd}

theorem lineOf_of_not_mem {bytes : List UInt8} (h : newline ∉ bytes) : lineOf bytes = bytes := by
  have hall : ∀ b ∈ bytes, decide (b ≠ newline) = true := fun b hb =>
    decide_eq_true fun heq => h (heq ▸ hb)
  rw [lineOf, List.takeWhile_eq_self_iff.2 hall, List.dropWhile_eq_nil_iff.2 hall]
  simp

/-- A stream without a newline in time is read up to the limit. -/
theorem readRequestLine_of_long {bytes : List UInt8} (hlong : MAX_REQUEST_BYTES < bytes.length)
    (hline : newline ∉ bytes.take MAX_REQUEST_BYTES) :
    readRequestLine bytes = Str.fromUtf8 (bytes.take MAX_REQUEST_BYTES) := by
  rw [readRequestLine, lineOf_of_not_mem hline]
  cases h : Str.fromUtf8 (bytes.take MAX_REQUEST_BYTES) with
  | none => rfl
  | some buf =>
    have hlen := congrArg List.length (Str.fromUtf8_eq_some.1 h)
    cases buf with
    | cons c buf => rfl
    | nil =>
      rw [Str.length_utf8, Str.byteLen_nil, List.length_take_of_le hlong.le] at hlen
      cases hlen

/-- A connection is ignored, or it hands the request of its line to `process`. -/
theorem processed_handle {state : DaemonState} {now : Instant} {nowWall : SystemTime}
    {bytes : List UInt8} :
    (handle fromStr repoInfoFromCwd state now nowWall bytes).processed =
      (readRequestLine bytes).bind fun buf => fromStr buf.trim := by
  unfold handle
  split
  · rename_i h
    rw [h]
    rfl
  · rename_i buf h
    rw [h, Option.bind_some]
    split
    · rename_i hp
      rw [hp]
      rfl
    · rename_i request hp
      rw [hp]

theorem handle_of_request {state : DaemonState} {now : Instant} {nowWall : SystemTime}
    {bytes : List UInt8} {buf : Str} {request : Request}
    (hread : readRequestLine bytes = some buf) (hparse : fromStr buf.trim = some request) :
    (handle fromStr repoInfoFromCwd state now nowWall bytes).processed = some request ∧
      (handle fromStr repoInfoFromCwd state now nowWall bytes).stop =
        (process repoInfoFromCwd request state now nowWall).2.stop := by
  unfold handle
  rw [hread]
  dsimp only
  rw [hparse]
  exact ⟨rfl, rfl⟩

theorem handle_of_not_processed {state : DaemonState} {now : Instant} {nowWall : SystemTime}
    {bytes : List UInt8}
    (h : (handle fromStr repoInfoFromCwd state now nowWall bytes).processed = none) :
    handle fromStr repoInfoFromCwd state now nowWall bytes = .ignored state := by
  unfold handle at h ⊢
  split at h
  · rfl
  · split at h
    · rfl
    · cases h

/-- **When an over-long line is rejected**: when the bytes up to the limit are not the text of a
request, white space aside.  Then nothing is answered, started, stopped or changed. -/
theorem handle_long_ignored_iff (state : DaemonState) (now : Instant) (nowWall : SystemTime)
    {bytes : List UInt8} (hlong : MAX_REQUEST_BYTES < bytes.length)
    (hline : newline ∉ bytes.take MAX_REQUEST_BYTES) :
    ((handle fromStr repoInfoFromCwd state now nowWall bytes).processed = none ∧
        handle fromStr repoInfoFromCwd state now nowWall bytes = .ignored state) ↔
      ∀ text, bytes.take MAX_REQUEST_BYTES = Str.utf8 text → fromStr text.trim = none := by
  have hprocessed : (handle fromStr repoInfoFromCwd state now nowWall bytes).processed =
      (Str.fromUtf8 (bytes.take MAX_REQUEST_BYTES)).bind fun buf => fromStr buf.trim := by
    rw [processed_handle, readRequestLine_of_long hlong hline]
  constructor
  · rintro ⟨hnone, -⟩ text htext
    rw [hprocessed, htext, Str.fromUtf8_utf8] at hnone
    exact hnone
  · intro hnone
    have h : (handle fromStr repoInfoFromCwd state now nowWall bytes).processed = none := by
      rw [hprocessed, Option.bind_eq_none_iff]
      exact fun text htext => hnone text (Str.fromUtf8_eq_some.1 htext)
    exact ⟨h, handle_of_not_processed h⟩

end

/-! ### Filler, and a request that is padded beyond the limit -/

/-- A daemon just started. -/
def justStarted : DaemonState :=
  { cacheStore := .new, startedAt := .ofSecs 0, config := DaemonServerConfig.defaults }

/-- A stream of one letter. -/
def filler (n : ℕ) : List UInt8 := List.replicate n 97

theorem newline_not_mem_filler (n k : ℕ) : newline ∉ (filler n).take k := fun h => by
  have heq := List.eq_of_mem_replicate (List.mem_of_mem_take h)
  revert heq
  decide

theorem length_filler (n : ℕ) : (filler n).length = n := List.length_replicate

/-- No parser takes letters for a request. -/
theorem handle_long_ignored_iff_filler :
    handle (fun _ => none) (fun _ => none) justStarted (.ofSecs 1) (.ofSecs 1)
      (filler (MAX_REQUEST_BYTES + 1024)) = .ignored justStarted := by
  have hlong : MAX_REQUEST_BYTES < (filler (MAX_REQUEST_BYTES + 1024)).length := by
    rw [length_filler]
    decide
  exact ((handle_long_ignored_iff justStarted (.ofSecs 1) (.ofSecs 1) hlong
    (newline_not_mem_filler _ _)).2 fun _ _ => rfl).2

namespace Padded

/-- The text of a stop request. -/
def text : Str := "\x7b\"action\":\"stop\"\x7d".toList

/-- A parser of stop requests. -/
def fromStr (s : Str) : Option Request := if s = text then some .stop else none

/-- Spaces up to the limit. -/
def padding : Str := List.replicate (MAX_REQUEST_BYTES - 17) ' '

/-- A stop request with spaces after it, one more than fit under the limit. -/
def bytes : List UInt8 := Str.utf8 (text ++ padding) ++ Str.utf8 [' ']

theorem byteLen_padding (n : ℕ) : Str.byteLen (List.replicate n ' ') = n := by
  induction n with
  | zero => rfl
  | succ n ih =>
    rw [List.replicate_succ, Str.byteLen_cons, ih, show ' '.utf8Size = 1 from by decide]
    omega

theorem length_line : (Str.utf8 (text ++ padding)).length = MAX_REQUEST_BYTES := by
  rw [Str.length_utf8, Str.byteLen_append, padding, byteLen_padding,
    show Str.byteLen text = 17 from by decide]
  rfl

theorem long : MAX_REQUEST_BYTES < bytes.length := by
  rw [bytes, List.length_append, length_line, Str.length_utf8]
  decide

theorem take_bytes : bytes.take MAX_REQUEST_BYTES = Str.utf8 (text ++ padding) := by
  rw [bytes, ← length_line, List.take_left]

theorem newline_not_mem : newline ∉ bytes.take MAX_REQUEST_BYTES := by
  rw [take_bytes, Str.utf8_append, List.mem_append, not_or]
  refine ⟨by decide, fun h => ?_⟩
  obtain ⟨c, hc, hb⟩ := List.mem_flatMap.1 h
  rw [List.eq_of_mem_replicate hc] at hb
  revert hb
  decide

theorem trim_line : (text ++ padding).trim = text :=
  Str.trim_append (by decide) (by decide) fun c hc => by
    rw [List.eq_of_mem_replicate hc]
    decide

theorem read_bytes : readRequestLine bytes = some (text ++ padding) := by
  rw [readRequestLine_of_long long newline_not_mem, take_bytes, Str.fromUtf8_utf8]

theorem fromStr_line : fromStr (text ++ padding).trim = some .stop := by
  rw [trim_line, fromStr, if_pos rfl]

end Padded

/-- The stop request that the padding takes past the limit is carried out, on a daemon just
started. -/
theorem not_handle_long_ignored :
    MAX_REQUEST_BYTES < Padded.bytes.length ∧ newline ∉ Padded.bytes.take MAX_REQUEST_BYTES ∧
      (handle Padded.fromStr (fun _ => none) justStarted (.ofSecs 1) (.ofSecs 1)
        Padded.bytes).processed = some .stop ∧
      (handle Padded.fromStr (fun _ => none) justStarted (.ofSecs 1) (.ofSecs 1)
        Padded.bytes).stop = true := by
  have hstop := @handle_of_request Padded.fromStr (fun _ => none) justStarted (.ofSecs 1)
    (.ofSecs 1) _ _ _ Padded.read_bytes Padded.fromStr_line
  exact ⟨Padded.long, Padded.newline_not_mem, hstop.1, hstop.2.trans (stop_process.2 rfl)⟩

end MergeReady.Daemon
