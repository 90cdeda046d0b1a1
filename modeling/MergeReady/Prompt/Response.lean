import MergeReady.Shared.Protocol
import Mathlib.Data.List.TakeWhile

/-!
# Reading a response

`readResponse` reads from the socket until it has a line, the stream ends, or the response is too
long.  What it returns is a function of the bytes alone, not of how the socket cuts them into reads.
-/

namespace MergeReady.Prompt

open MergeReady.Shared (newline)

def MAX_RESPONSE_BYTES : ℕ := 1024 * 1024

/-- The size of the buffer a read fills. -/
def CHUNK_BYTES : ℕ := 512

/-- `prompt_ipc::Response` -/
structure Response where
  output : String
deriving DecidableEq, Repr

/-- What the successive reads of a stream yield: some bytes, or an error.  After the last one the
stream is at its end. -/
abbrev Reader := List (Option (List UInt8))

section

-- `serde_json::from_slice` on one line
variable (fromSlice : List UInt8 → Option Shared.Response)

def Response.decode (bytes : List UInt8) : Option Response :=
  let line := bytes.takeWhile (· ≠ newline)
  match fromSlice line with
  | some (.output output) => some { output }
  | _ => none

/-- The loop of `read_response`, after a first read without a newline. -/
def readLoop (buf : List UInt8) : Reader → Option String
  | [] =>
    if buf.length < MAX_RESPONSE_BYTES then (Response.decode fromSlice buf).map (·.output) else none
  | read :: reader =>
    if buf.length < MAX_RESPONSE_BYTES then
      match read with
      | none => none
      | some [] => (Response.decode fromSlice buf).map (·.output)
      | some chunk =>
        let remaining := MAX_RESPONSE_BYTES - buf.length
        let slice := chunk.take (min chunk.length remaining)
        let reachedNewline := newline ∈ slice
        if reachedNewline then (Response.decode fromSlice (buf ++ slice)).map (·.output)
        else readLoop (buf ++ slice) reader
    else none

def readResponse : Reader → Option String
  | [] => none
  | none :: _ => none
  | some [] :: _ => none
  | some chunk :: reader =>
    if newline ∈ chunk then (Response.decode fromSlice chunk).map (·.output)
    else readLoop fromSlice chunk reader

/-- What the bytes of a stream say: its first line if that ends in time, all of it if it is short and
has no newline, and nothing otherwise. -/
def responseOf (bytes : List UInt8) : Option String :=
  if newline ∈ bytes.take MAX_RESPONSE_BYTES then
    (Response.decode fromSlice (bytes.takeWhile (· ≠ newline))).map (·.output)
  else if bytes = [] ∨ MAX_RESPONSE_BYTES ≤ bytes.length then none
  else (Response.decode fromSlice bytes).map (·.output)

/-! ## The line of a prefix -/

theorem takeWhile_append_of_mem {a b : List UInt8} (h : newline ∈ a) :
    (a ++ b).takeWhile (· ≠ newline) = a.takeWhile (· ≠ newline) := by
  induction a with
  | nil => cases h
  | cons x a ih =>
    by_cases hx : x = newline
    · simp [hx]
    · have hmem : newline ∈ a := (List.mem_cons.1 h).resolve_left (Ne.symm hx)
      simp only [List.cons_append, List.takeWhile_cons, ih hmem]

theorem decode_takeWhile (bytes : List UInt8) :
    Response.decode fromSlice (bytes.takeWhile (· ≠ newline)) =
      Response.decode fromSlice bytes := by
  unfold Response.decode
  rw [List.takeWhile_idem]

/-- A prefix with a newline in it decides the response. -/
theorem responseOf_append {a b : List UInt8} (h : newline ∈ a)
    (hlen : a.length ≤ MAX_RESPONSE_BYTES) :
    responseOf fromSlice (a ++ b) = (Response.decode fromSlice a).map (·.output) := by
  have hmem : newline ∈ (a ++ b).take MAX_RESPONSE_BYTES := by
    rw [List.take_append, List.take_of_length_le hlen]
    exact List.mem_append_left _ h
  unfold responseOf
  rw [if_pos hmem, takeWhile_append_of_mem h, decode_takeWhile]

theorem responseOf_of_full {a b : List UInt8} (h : newline ∉ a)
    (hlen : a.length = MAX_RESPONSE_BYTES) : responseOf fromSlice (a ++ b) = none := by
  unfold responseOf
  rw [← hlen, List.take_left, if_neg h, if_pos]
  right
  simp

/-! ## The loop -/

theorem readLoop_of_full {buf : List UInt8} (h : MAX_RESPONSE_BYTES ≤ buf.length)
    (reader : Reader) : readLoop fromSlice buf reader = none := by
  cases reader with
  | nil => rw [readLoop, if_neg (by omega)]
  | cons read reader =>
    rw [readLoop.eq_def]
    exact if_neg (by omega)

theorem readLoop_some {buf chunk : List UInt8} (h : buf.length < MAX_RESPONSE_BYTES)
    (hchunk : chunk ≠ []) (reader : Reader) :
    readLoop fromSlice buf (some chunk :: reader) =
      if newline ∈ chunk.take (MAX_RESPONSE_BYTES - buf.length) then
        (Response.decode fromSlice (buf ++ chunk.take (MAX_RESPONSE_BYTES - buf.length))).map
          (·.output)
      else readLoop fromSlice (buf ++ chunk.take (MAX_RESPONSE_BYTES - buf.length)) reader := by
  have htake : chunk.take (min chunk.length (MAX_RESPONSE_BYTES - buf.length)) =
      chunk.take (MAX_RESPONSE_BYTES - buf.length) := by
    rw [Nat.min_comm, ← List.take_eq_take_min]
  rw [readLoop.eq_def]
  dsimp only
  rw [if_pos h]
  split
  · next heq => cases heq
  · next heq => exact absurd (Option.some.inj heq) hchunk
  · next heq =>
    obtain rfl := Option.some.inj heq
    rw [htake]

/-- **The loop** continues with what it has read. -/
theorem readLoop_eq {buf : List UInt8} {reads : List (List UInt8)} (hbuf : newline ∉ buf)
    (hne : buf ≠ []) (hlen : buf.length ≤ MAX_RESPONSE_BYTES) (hreads : ∀ r ∈ reads, r ≠ []) :
    readLoop fromSlice buf (reads.map some) = responseOf fromSlice (buf ++ reads.flatten) := by
  by_cases hfull : buf.length = MAX_RESPONSE_BYTES
  · rw [readLoop_of_full fromSlice (by omega), responseOf_of_full fromSlice hbuf hfull]
  have hroom : buf.length < MAX_RESPONSE_BYTES := by omega
  induction reads generalizing buf with
  | nil =>
    have htake : newline ∉ buf.take MAX_RESPONSE_BYTES := fun h => hbuf (List.mem_of_mem_take h)
    rw [List.flatten_nil, List.append_nil, List.map_nil, readLoop, responseOf, if_neg htake,
      if_pos hroom, if_neg (by simp [hne]; omega)]
  | cons r reads ih =>
    have hr : r ≠ [] := hreads r List.mem_cons_self
    rw [List.map_cons, readLoop_some fromSlice hroom hr, List.flatten_cons]
    -- the bytes that do not fit are the same in every segmentation
    have hbytes : buf ++ (r ++ reads.flatten) = (buf ++ r.take (MAX_RESPONSE_BYTES - buf.length)) ++
        (r.drop (MAX_RESPONSE_BYTES - buf.length) ++ reads.flatten) := by
      rw [List.append_assoc, ← List.append_assoc (r.take _), List.take_append_drop]
    have hslice : (buf ++ r.take (MAX_RESPONSE_BYTES - buf.length)).length ≤ MAX_RESPONSE_BYTES := by
      rw [List.length_append, List.length_take]
      omega
    by_cases hnl : newline ∈ r.take (MAX_RESPONSE_BYTES - buf.length)
    · rw [if_pos hnl, hbytes, responseOf_append fromSlice (List.mem_append_right _ hnl) hslice]
    · have hbuf' : newline ∉ buf ++ r.take (MAX_RESPONSE_BYTES - buf.length) := by
        rw [List.mem_append]
        exact fun h => h.elim hbuf hnl
      rw [if_neg hnl]
      by_cases hcut : (buf ++ r.take (MAX_RESPONSE_BYTES - buf.length)).length = MAX_RESPONSE_BYTES
      · rw [readLoop_of_full fromSlice (by omega), hbytes,
          responseOf_of_full fromSlice hbuf' hcut]
      · have hwhole : r.take (MAX_RESPONSE_BYTES - buf.length) = r := by
          apply List.take_of_length_le
          rw [List.length_append, List.length_take] at hcut
          omega
        rw [hwhole] at hbuf' hslice hcut ⊢
        rw [ih hbuf' (by simp [hne]) hslice (fun r hr => hreads r (List.mem_cons_of_mem _ hr)) hcut
          (by omega), List.append_assoc]

/-- **Reading a response does not depend on how the socket cuts it into reads.** -/
theorem readResponse_eq_responseOf {reads : List (List UInt8)}
    (hreads : ∀ r ∈ reads, r ≠ [] ∧ r.length ≤ CHUNK_BYTES) :
    readResponse fromSlice (reads.map some) = responseOf fromSlice reads.flatten := by
  cases reads with
  | nil => rfl
  | cons r reads =>
    obtain ⟨hr, hlen⟩ := hreads r List.mem_cons_self
    have hfits : r.length ≤ MAX_RESPONSE_BYTES := le_trans hlen (by decide)
    rw [List.map_cons, readResponse.eq_def, List.flatten_cons]
    split
    · next heq => cases heq
    · next heq => cases heq
    · next heq => cases heq; exact absurd rfl hr
    · next heq =>
      cases heq
      split
      · next hnl => rw [responseOf_append fromSlice hnl hfits]
      · next hnl =>
        exact readLoop_eq fromSlice hnl hr hfits fun r hr => (hreads r (List.mem_cons_of_mem _ hr)).1

end

namespace Short

/-- A response without the newline, as the daemon sends it. -/
def json : List UInt8 := "\x7b\"tag\":\"output\",\"output\":\"ok\"\x7d".toUTF8.data.toList

/-- What JSON decoding makes of the line. -/
def fromSlice (line : List UInt8) : Option Shared.Response :=
  if line = json then some (.output "ok") else none

/-- The line in two reads, the second with a byte of the next line. -/
def reads : List (List UInt8) := [json.take 9, json.drop 9 ++ [newline, 0x7b]]

end Short

open Short in
theorem readResponse_eq_responseOf_short :
    readResponse fromSlice (reads.map some) = responseOf fromSlice reads.flatten ∧
      responseOf fromSlice reads.flatten = some "ok" := by
  constructor
  · apply readResponse_eq_responseOf
    decide
  · decide

end MergeReady.Prompt
