import MergeReady.Prompt.Response
import MergeReady.Prompt.Sanitize

/-!
# Reading before a deadline

The prompt gives the daemon half a second in all.  `DeadlineReader` asks the socket before each read
to wait no longer than what is left of that time, so a daemon that sends its answer byte by byte
cannot hold the prompt up.  Times are readings of the monotonic clock, in nanoseconds.
-/

namespace MergeReady.Prompt

open MergeReady.Shared (newline)

/-! ## A reader with a state -/

section

variable {ρ : Type*} (fromSlice : List UInt8 → Option Shared.Response)
  (read : ρ → Option (List UInt8) × ρ)

/-- The loop of `read_response`, over any reader. -/
def readLoopFrom (buf : List UInt8) (reader : ρ) : Option String × ρ :=
  if buf.length < MAX_RESPONSE_BYTES then
    match read reader with
    | (none, reader) => (none, reader)
    | (some [], reader) => ((Response.decode fromSlice buf).map (·.output), reader)
    | (some (b :: bs), reader) =>
      let chunk := b :: bs
      let remaining := MAX_RESPONSE_BYTES - buf.length
      let slice := chunk.take (min chunk.length remaining)
      let reachedNewline := newline ∈ slice
      if reachedNewline then ((Response.decode fromSlice (buf ++ slice)).map (·.output), reader)
      else readLoopFrom (buf ++ slice) reader
  else (none, reader)
termination_by MAX_RESPONSE_BYTES - buf.length
decreasing_by
  simp only [List.length_append, List.length_take, List.length_cons]
  omega

def readResponseFrom (reader : ρ) : Option String × ρ :=
  match read reader with
  | (none, reader) => (none, reader)
  | (some [], reader) => (none, reader)
  | (some (b :: bs), reader) =>
    let chunk := b :: bs
    if newline ∈ chunk then ((Response.decode fromSlice chunk).map (·.output), reader)
    else readLoopFrom fromSlice read chunk reader

end

/-- The reader's next reads are those of the list. -/
def Behaves {ρ : Type*} (read : ρ → Option (List UInt8) × ρ) : Reader → ρ → Prop
  | [], reader => (read reader).1 = some []
  | none :: _, reader => (read reader).1 = none
  | some [] :: _, reader => (read reader).1 = some []
  | some (b :: bs) :: rest, reader =>
    (read reader).1 = some (b :: bs) ∧ Behaves read rest (read reader).2

section Behaves

variable {ρ : Type*} {fromSlice : List UInt8 → Option Shared.Response}
  {read : ρ → Option (List UInt8) × ρ}

/-- **A reader is read like the list of its reads.** -/
theorem readLoopFrom_eq {results : Reader} {reader : ρ} (h : Behaves read results reader)
    (buf : List UInt8) :
    (readLoopFrom fromSlice read buf reader).1 = readLoop fromSlice buf results := by
  induction results generalizing buf reader with
  | nil =>
    unfold Behaves at h
    rw [readLoopFrom, readLoop]
    split
    · rcases hread : read reader with ⟨result, next⟩
      rw [hread] at h
      obtain rfl : result = some [] := h
      rfl
    · rfl
  | cons result results ih =>
    rw [readLoopFrom, readLoop.eq_def]
    dsimp only
    split
    · rcases hread : read reader with ⟨got, next⟩
      rcases result with _ | _ | ⟨b, bs⟩
      · unfold Behaves at h
        rw [hread] at h
        obtain rfl : got = none := h
        rfl
      · unfold Behaves at h
        rw [hread] at h
        obtain rfl : got = some [] := h
        rfl
      · unfold Behaves at h
        rw [hread] at h
        obtain ⟨rfl, hrest⟩ := h
        dsimp only
        split
        · rfl
        · exact ih hrest _
    · rfl

theorem readResponseFrom_eq {results : Reader} {reader : ρ} (h : Behaves read results reader) :
    (readResponseFrom fromSlice read reader).1 = readResponse fromSlice results := by
  unfold readResponseFrom
  rcases hread : read reader with ⟨got, next⟩
  match results, h with
  | [], h =>
    unfold Behaves at h
    rw [hread] at h
    obtain rfl : got = some [] := h
    rfl
  | none :: _, h =>
    unfold Behaves at h
    rw [hread] at h
    obtain rfl : got = none := h
    rfl
  | some [] :: _, h =>
    unfold Behaves at h
    rw [hread] at h
    obtain rfl : got = some [] := h
    rfl
  | some (b :: bs) :: rest, h =>
    unfold Behaves at h
    rw [hread] at h
    obtain ⟨rfl, hrest⟩ := h
    rw [readResponse.eq_def]
    dsimp only
    split
    · rfl
    · exact readLoopFrom_eq hrest _

theorem readLoopFrom_keeps {P : ρ → Prop} (hread : ∀ reader, P reader → P (read reader).2)
    (buf : List UInt8) {reader : ρ} (h : P reader) :
    P (readLoopFrom fromSlice read buf reader).2 := by
  fun_induction readLoopFrom fromSlice read buf reader with
  | case1 buf reader _ next heq =>
    have := hread reader h
    rwa [heq] at this
  | case2 buf reader _ next heq =>
    have := hread reader h
    rwa [heq] at this
  | case3 buf reader _ b bs next heq =>
    have := hread reader h
    rwa [heq] at this
  | case4 buf reader _ b bs next heq _ _ _ _ _ ih =>
    have := hread reader h
    rw [heq] at this
    exact ih this
  | case5 => exact h

theorem readResponseFrom_keeps {P : ρ → Prop} (hread : ∀ reader, P reader → P (read reader).2)
    {reader : ρ} (h : P reader) : P (readResponseFrom fromSlice read reader).2 := by
  have hnext := hread reader h
  unfold readResponseFrom
  rcases hr : read reader with ⟨got, next⟩
  rw [hr] at hnext
  match got with
  | none => exact hnext
  | some [] => exact hnext
  | some (b :: bs) =>
    dsimp only
    split
    · exact hnext
    · exact readLoopFrom_keeps hread _ hnext

end Behaves

/-! ## A stream that breaks off -/

/-- What has been read when a read fails is used only if it has the line. -/
theorem readLoop_failed {fromSlice : List UInt8 → Option Shared.Response} {buf : List UInt8}
    {reads : List (List UInt8)} (hbuf : newline ∉ buf) (hlen : buf.length ≤ MAX_RESPONSE_BYTES)
    (hreads : ∀ r ∈ reads, r ≠ []) :
    readLoop fromSlice buf (reads.map some ++ [none]) =
      if newline ∈ (buf ++ reads.flatten).take MAX_RESPONSE_BYTES then
        responseOf fromSlice (buf ++ reads.flatten)
      else none := by
  have hfull : ∀ {a b : List UInt8}, newline ∉ a → a.length = MAX_RESPONSE_BYTES →
      newline ∉ (a ++ b).take MAX_RESPONSE_BYTES := fun ha hl => by
    rw [← hl, List.take_left]
    exact ha
  induction reads generalizing buf with
  | nil =>
    rw [List.flatten_nil, List.append_nil, List.map_nil, List.nil_append, readLoop.eq_def,
      if_neg fun h => hbuf (List.mem_of_mem_take h)]
    dsimp only
    split <;> rfl
  | cons r reads ih =>
    by_cases hl : buf.length = MAX_RESPONSE_BYTES
    · rw [readLoop_of_full fromSlice (by omega), if_neg (hfull hbuf hl)]
    have hroom : buf.length < MAX_RESPONSE_BYTES := by omega
    rw [List.map_cons, List.cons_append, List.flatten_cons,
      readLoop_some fromSlice hroom (hreads r List.mem_cons_self)]
    have hbytes : buf ++ (r ++ reads.flatten) = (buf ++ r.take (MAX_RESPONSE_BYTES - buf.length)) ++
        (r.drop (MAX_RESPONSE_BYTES - buf.length) ++ reads.flatten) := by
      rw [List.append_assoc, ← List.append_assoc (r.take _), List.take_append_drop]
    have hslice : (buf ++ r.take (MAX_RESPONSE_BYTES - buf.length)).length ≤
        MAX_RESPONSE_BYTES := by
      rw [List.length_append, List.length_take]
      omega
    by_cases hnl : newline ∈ r.take (MAX_RESPONSE_BYTES - buf.length)
    · have hmem : newline ∈ buf ++ r.take (MAX_RESPONSE_BYTES - buf.length) :=
        List.mem_append_right _ hnl
      rw [if_pos hnl, hbytes, responseOf_append fromSlice hmem hslice, if_pos]
      rw [List.take_append, List.take_of_length_le hslice]
      exact List.mem_append_left _ hmem
    · have hbuf' : newline ∉ buf ++ r.take (MAX_RESPONSE_BYTES - buf.length) := by
        rw [List.mem_append]
        exact fun h => h.elim hbuf hnl
      rw [if_neg hnl]
      by_cases hcut : (buf ++ r.take (MAX_RESPONSE_BYTES - buf.length)).length = MAX_RESPONSE_BYTES
      · rw [readLoop_of_full fromSlice (by omega), hbytes, if_neg (hfull hbuf' hcut)]
      · have hwhole : r.take (MAX_RESPONSE_BYTES - buf.length) = r := by
          apply List.take_of_length_le
          rw [List.length_append, List.length_take] at hcut
          omega
        rw [hwhole] at hbuf' hslice ⊢
        rw [ih hbuf' hslice fun r hr => hreads r (List.mem_cons_of_mem _ hr), List.append_assoc]

/-- A stream that breaks off, or not, after some reads. -/
theorem readResponse_append {fromSlice : List UInt8 → Option Shared.Response}
    {reads : List (List UInt8)} (hreads : ∀ r ∈ reads, r ≠ [] ∧ r.length ≤ CHUNK_BYTES)
    {ending : Reader} (hending : ending = [] ∨ ending = [none]) :
    readResponse fromSlice (reads.map some ++ ending) =
      if newline ∈ reads.flatten.take MAX_RESPONSE_BYTES ∨ ending = [] then
        responseOf fromSlice reads.flatten
      else none := by
  cases reads with
  | nil => rcases hending with rfl | rfl <;> rfl
  | cons r reads =>
    obtain ⟨hr, hlen⟩ := hreads r List.mem_cons_self
    have hfits : r.length ≤ MAX_RESPONSE_BYTES := hlen.trans (by decide)
    have hrest : ∀ r ∈ reads, r ≠ [] := fun r hr => (hreads r (List.mem_cons_of_mem _ hr)).1
    obtain ⟨b, bs, rfl⟩ := List.exists_cons_of_ne_nil hr
    rw [List.map_cons, List.cons_append, List.flatten_cons, readResponse.eq_def]
    dsimp only
    split
    · next hnl =>
      have hmem : newline ∈ ((b :: bs) ++ reads.flatten).take MAX_RESPONSE_BYTES := by
        rw [List.take_append, List.take_of_length_le hfits]
        exact List.mem_append_left _ hnl
      rw [responseOf_append fromSlice hnl hfits, if_pos (.inl hmem)]
    · next hnl =>
      rcases hending with rfl | rfl
      · rw [List.append_nil, readLoop_eq fromSlice hnl hr hfits hrest, if_pos (.inr rfl)]
      · rw [readLoop_failed hnl hfits hrest]
        simp only [List.cons_ne_nil, or_false]

/-! ## The socket -/

/-- Something for one read to take. -/
structure Piece where
  /-- the time it is there -/
  at_ : ℤ
  bytes : List UInt8
  /-- how long after the look at the clock the read begins -/
  delay : ℕ
  /-- how long after it could the read returns -/
  lag : ℕ
  ne_nil : bytes ≠ []
  le_chunk : bytes.length ≤ CHUNK_BYTES
deriving DecidableEq

inductive Ending
  | eof
  | error
deriving DecidableEq

/-- A connected socket, as the reads will find it. -/
structure Socket where
  /-- the time it is -/
  clock : ℤ
  pieces : List Piece
  /-- what comes after the pieces, and when -/
  ending : Option (ℤ × Ending)
  /-- how late the last read begins -/
  delay : ℕ
  /-- how late the last read returns -/
  lag : ℕ

/-- How late the next read begins. -/
def Socket.nextDelay (s : Socket) : ℕ :=
  match s.pieces with
  | piece :: _ => piece.delay
  | [] => s.delay

/-- A read that waits for `timeout` at most. -/
def Socket.read (timeout : ℤ) (s : Socket) : Option (List UInt8) × Socket :=
  let start := s.clock + s.nextDelay
  let limit := start + timeout
  match s.pieces, s.ending with
  | piece :: rest, _ =>
    if piece.at_ < limit then
      (some piece.bytes, { s with clock := max start piece.at_ + piece.lag, pieces := rest })
    else (none, { s with clock := limit + s.lag })
  | [], some (t, .eof) =>
    if t < limit then (some [], { s with clock := max start t + s.lag })
    else (none, { s with clock := limit + s.lag })
  | [], some (t, .error) => (none, { s with clock := max start (min t limit) + s.lag })
  | [], none => (none, { s with clock := limit + s.lag })

structure DeadlineReader where
  inner : Socket
  deadline : ℤ

/-- `Read::read` of `DeadlineReader`: the time that is left is the timeout, from the moment the read
begins; when there is none, the socket is not asked. -/
def DeadlineReader.read (r : DeadlineReader) : Option (List UInt8) × DeadlineReader :=
  if r.inner.clock < r.deadline then
    let (result, inner) := r.inner.read (r.deadline - r.inner.clock)
    (result, { r with inner := inner })
  else (none, r)

/-! ## What comes in time -/

/-- The pieces that come in time for a reader that is there at `clock`.  A read that begins late waits
so much longer. -/
def inTime (deadline clock : ℤ) : List Piece → List Piece
  | [] => []
  | piece :: rest =>
    if clock < deadline ∧ piece.at_ < deadline + piece.delay then
      piece :: inTime deadline (max (clock + piece.delay) piece.at_ + piece.lag) rest
    else []

/-- The time when the reader has taken the pieces. -/
def clockAfter (clock : ℤ) : List Piece → ℤ
  | [] => clock
  | piece :: rest => clockAfter (max (clock + piece.delay) piece.at_ + piece.lag) rest

structure EndsInTime (deadline : ℤ) (s : Socket) : Prop where
  all : inTime deadline s.clock s.pieces = s.pieces
  clock : clockAfter s.clock s.pieces < deadline
  eof : ∃ x ∈ s.ending, x.1 < deadline + s.delay ∧ x.2 = .eof

instance (deadline : ℤ) (s : Socket) : Decidable (EndsInTime deadline s) :=
  decidable_of_iff (inTime deadline s.clock s.pieces = s.pieces ∧
      clockAfter s.clock s.pieces < deadline ∧
        ∃ x ∈ s.ending, x.1 < deadline + s.delay ∧ x.2 = .eof)
    ⟨fun ⟨all, clock, eof⟩ => ⟨all, clock, eof⟩, fun h => ⟨h.all, h.clock, h.eof⟩⟩

/-- The bytes that come in time. -/
def arrived (deadline : ℤ) (s : Socket) : List UInt8 :=
  (inTime deadline s.clock s.pieces).flatMap (·.bytes)

theorem inTime_isPrefix {deadline clock : ℤ} {pieces : List Piece} :
    inTime deadline clock pieces <+: pieces := by
  induction pieces generalizing clock with
  | nil => exact List.prefix_refl _
  | cons piece rest ih =>
    unfold inTime
    split
    · exact (List.prefix_cons_inj piece).2 ih
    · exact List.nil_prefix

theorem arrived_isPrefix (deadline : ℤ) (s : Socket) :
    arrived deadline s <+: s.pieces.flatMap (·.bytes) := by
  obtain ⟨rest, hrest⟩ : inTime deadline s.clock s.pieces <+: s.pieces := inTime_isPrefix
  refine ⟨rest.flatMap (·.bytes), ?_⟩
  rw [arrived, ← List.flatMap_append, hrest]

theorem inTime_reads {deadline clock : ℤ} {pieces : List Piece} :
    ∀ r ∈ (inTime deadline clock pieces).map (·.bytes), r ≠ [] ∧ r.length ≤ CHUNK_BYTES := by
  intro r hr
  obtain ⟨piece, -, rfl⟩ := List.mem_map.1 hr
  exact ⟨piece.ne_nil, piece.le_chunk⟩

theorem limit_eq (clock delay deadline : ℤ) :
    clock + delay + (deadline - clock) = deadline + delay := by omega

/-- A reader past its deadline, or whose stream has nothing more in time, fails. -/
theorem DeadlineReader.read_nil {r : DeadlineReader} (hp : r.inner.pieces = []) :
    (EndsInTime r.deadline r.inner → r.read.1 = some []) ∧
      (¬ EndsInTime r.deadline r.inner → r.read.1 = none) := by
  obtain ⟨⟨clock, pieces, ending, delay, lag⟩, deadline⟩ := r
  obtain rfl : pieces = [] := hp
  unfold DeadlineReader.read Socket.read Socket.nextDelay
  dsimp only
  rw [limit_eq]
  constructor
  · rintro ⟨-, hclock, ⟨t, _⟩, hending, ht, rfl⟩
    obtain rfl : ending = some (t, .eof) := hending
    rw [if_pos (show clock < deadline from hclock)]
    dsimp only
    rw [if_pos ht]
  · intro h
    split
    · next hclock =>
      match ending, h with
      | none, _ => rfl
      | some (t, .error), _ => rfl
      | some (t, .eof), h =>
        dsimp only
        rw [if_neg fun ht => h ⟨rfl, hclock, _, rfl, ht, rfl⟩]
    · rfl

/-- **The reads of a reader with a deadline** are the pieces that come in time, and then the end of
the stream if that comes in time too, or an error. -/
theorem DeadlineReader.behaves {results : Reader} (r : DeadlineReader)
    (h : (EndsInTime r.deadline r.inner ∧ results = []) ∨
      (¬ EndsInTime r.deadline r.inner ∧ results = [none])) :
    Behaves DeadlineReader.read
      (((inTime r.deadline r.inner.clock r.inner.pieces).map (·.bytes)).map some ++ results) r := by
  obtain ⟨⟨clock, pieces, ending, delay, lag⟩, deadline⟩ := r
  induction pieces generalizing clock with
  | nil =>
    rcases h with ⟨hends, rfl⟩ | ⟨hends, rfl⟩
    · exact (DeadlineReader.read_nil rfl).1 hends
    · exact (DeadlineReader.read_nil rfl).2 hends
  | cons piece rest ih =>
    dsimp only at h ⊢
    by_cases hin : clock < deadline ∧ piece.at_ < deadline + piece.delay
    · have hread : DeadlineReader.read ⟨⟨clock, piece :: rest, ending, delay, lag⟩, deadline⟩ =
          (some piece.bytes, ⟨⟨max (clock + piece.delay) piece.at_ + piece.lag, rest, ending, delay,
            lag⟩, deadline⟩) := by
        simp only [DeadlineReader.read, Socket.read, Socket.nextDelay, if_pos hin.1, limit_eq,
          if_pos hin.2]
      -- the end of the stream is in time for the rest when it is for all of it
      have hends : EndsInTime deadline ⟨clock, piece :: rest, ending, delay, lag⟩ ↔ EndsInTime deadline
          ⟨max (clock + piece.delay) piece.at_ + piece.lag, rest, ending, delay, lag⟩ := by
        constructor
        · rintro ⟨hall, hclock, heof⟩
          unfold inTime at hall
          rw [if_pos hin] at hall
          exact ⟨(List.cons.inj hall).2, hclock, heof⟩
        · rintro ⟨hall, hclock, heof⟩
          refine ⟨?_, hclock, heof⟩
          unfold inTime
          rw [if_pos hin]
          exact congrArg _ hall
      rw [hends] at h
      have hrest := ih _ h
      unfold inTime
      rw [if_pos hin, List.map_cons, List.map_cons, List.cons_append]
      obtain ⟨b, bs, hb⟩ := List.exists_cons_of_ne_nil piece.ne_nil
      rw [hb] at hread ⊢
      refine ⟨congrArg Prod.fst hread, ?_⟩
      rw [hread]
      exact hrest
    · have hnil : inTime deadline clock (piece :: rest) = [] := by
        unfold inTime
        rw [if_neg hin]
      obtain ⟨-, rfl⟩ := h.resolve_left fun ⟨hends, _⟩ => by
        have hall := hends.all
        rw [hnil] at hall
        cases hall
      rw [hnil]
      show (DeadlineReader.read _).1 = none
      unfold DeadlineReader.read Socket.read Socket.nextDelay
      dsimp only
      rw [limit_eq]
      split
      · next hclock => rw [if_neg fun hat => hin ⟨hclock, hat⟩]
      · rfl

/-- How late the reads are at most. -/
structure Socket.LateBy (delay lag : ℕ) (s : Socket) : Prop where
  lag_le : s.lag ≤ lag
  delay_le : s.delay ≤ delay
  pieces_le : ∀ piece ∈ s.pieces, piece.delay ≤ delay ∧ piece.lag ≤ lag

/-- No look at the clock that a read follows is after the deadline. -/
theorem DeadlineReader.clock_read_le {r : DeadlineReader} {delay lag : ℕ} {start : ℤ}
    (h : r.inner.clock ≤ max start r.deadline + delay + lag ∧ r.inner.LateBy delay lag) :
    r.read.2.deadline = r.deadline ∧ r.read.2.inner.clock ≤ max start r.deadline + delay + lag ∧
      r.read.2.inner.LateBy delay lag := by
  obtain ⟨⟨clock, pieces, ending, wait, late⟩, deadline⟩ := r
  obtain ⟨hclock, hlate, hwait, hpieces⟩ := h
  dsimp only at hclock hlate hwait hpieces
  unfold DeadlineReader.read Socket.read Socket.nextDelay
  dsimp only
  split
  · next hlt =>
    match pieces, ending, hpieces with
    | piece :: rest, _, hpieces =>
      obtain ⟨⟨hdelay, hpiece⟩, hrest⟩ := List.forall_mem_cons.1 hpieces
      dsimp only
      split
      · next hat => exact ⟨rfl, by dsimp only; omega, hlate, hwait, hrest⟩
      · exact ⟨rfl, by dsimp only; omega, hlate, hwait, hpieces⟩
    | [], none, hpieces => exact ⟨rfl, by dsimp only; omega, hlate, hwait, hpieces⟩
    | [], some (t, .eof), hpieces =>
      dsimp only
      split
      · exact ⟨rfl, by dsimp only; omega, hlate, hwait, hpieces⟩
      · exact ⟨rfl, by dsimp only; omega, hlate, hwait, hpieces⟩
    | [], some (t, .error), hpieces => exact ⟨rfl, by dsimp only; omega, hlate, hwait, hpieces⟩
  · exact ⟨rfl, hclock, hlate, hwait, hpieces⟩

/-! ## The prompt -/

section

variable (fromSlice : List UInt8 → Option Shared.Response)

def RESPONSE_TIMEOUT_MS : ℕ := 500

/-- The time by which the answer must be there, for a request sent at `clock`. -/
def deadlineFrom (clock : ℤ) : ℤ := clock + RESPONSE_TIMEOUT_MS * 1000000

/-- `query_daemon`.  There is a socket when the daemon accepted the connection and the request was
written to it; then also the reader that is left is given. -/
def queryDaemon : Option Socket → Option String × Option DeadlineReader
  | none => (none, none)
  | some stream =>
    let (output, reader) := readResponseFrom fromSlice DeadlineReader.read
      { inner := stream, deadline := deadlineFrom stream.clock }
    (output, some reader)

structure Prompted where
  printed : String
  spawnedDaemon : Bool
deriving DecidableEq

def Prompted.ofOutput : Option String → Prompted
  | some output => { printed := sanitizeOutput output, spawnedDaemon := false }
  | none => { printed := sanitizeOutput "? loading", spawnedDaemon := true }

def main (connection : Option Socket) : Prompted := .ofOutput (queryDaemon fromSlice connection).1

variable {fromSlice}

theorem readResponseFrom_deadline (r : DeadlineReader) :
    (readResponseFrom fromSlice DeadlineReader.read r).1 =
      if newline ∈ (arrived r.deadline r.inner).take MAX_RESPONSE_BYTES ∨
          EndsInTime r.deadline r.inner then
        responseOf fromSlice (arrived r.deadline r.inner)
      else none := by
  have hflat : ((inTime r.deadline r.inner.clock r.inner.pieces).map (·.bytes)).flatten =
      arrived r.deadline r.inner := rfl
  by_cases hends : EndsInTime r.deadline r.inner
  · rw [readResponseFrom_eq (r.behaves (.inl ⟨hends, rfl⟩)),
      readResponse_append inTime_reads (.inl rfl), hflat]
    simp only [hends, or_true]
  · rw [readResponseFrom_eq (r.behaves (.inr ⟨hends, rfl⟩)),
      readResponse_append inTime_reads (.inr rfl), hflat]
    simp only [hends, List.cons_ne_nil]

theorem main_of_socket (stream : Socket) :
    main fromSlice (some stream) = .ofOutput
      (if newline ∈ (arrived (deadlineFrom stream.clock) stream).take MAX_RESPONSE_BYTES ∨
          EndsInTime (deadlineFrom stream.clock) stream then
        responseOf fromSlice (arrived (deadlineFrom stream.clock) stream)
      else none) := by
  have hread := @readResponseFrom_deadline fromSlice
    { inner := stream, deadline := deadlineFrom stream.clock }
  dsimp only at hread
  unfold main queryDaemon
  dsimp only
  rw [hread]

/-- **What the prompt prints** depends on what arrives before its deadline alone, or so much later as
the read that takes it began late: the answer, if its line is complete or the stream has ended by then,
and otherwise a placeholder; and then it starts a daemon.  It reads no longer than to the deadline,
however the daemon cuts its answer into pieces; only the delay and the lag of the last read come on top
of that. -/
theorem main_eq (stream : Socket) {delay lag : ℕ} (hlag : stream.lag ≤ lag)
    (hdelay : stream.delay ≤ delay)
    (hpieces : ∀ piece ∈ stream.pieces, piece.delay ≤ delay ∧ piece.lag ≤ lag) :
    main fromSlice (some stream) = .ofOutput
        (if newline ∈ (arrived (deadlineFrom stream.clock) stream).take MAX_RESPONSE_BYTES ∨
            EndsInTime (deadlineFrom stream.clock) stream then
          responseOf fromSlice (arrived (deadlineFrom stream.clock) stream)
        else none) ∧
      ∀ reader ∈ (queryDaemon fromSlice (some stream)).2,
        reader.inner.clock ≤ stream.clock + RESPONSE_TIMEOUT_MS * 1000000 + delay + lag := by
  refine ⟨main_of_socket stream, ?_⟩
  rintro _ ⟨⟩
  have hstep : ∀ r : DeadlineReader, r.deadline = deadlineFrom stream.clock ∧
      r.inner.clock ≤ max stream.clock r.deadline + delay + lag ∧ r.inner.LateBy delay lag →
      r.read.2.deadline = deadlineFrom stream.clock ∧
      r.read.2.inner.clock ≤ max stream.clock r.read.2.deadline + delay + lag ∧
        r.read.2.inner.LateBy delay lag := by
    rintro r ⟨hd, h⟩
    obtain ⟨hd', h⟩ := DeadlineReader.clock_read_le h
    rw [hd']
    exact ⟨hd, h⟩
  have hkeeps := @readResponseFrom_keeps _ fromSlice _ _ hstep
    { inner := stream, deadline := deadlineFrom stream.clock }
    ⟨rfl, by dsimp only; omega, hlag, hdelay, hpieces⟩
  obtain ⟨hd, hclock, -⟩ := hkeeps
  rw [hd, deadlineFrom, max_eq_right (by omega)] at hclock
  exact hclock

end

/-- One byte of the answer is there at once, the rest after six tenths of a second. -/
def trickle : Socket where
  clock := 0
  pieces := [⟨1000, Short.json.take 1, 5, 20, by decide, by decide⟩,
    ⟨600000000, Short.json.drop 1 ++ [newline], 5, 20, by decide, by decide⟩]
  ending := none
  delay := 5
  lag := 30

theorem main_eq_trickle : main Short.fromSlice (some trickle) = .ofOutput none ∧
    ∀ reader ∈ (queryDaemon Short.fromSlice (some trickle)).2, reader.inner.clock ≤ 500000035 := by
  have h := @main_eq Short.fromSlice trickle 5 30 (by decide) (by decide) (by decide)
  refine ⟨h.1.trans ?_, h.2⟩
  rw [if_neg]
  decide

end MergeReady.Prompt
