import MergeReady.Lib.Table
import MergeReady.Daemon.Policy

/-!
# The store, its events and its effects

`CacheStore` is all the state of the daemon.  The entries are a table, whose row order stands for
the iteration order of the hash map; `CacheStore.Same` is equality up to that order.
-/

namespace MergeReady.Daemon

open MergeReady.Lib

/-- What a transition asks its caller to do. -/
inductive Effect
  /-- start a background refresh -/
  | spawnRefresh (repoId : RepoId) (cwd : String)
  /-- answer the client -/
  | emitOutput (output : String)
  /-- an entry was removed for its age -/
  | recordExpired (repoId : RepoId)
  /-- refreshing stops until `until_` -/
  | enterBackoff (until_ : Instant)
deriving DecidableEq

structure CacheStore where
  entries : Table RepoId CacheEntryState
  latestRateLimit : Option RateLimitSnapshot
  backoffUntil : Option Instant
deriving DecidableEq

namespace CacheStore

def new : CacheStore := { entries := ∅, latestRateLimit := none, backoffUntil := none }

def isBackedOff (s : CacheStore) (now : Instant) : Bool :=
  s.backoffUntil.any fun t => decide (now < t)

def withEntries (s : CacheStore) (entries : Table RepoId CacheEntryState) : CacheStore :=
  { s with entries := entries }

def withBackoffUntil (s : CacheStore) (t : Option Instant) : CacheStore :=
  { s with backoffUntil := t }

def withLatestRateLimit (s : CacheStore) (r : Option RateLimitSnapshot) : CacheStore :=
  { s with latestRateLimit := r }

/-- The entry of `id`, if there is one. -/
def entry (s : CacheStore) (id : RepoId) : Option CacheEntryState := s.entries.lookup id

/-- The store with one entry. -/
def single (id : RepoId) (e : CacheEntryState) : CacheStore :=
  new.withEntries (AList.singleton id e)

/-- The same store, its rows perhaps in another order. -/
def Same (s t : CacheStore) : Prop :=
  s.entries.entries.Perm t.entries.entries ∧ s.latestRateLimit = t.latestRateLimit ∧
    s.backoffUntil = t.backoffUntil

theorem Same.refl (s : CacheStore) : s.Same s := ⟨List.Perm.refl _, rfl, rfl⟩

theorem Same.entry_eq {s t : CacheStore} (h : s.Same t) (id : RepoId) : s.entry id = t.entry id :=
  Table.lookup_perm h.1 id

@[simp] theorem entry_new (id : RepoId) : new.entry id = none := rfl

@[simp] theorem entry_withEntries (s : CacheStore) (t : Table RepoId CacheEntryState)
    (id : RepoId) : (s.withEntries t).entry id = t.lookup id := rfl

theorem entry_single_eq_some {id id' : RepoId} {e e' : CacheEntryState} :
    (single id e).entry id' = some e' ↔ id' = id ∧ e' = e := by
  unfold entry
  rw [← Table.mem_entries]
  constructor
  · intro h
    cases List.mem_singleton.1 h
    exact ⟨rfl, rfl⟩
  · rintro ⟨rfl, rfl⟩
    exact List.mem_singleton.2 rfl

@[simp] theorem backoffUntil_withEntries (s : CacheStore) (t : Table RepoId CacheEntryState) :
    (s.withEntries t).backoffUntil = s.backoffUntil := rfl

theorem isBackedOff_iff {s : CacheStore} {now : Instant} :
    s.isBackedOff now = true ↔ ∃ t, s.backoffUntil = some t ∧ now < t := by
  unfold isBackedOff
  rw [Option.any_eq_true]
  simp only [decide_eq_true_eq]

end CacheStore

structure QueryEvent where
  cwd : String
  branch : String
  now : Instant
  nowWall : SystemTime
  staleTtl : UInt64

structure RefreshCompletedEvent where
  output : String
  prOutputs : List PrOutput
  refreshMode : RefreshMode
  now : Instant
  nowWall : SystemTime

structure SchedulerTickInput where
  now : Instant
  nowWall : SystemTime
  policy : RefreshPolicy
  refreshLockTimeoutSecs : UInt64
  entryMaxAgeSecs : UInt64

structure RateLimitObservedEvent where
  snapshot : RateLimitSnapshot
  now : Instant
  nowWall : SystemTime

end MergeReady.Daemon
