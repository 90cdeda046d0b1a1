import MergeReady.Daemon.Entry

/-!
# The protocol of the daemon

The requests a client sends to the daemon and the responses it gets, each one line of JSON.
-/

namespace MergeReady.Shared

open MergeReady.Daemon (RefreshMode PrOutput)

/-- An entry of the cache, for display. -/
structure EntryDto where
  cwd : String
  branch : String
  prId : Option UInt64
  output : String
  cachedAtSecs : UInt64
deriving DecidableEq, Repr

inductive Request
  | query (cwd : String)
  | update (repoId output : String) (refreshMode : RefreshMode) (prOutputs : List PrOutput)
  | stop
  | status
  | entries
deriving DecidableEq, Repr

inductive Response
  | output (output : String)
  | ok
  | status (entries uptimeSecs : UInt64) (version : String)
  | entries (entries : List EntryDto)
deriving DecidableEq, Repr

/-- `b'\n'`, the end of a line. -/
def newline : UInt8 := 10

end MergeReady.Shared
