import MergeReady.Lib.Time
import MergeReady.Lib.Table
import MergeReady.Lib.Run
import MergeReady.Daemon.Policy
import MergeReady.Daemon.Transition
import MergeReady.Daemon.Lock
import MergeReady.Daemon.Backoff
import MergeReady.Daemon.Answers
import MergeReady.Daemon.Branches
import MergeReady.Prompt.Sanitize
import MergeReady.Evaluation.DisplayConfig
import MergeReady.Daemon.Independence
import MergeReady.Daemon.Alarm
import MergeReady.Daemon.Cold
import MergeReady.Daemon.OnDemand
import MergeReady.Daemon.Scaling
import MergeReady.Daemon.Bottleneck
import MergeReady.Daemon.Outdated
import MergeReady.Evaluation.Checks
import MergeReady.Evaluation.AnsiStyle
import MergeReady.Evaluation.Gh
import MergeReady.Evaluation.Render
import MergeReady.Lib.Group
import MergeReady.Evaluation.Prompt
import MergeReady.Evaluation.Grouping
import MergeReady.Prompt.Response
import MergeReady.Daemon.Tick
import MergeReady.Evaluation.Latest
import MergeReady.Daemon.Connection
import MergeReady.Evaluation.Scanner
import MergeReady.Evaluation.Template
import MergeReady.Prompt.Rendered
import MergeReady.Evaluation.Logger
import MergeReady.Evaluation.Rotation
import MergeReady.Daemon.Endpoint
import MergeReady.Evaluation.Depth
import MergeReady.Evaluation.StyleFold
import MergeReady.Evaluation.ColorGrammar
import MergeReady.Evaluation.LogFaults
import MergeReady.Daemon.Formula
import MergeReady.Evaluation.ComparePath
import MergeReady.Evaluation.TomlLoader
import MergeReady.Daemon.RateLimitClient
import MergeReady.Evaluation.FetchPrompt
import MergeReady.Evaluation.Truncation
import MergeReady.Daemon.Watch
import MergeReady.Daemon.Actor
import MergeReady.Daemon.Lifetime
import MergeReady.Prompt.Deadline
import MergeReady.Prompt.Query
import MergeReady.Evaluation.Refresh
import MergeReady.Prompt.Pipeline
import MergeReady.Daemon.Discovery
import MergeReady.Lib.Trace
import MergeReady.Daemon.Pid
import MergeReady.Daemon.Stop
import MergeReady.Daemon.Cleanup
import MergeReady.Daemon.Listener
import MergeReady.Daemon.RateLimitFetcher
import MergeReady.Daemon.Launch
import MergeReady.Daemon.Entries
