import Hx.Bridge.Authority
import Hx.Bridge.Carried
import Hx.Bridge.Client
import Hx.Bridge.Codec
import Hx.Bridge.ConfigBody
import Hx.Bridge.Crossing
import Hx.Bridge.Dialects
import Hx.Bridge.Frame
import Hx.Bridge.IdentityBody
import Hx.Bridge.Json
import Hx.Bridge.Pushed
import Hx.Bridge.RoundTrip
import Hx.Bridge.Spelled
import Hx.Bridge.Stream
import Hx.Bridge.Wire
import Hx.Checks.Active
import Hx.Checks.Address
import Hx.Checks.Base
import Hx.Checks.Clean
import Hx.Checks.Compared
import Hx.Checks.CookieIdentity
import Hx.Checks.Examined
import Hx.Checks.Independent
import Hx.Checks.Looks
import Hx.Checks.Passive
import Hx.Checks.ProbeUtil
import Hx.Checks.Symmetric
import Hx.Checks.Template
import Hx.Crawl.Cdp
import Hx.Crawl.Frontier
import Hx.Crawl.Normalise
import Hx.Crawl.Page
import Hx.Engagement.Configure
import Hx.Engagement.Load
import Hx.Engagement.RoundTrip
import Hx.Frames.Books
import Hx.Frames.Capture
import Hx.Harness.FailStop
import Hx.Harness.Halt
import Hx.Harness.Interleavings
import Hx.Harness.Matching
import Hx.Harness.Requests
import Hx.Harness.Sentinel
import Hx.Harness.Server
import Hx.Harness.Session
import Hx.Harness.Teardown
import Hx.Harness.Threads
import Hx.Identity.Bound
import Hx.Identity.Hosts
import Hx.Identity.Origins
import Hx.Issue.Accepted
import Hx.Issue.Boundary
import Hx.Issue.HttpText
import Hx.Issue.Request
import Hx.Issue.Unambiguous
import Hx.Java.Case
import Hx.Java.Long
import Hx.Java.Text
import Hx.Java.Utf16
import Hx.Library.Bucket
import Hx.Library.CodeSpans
import Hx.Library.Codes
import Hx.Library.Custody
import Hx.Library.Cuts
import Hx.Library.Decimal
import Hx.Library.Effects
import Hx.Library.Firsts
import Hx.Library.Framing
import Hx.Library.Gathered
import Hx.Library.Glob
import Hx.Library.Interleaved
import Hx.Library.Items
import Hx.Library.JsonText
import Hx.Library.Lines
import Hx.Library.Lowering
import Hx.Library.Message
import Hx.Library.Occurrences
import Hx.Library.Pieces
import Hx.Library.Prefixes
import Hx.Library.Rolling
import Hx.Library.Stages
import Hx.Library.Transition
import Hx.Library.Utf8
import Hx.Library.Worklist
import Hx.Policy.Below
import Hx.Policy.BestFit
import Hx.Policy.Bounds
import Hx.Policy.Closure
import Hx.Policy.Decide
import Hx.Policy.DenyCompleteness
import Hx.Policy.Directories
import Hx.Policy.Distress
import Hx.Policy.DotSegments
import Hx.Policy.FoldedNames
import Hx.Policy.GlobLoop
import Hx.Policy.LeastReadings
import Hx.Policy.Lengths
import Hx.Policy.Limiter
import Hx.Policy.Named
import Hx.Policy.Names
import Hx.Policy.Order
import Hx.Policy.Readings
import Hx.Policy.Recomputed
import Hx.Policy.Renderings
import Hx.Policy.Respelling
import Hx.Policy.RetryAfter
import Hx.Policy.SpelledAlike
import Hx.Policy.Spellings
import Hx.Policy.Tightened
import Hx.Policy.Transforms
import Hx.Policy.Window
import Hx.Proxy.Capture
import Hx.Proxy.Conserved
import Hx.Proxy.Gate
import Hx.Proxy.Pending
import Hx.Python.Json
import Hx.Python.Replace
import Hx.Python.Text
import Hx.Python.Url
import Hx.Python.Written
import Hx.Redact.Again
import Hx.Redact.Alike
import Hx.Redact.Cookies
import Hx.Redact.Credentials
import Hx.Redact.Kept
import Hx.Redact.Masked
import Hx.Redact.Observed
import Hx.Redact.Params
import Hx.Redact.Places
import Hx.Redact.Response
import Hx.Redact.Settled
import Hx.Redact.Target
import Hx.Report.Code
import Hx.Scan.Accounted
import Hx.Scan.Books
import Hx.Scan.Bracket
import Hx.Scan.Calls
import Hx.Scan.Canaries
import Hx.Scan.Done
import Hx.Scan.History
import Hx.Scan.Identity
import Hx.Scan.Loop
import Hx.Scan.Pass
import Hx.Scan.Proven
import Hx.Scan.Retired
import Hx.Scan.Row
import Hx.Scan.Rows
import Hx.Scan.Run
import Hx.Scan.Vouched
import Hx.Scan.Wide
import Hx.Send.Arming
import Hx.Send.Classified
import Hx.Send.Connection
import Hx.Send.Destination
import Hx.Send.HaltSwitch
import Hx.Send.Injected
import Hx.Send.Interim
import Hx.Send.Limits
import Hx.Send.Registry
import Hx.Send.Reparsed
import Hx.Send.Request
import Hx.Send.Sender
import Hx.Send.Spelled
import Hx.Send.Status
import Hx.Store.Beside
import Hx.Store.Blobs
import Hx.Store.Dedupe
import Hx.Store.Lifecycle
import Hx.Store.Observed
import Hx.Store.Records
import Hx.Store.Scope
import Hx.Store.Stale
import Hx.Store.Transaction
import Hx.Store.Triage
import Hx.Surface.Derive
import Hx.Surface.Keys
import Hx.Surface.Members
import Hx.Surface.Names
import Hx.Tools.Conforms
import Hx.Tools.Dispatch
import Hx.Tools.Door
import Hx.Tools.Enforced
import Hx.Tools.Grep
import Hx.Tools.Held
import Hx.Tools.InFlight
import Hx.Tools.Journal
import Hx.Tools.Live
import Hx.Tools.Mcp
import Hx.Tools.Paging
import Hx.Tools.Recorded
import Hx.Tools.Replay
import Hx.Tools.Schema
import Hx.Wiring.Extension
import Hx.Wiring.Issued
