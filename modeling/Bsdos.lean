import Bsdos.Effects.Prog
import Bsdos.Effects.Protocol
import Bsdos.Effects.Exec
import Bsdos.Effects.Replay
import Bsdos.Effects.Ensures
import Bsdos.Text
import Bsdos.Lifecycle.Basic
import Bsdos.Lifecycle.Commands
import Bsdos.Lifecycle.Monitor
import Bsdos.Lifecycle.Dispatch
import Bsdos.Lifecycle.System
import Bsdos.Lifecycle.Calls
import Bsdos.Lifecycle.Served
import Bsdos.Lifecycle.Execution
import Bsdos.Lifecycle.Restore
import Bsdos.Lifecycle.Eviction
import Bsdos.Lifecycle.Foreground
import Bsdos.Lifecycle.Progress
import Bsdos.Streams.Basic
import Bsdos.Streams.Manager
import Bsdos.Streams.System
import Bsdos.Streams.Effort
import Bsdos.Streams.Calls
import Bsdos.Effects.Ledger
import Bsdos.Streams.Overlap
import Bsdos.Streams.Orphans
import Bsdos.Streams.Cancelled
import Bsdos.Streams.Stopped
import Bsdos.Effects.Observe
import Bsdos.Lifecycle.Guard
import Bsdos.Lifecycle.Sampled
import Bsdos.Lifecycle.Idle
import Bsdos.Pkgd.Basic
import Bsdos.Pkgd.Install
import Bsdos.Pkgd.Verified
import Bsdos.Pkgd.Names
import Bsdos.Pkgd.Build
import Bsdos.Pkgd.Verdict
import Bsdos.Pkgd.Tampered
import Bsdos.Pkgd.RoundTrip
import Bsdos.Files.Path
import Bsdos.Octets.Endian
import Bsdos.Octets.Slice
import Bsdos.Octets.Unicode
import Bsdos.Conf.Grammar
import Bsdos.Jpk.Manager
import Bsdos.Jpk.Roots
import Bsdos.Jpk.JailConf
import Bsdos.Lifecycle.Signals
import Bsdos.Lifecycle.Exact
import Bsdos.Lifecycle.Tracked
import Bsdos.Streams.Served
import Bsdos.Streams.Successor
import Bsdos.Streams.Isolated
import Bsdos.Effects.Beside
import Bsdos.Streams.Forwarder
import Bsdos.Streams.Silent
import Bsdos.Streams.Registry
import Bsdos.Streams.Wishes
import Bsdos.Macho.Parser
import Bsdos.Macho.RoundTrip
import Bsdos.Octets.Utf16
import Bsdos.Maps.Ordered
import Bsdos.Plist.Binary
import Bsdos.Plist.Decoded
import Bsdos.Plist.Encoding
import Bsdos.Plist.Scan
import Bsdos.Plist.Info
import Bsdos.Plist.Provision
import Bsdos.Lines
import Bsdos.Plist.Markup
import Bsdos.Plist.Read
import Bsdos.Plist.Isolate
import Bsdos.Plist.Scoped
import Bsdos.Search.Substring
import Bsdos.Plist.Agree
import Bsdos.Streams.Events
import Bsdos.Streams.Packed
import Bsdos.Lifecycle.Dead
import Bsdos.Lifecycle.Pressure
import Bsdos.Lifecycle.Undone
import Bsdos.Files.Walk
import Bsdos.Streams.Control
import Bsdos.Streams.Contained
import Bsdos.Shell.Words
import Bsdos.Streams.Quoting
import Bsdos.Core.Config
import Bsdos.Core.Zenoh
import Bsdos.Core.Announced
import Bsdos.Lifecycle.JpkConfig
import Bsdos.Pkgd.Descriptor
import Bsdos.Pkgd.Understood
import Bsdos.Run.Jpk
import Bsdos.Macho.Report
import Bsdos.Run.Frameworks
import Bsdos.Run.Report
import Bsdos.Files.Tree
import Bsdos.Run.Ipa
import Bsdos.Run.Contained
import Bsdos.Core.Hal
import Bsdos.Pkgd.Atomic
import Bsdos.Files.Links
import Bsdos.Pkgd.Symlinks
import Bsdos.Maps.Keyed
import Bsdos.Streams.Store
import Bsdos.Effects.Around
import Bsdos.Streams.Ready
import Bsdos.Jpk.Managed
import Bsdos.Run.Named
import Bsdos.Lifecycle.Loading
import Bsdos.Scanning
import Bsdos.Toml.Grammar
import Bsdos.Toml.Written
import Bsdos.Run.Faithful
import Bsdos.Streams.Faithful
import Bsdos.Blanks
import Bsdos.Core.Capnp
import Bsdos.Lifecycle.FrontEnds
import Bsdos.Run.Hard
import Bsdos.Streams.Texts
import Bsdos.Macho.Slices
import Bsdos.Maps.Sorted
import Bsdos.Run.Discover
import Bsdos.Run.Emit
import Bsdos.Plist.Denoted
import Bsdos.Effects.Machine
import Bsdos.Plist.Checked
import Bsdos.Plist.Cycles
import Bsdos.Octets.Boundary
import Bsdos.Search.Occurrences
import Bsdos.Plist.Balanced
import Bsdos.Plist.Walk
import Bsdos.Macho.Bounded
import Bsdos.Macho.Overfull
import Bsdos.Effects.Expand
import Bsdos.Streams.Latch
import Bsdos.Streams.Monotone
import Bsdos.Json.Lexer
import Bsdos.Json.Parser
import Bsdos.Streams.Reports
import Bsdos.Framing
import Bsdos.Wlstream.Parser
import Bsdos.Wlstream.RoundTrip
import Bsdos.Wlstream.Rect
import Bsdos.Wlstream.Compositor
import Bsdos.Wlstream.Picture
import Bsdos.Wlstream.Viewer
import Bsdos.Wlstream.Guarded
import Bsdos.Lifecycle.Enumeration
import Bsdos.Streams.Input
import Bsdos.Octets.Strict
import Bsdos.Octets.Environ
import Bsdos.Run.Launch
import Bsdos.Streams.Resize
import Bsdos.Search.Cut
import Bsdos.Pkgd.Inspect
