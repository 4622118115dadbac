import OpenabPty.Core.Trace
import OpenabPty.Core.History
import OpenabPty.Core.Threads
import OpenabPty.Basic
import OpenabPty.RingBuf
import OpenabPty.Outbound
import OpenabPty.Token
import OpenabPty.Session
import OpenabPty.Manager
import OpenabPty.Ops
import OpenabPty.Conn
import OpenabPty.Runtime
import OpenabPty.Sections
import OpenabPty.Base
import OpenabPty.NoOrphan
import OpenabPty.Admission
import OpenabPty.Ownership
import OpenabPty.Effects
import OpenabPty.Inert
import OpenabPty.Credentials
import OpenabPty.Fencing
import OpenabPty.Drain
import OpenabPty.Attaching
import OpenabPty.Restart
import OpenabPty.KillDomain
import OpenabPty.SpawnFailure
import OpenabPty.Strangers
import OpenabPty.Replay
import OpenabPty.TermFilter
import OpenabPty.Residue
import OpenabPty.Core.Pieces
import OpenabPty.Verifier
import OpenabPty.Config
import OpenabPty.CloudFree
import OpenabPty.AdminAuth
import OpenabPty.Lockout
import OpenabPty.Macs
import OpenabPty.Core.Json
import OpenabPty.Mux
import OpenabPty.PendingTable
import OpenabPty.Uncrossed
import OpenabPty.CapProxy
import OpenabPty.Mirror
import OpenabPty.Strip
import OpenabPty.ToolsHub
import OpenabPty.Lease
import OpenabPty.Revocation
import OpenabPty.LoopbackKeys
import OpenabPty.Wires
import OpenabPty.SingleAttach
import OpenabPty.CloseCodes
import OpenabPty.Warnings
import OpenabPty.Works
import OpenabPty.Dates
import OpenabPty.IdleTtl
import OpenabPty.Shutdown
import OpenabPty.Core.Fifo
import OpenabPty.Input
import OpenabPty.Stream
import OpenabPty.Handoff
import OpenabPty.Seam
import OpenabPty.Resync
import OpenabPty.Cursor
import OpenabPty.TokenHistory
import OpenabPty.Core.Window
import OpenabPty.Scrollback
import OpenabPty.Backlog
import OpenabPty.Core.Notify
import OpenabPty.Delivery
import OpenabPty.GapFrames
import OpenabPty.CloseLast
import OpenabPty.Wakeups
import OpenabPty.Core.FixedWindow
import OpenabPty.Takeovers
import OpenabPty.Replaced
import OpenabPty.Resizing
import OpenabPty.Transparency
import OpenabPty.ChildEnv
import OpenabPty.Deadlines
import OpenabPty.Budgets
import OpenabPty.Escalation
import OpenabPty.HalfOpen
import OpenabPty.Core.Bursts
import OpenabPty.Core.Recency
import OpenabPty.Upgrades
import OpenabPty.Throttle
import OpenabPty.Core.Backoff
import OpenabPty.Guesses
import OpenabPty.Core.Lookahead
import OpenabPty.Margins
import OpenabPty.Kitty
import OpenabPty.Core.Cuts
import OpenabPty.Core.Loops
import OpenabPty.Core.Cursor
import OpenabPty.Slices
import OpenabPty.Partition
import OpenabPty.Untorn
import OpenabPty.Core.Paths
import OpenabPty.Core.FileTree
import OpenabPty.Core.PathWalk
import OpenabPty.Core.Halfway
import OpenabPty.Core.Disk
import OpenabPty.Seed
import OpenabPty.SeedLinks
import OpenabPty.SeedMove
import OpenabPty.SeedExtract
import OpenabPty.SeedApply
import OpenabPty.ProcScan
import OpenabPty.FrontDoor
import OpenabPty.Admitted
import OpenabPty.MacLiveness
import OpenabPty.Loopback
import OpenabPty.Frames
import OpenabPty.Sizes
import OpenabPty.Boot
import OpenabPty.Openings
import OpenabPty.Deployment
