import Ghostlane.Lib.Runs
import Ghostlane.Lib.Text
import Ghostlane.Lib.Collections
import Ghostlane.Lib.Outcomes
import Ghostlane.Lib.Scan
import Ghostlane.Lib.Bytes
import Ghostlane.Lib.Utf8
import Ghostlane.Lib.Absent
import Ghostlane.Lib.Base64
import Ghostlane.Lib.BlockCipher
import Ghostlane.Lib.Exclusive
import Ghostlane.Lib.FirstMatch
import Ghostlane.Lib.Rewrite
import Ghostlane.Lib.Stretch
import Ghostlane.Cli.Store
import Ghostlane.Cli.Links
import Ghostlane.Cli.Resolve
import Ghostlane.Cli.ResolveSound
import Ghostlane.Cli.NetUrl
import Ghostlane.Cli.Scrub
import Ghostlane.Cli.MaskUrl
import Ghostlane.Cli.ScrubShows
import Ghostlane.Cli.Strings
import Ghostlane.Cli.Crypt1
import Ghostlane.Cli.Fetch
import Ghostlane.Cli.Share
import Ghostlane.Cli.Lines
import Ghostlane.Cli.Routes
import Ghostlane.Cli.SwitchRules
import Ghostlane.Cli.Daemon.State
import Ghostlane.Cli.Daemon.Requests
import Ghostlane.Cli.Daemon.Sections
import Ghostlane.Cli.Daemon.Loop
import Ghostlane.Cli.Daemon.System
import Ghostlane.Cli.Daemon.KillSwitch
import Ghostlane.Cli.Daemon.Selections
import Ghostlane.Cli.Daemon.SavedConfig
import Ghostlane.Cli.Daemon.Rollback
import Ghostlane.Cli.Daemon.Removal
import Ghostlane.Cli.Daemon.Fair
import Ghostlane.Cli.Schedule
import Ghostlane.Cli.Shown
import Ghostlane.App.Strings
import Ghostlane.App.LinkParser
import Ghostlane.App.Location
import Ghostlane.App.Bundle
import Ghostlane.App.Share
import Ghostlane.App.Import
import Ghostlane.App.Fetch
import Ghostlane.App.Repository
import Ghostlane.App.Refresh
import Ghostlane.App.Operations
import Ghostlane.App.Normal
import Ghostlane.App.Naming
import Ghostlane.App.ImportSound
import Ghostlane.App.Clean
import Ghostlane.App.ImportStored
import Ghostlane.App.ImportFrame
import Ghostlane.App.Filing
import Ghostlane.App.Blocks
import Ghostlane.App.Answers
import Ghostlane.App.Steps
import Ghostlane.App.RefreshSound
import Ghostlane.App.Selection
import Ghostlane.App.Withdrawn
import Ghostlane.App.WellFormed
import Ghostlane.App.Deletion
import Ghostlane.App.Settled
import Ghostlane.App.Origin
import Ghostlane.App.Moved
import Ghostlane.App.Backup
import Ghostlane.App.Routing
import Ghostlane.App.RoutingSound
import Ghostlane.App.TransportGroup
import Ghostlane.App.SessionFailover
import Ghostlane.App.LogScrubber
import Ghostlane.App.ScrubAround
import Ghostlane.App.ScrubNames
import Ghostlane.App.ScrubLinks
import Ghostlane.App.ScrubUrls
import Ghostlane.App.ScrubUrlFate
import Ghostlane.Desktop.VpnManager
import Ghostlane.Desktop.TunnelDaemon
import Ghostlane.Desktop.MacTun
import Ghostlane.Lib.Inet
import Ghostlane.Lib.PacketFilter
import Ghostlane.Desktop.LinuxTun
import Ghostlane.Across.SharedRooms
import Ghostlane.Across.SharedBack
import Ghostlane.Across.FailoverRooms
import Ghostlane.Phone.RoomKeeper
import Ghostlane.Desktop.HoldRequest
import Ghostlane.Desktop.HoldRules
import Ghostlane.Lib.Xray
import Ghostlane.App.XrayConfig
import Ghostlane.Lib.Punycode
import Ghostlane.App.Punycode
import Ghostlane.App.RoutingRule
import Ghostlane.App.RuleAddress
import Ghostlane.App.RuleSpelling
import Ghostlane.App.RuleGrammar
import Ghostlane.App.LinkReading
import Ghostlane.App.Dialable
import Ghostlane.App.Decoding
import Ghostlane.App.ShadowsocksSpellings
import Ghostlane.App.SmartConnect
import Ghostlane.Desktop.TunnelTraffic
import Ghostlane.App.SessionTraffic
import Ghostlane.Desktop.LineSupervision
import Ghostlane.App.AppUpdate
import Ghostlane.Lib.Fields
import Ghostlane.Across.HostUsage
import Ghostlane.App.UrlDecode
import Ghostlane.Lib.Intervals
import Ghostlane.Desktop.WindowsTun
import Ghostlane.Lib.Quoting
import Ghostlane.Desktop.WindowsRestart
import Ghostlane.Lib.Commands
import Ghostlane.Desktop.ProxyTarget
import Ghostlane.Desktop.MacOsProxy
import Ghostlane.Desktop.WindowsProxy
import Ghostlane.Desktop.SystemProxy
import Ghostlane.App.LowestConnection
import Ghostlane.App.LowestSound
import Ghostlane.App.ImportLink
import Ghostlane.Across.SubscriptionBody
import Ghostlane.Cli.FragmentLabels
import Ghostlane.Cli.EntryIds
import Ghostlane.App.ScrubSound
import Ghostlane.App.DesktopTun
import Ghostlane.Lib.Delimiter
import Ghostlane.App.PhoneImport
import Ghostlane.App.CryptCodec
import Ghostlane.Across.CryptLinks
import Ghostlane.Desktop.FollowedFile
import Ghostlane.Lib.Since
import Ghostlane.App.OlcrtcBoard
