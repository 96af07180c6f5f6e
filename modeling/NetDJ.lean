import NetDJ.Lib.Machine
import NetDJ.Lib.Feed
import NetDJ.Lib.Lists
import NetDJ.Lib.Ere
import NetDJ.Lib.Splits
import NetDJ.Lib.Base64
import NetDJ.Util
import NetDJ.Decoding
import NetDJ.Daemon.HTTP
import NetDJ.Daemon.RequestText
import NetDJ.Daemon.Headers
import NetDJ.Daemon.Sprintf
import NetDJ.Daemon.Packet
import NetDJ.Daemon.HTTPResponse
import NetDJ.Daemon.Reuse
import NetDJ.Daemon.Signals
import NetDJ.Daemon.AccessConf
import NetDJ.Daemon.HttpThread
import NetDJ.Engine.Report
import NetDJ.Engine.QString
import NetDJ.Engine.AccessChecker
import NetDJ.Engine.Levels
import NetDJ.Engine.Server
import NetDJ.Engine.Songlist
import NetDJ.Engine.SonglistDir
import NetDJ.Engine.SonglistFile
import NetDJ.Engine.Collections
import NetDJ.Engine.PlayerThread
import NetDJ.Engine.Queue
import NetDJ.Engine.Requests
import NetDJ.Daemon.Directory
import NetDJ.Daemon.Playlist
import NetDJ.Daemon.State
import NetDJ.Daemon.Arrivals
import NetDJ.Daemon.AddSong
import NetDJ.Lib.Turns
import NetDJ.Daemon.NextListed
import NetDJ.Daemon.CurrentSong
import NetDJ.Daemon.Player
import NetDJ.Daemon.Players
import NetDJ.Engine.Turn
import NetDJ.Engine.Shutdown
import NetDJ.Engine.LogService
import NetDJ.Engine.Clients
import NetDJ.Engine.Listing
import NetDJ.Engine.CurrentElement
import NetDJ.Daemon.ID3Tag
import NetDJ.Daemon.IndexXml
import NetDJ.Lib.IStream
import NetDJ.Daemon.RequestLoops
import NetDJ.Daemon.Params
import NetDJ.Engine.ScanLoop
import NetDJ.Daemon.Configuration
import NetDJ.Daemon.AccessFile
import NetDJ.Daemon.ListFile
import NetDJ.Engine.FileVersions
import NetDJ.Lib.Rounding
import NetDJ.Rand
import NetDJ.Engine.Configuration
import NetDJ.Daemon.TagBytes
import NetDJ.Engine.Unids
import NetDJ.Engine.NextSong
import NetDJ.Engine.Streaming
import NetDJ.Gnut.CacheFilter
import NetDJ.Daemon.Progress
import NetDJ.Daemon.Pages
import NetDJ.Lib.Traces
import NetDJ.Engine.Listeners
import NetDJ.Engine.LogStream
import NetDJ.Engine.Skips
import NetDJ.Engine.Priority
import NetDJ.Engine.Dump
import NetDJ.Daemon.Deletes
import NetDJ.Lib.Memo
import NetDJ.Daemon.PageCache
import NetDJ.Daemon.Authority
import NetDJ.Daemon.Login
import NetDJ.Daemon.PlayLog
import NetDJ.Daemon.Program
import NetDJ.Engine.RequestNumbers
import NetDJ.Engine.Mainloop
import NetDJ.Engine.CurrentSong
import NetDJ.Lib.Elements
import NetDJ.Engine.SongXml
import NetDJ.Engine.NextSongs
import NetDJ.Lib.Struct
import NetDJ.Daemon.PhpPage
