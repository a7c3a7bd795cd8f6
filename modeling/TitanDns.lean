import TitanDns.Lib.Run
import TitanDns.Lib.Loop
import TitanDns.Lib.PartialMap
import TitanDns.Lib.IterHash
import TitanDns.Lib.Select
import TitanDns.Lib.Channel
import TitanDns.Lib.Broadcast
import TitanDns.Lib.Passes
import TitanDns.Lib.Fifo
import TitanDns.Lib.LittleEndian
import TitanDns.Lib.Framing
import TitanDns.Dns.Name
import TitanDns.Dns.Message
import TitanDns.Bpf.Frame
import TitanDns.Bpf.Filter
import TitanDns.Bpf.Userspace
import TitanDns.Bpf.WireHash
import TitanDns.Bpf.Blacklist
import TitanDns.Bpf.CacheRuns
import TitanDns.Bpf.RefreshRing
import TitanDns.Core.Singleflight
import TitanDns.Core.Context
import TitanDns.Plugins.Fallback
import TitanDns.Plugins.Forward
import TitanDns.Plugins.Cache
import TitanDns.Plugins.Blockers
import TitanDns.Plugins.Responders
import TitanDns.Plugins.Pipeline
import TitanDns.Plugins.Failover
import TitanDns.Plugins.Executed
import TitanDns.Plugins.Blocking
import TitanDns.Plugins.SmartForward
import TitanDns.Plugins.Learning
import TitanDns.Plugins.RecursiveBackend
import TitanDns.Plugins.CacheSystem
import TitanDns.Plugins.KernelAnswers
import TitanDns.Plugins.NegativeCaching
import TitanDns.Plugins.CacheQuestions
import TitanDns.Plugins.Coherence
import TitanDns.Plugins.ShadowRefresh
import TitanDns.Autopilot.CircuitBreaker
import TitanDns.Autopilot.Registry
import TitanDns.Autopilot.LockOut
import TitanDns.Autopilot.Ranking
import TitanDns.Autopilot.RankingCache
import TitanDns.Autopilot.QuerySequence
import TitanDns.Plugins.SmartStrategy
import TitanDns.Plugins.RaceOutcome
import TitanDns.Plugins.Prefetch
import TitanDns.Plugins.ProxyGate
import TitanDns.Plugins.UdpExchange
import TitanDns.Plugins.Socks5Tunnel
import TitanDns.Plugins.Answering
import TitanDns.Plugins.Calls
import TitanDns.Server.Hooks
import TitanDns.Server.Poison
import TitanDns.Server.Contract
import TitanDns.Server.Dropped
import TitanDns.Server.UdpBuffer
import TitanDns.Server.BatchSender
import TitanDns.Reload.ConfigWatcher
import TitanDns.Reload.HashGuard
import TitanDns.Reload.Listeners
import TitanDns.Reload.Registry
import TitanDns.Plugins.DotPool
import TitanDns.Server.TtlClamp
import TitanDns.Lib.Records
import TitanDns.Plugins.Persistence
import TitanDns.Plugins.EntryBounds
import TitanDns.Plugins.Staleness
import TitanDns.Plugins.TtlAgeing
import TitanDns.Plugins.KeySpelling
import TitanDns.Plugins.RoundTrip
import TitanDns.Server.Echo
import TitanDns.Lib.Resolution
import TitanDns.Reload.Build
import TitanDns.Reload.FallbackOrder
import TitanDns.Bpf.Transmit
import TitanDns.Plugins.LearningFile
import TitanDns.Plugins.Isolation
import TitanDns.Plugins.StaleConnection
import TitanDns.Lib.Trie
import TitanDns.Plugins.DomainRules
import TitanDns.Plugins.DomainMatcher
import TitanDns.Lib.TopK
import TitanDns.Server.BestIps
import TitanDns.Plugins.Classification
import TitanDns.Plugins.RateLimiter
import TitanDns.Plugins.Conditions
import TitanDns.Plugins.GeoSite
import TitanDns.Plugins.AdBlockRules
import TitanDns.Plugins.AnswerChain
import TitanDns.Dns.Zones
import TitanDns.Plugins.ZoneSearch
import TitanDns.Plugins.Completeness
import TitanDns.Dns.Addresses
import TitanDns.Autopilot.EcsOption
import TitanDns.Plugins.Dns64
import TitanDns.Plugins.DomesticNames
import TitanDns.Plugins.HitPaths
import TitanDns.Plugins.ProbeSort
import TitanDns.Plugins.LoadSafety
import TitanDns.Autopilot.FloodDetection
import TitanDns.Server.IpVerdicts
import TitanDns.Autopilot.Score
import TitanDns.Autopilot.QpsTracker
import TitanDns.Autopilot.QueryRate
import TitanDns.Plugins.Socks5Frames
import TitanDns.Core.ZeroCopyQuestion
import TitanDns.Plugins.HostsFile
import TitanDns.Autopilot.DomainMemory
import TitanDns.Autopilot.MemoryBounds
import TitanDns.Lib.Cooldown
import TitanDns.Plugins.SmartRefresh
import TitanDns.Plugins.RefreshLifetime
import TitanDns.Lib.Tally
import TitanDns.Lib.Atomic
import TitanDns.Core.LockFree
import TitanDns.Core.Linearization
import TitanDns.Core.ShardCounts
import TitanDns.Core.ClearRuns
import TitanDns.Server.Streams
import TitanDns.Core.MetricsAggregation
import TitanDns.Lib.Ring
import TitanDns.Lib.ShardedTable
import TitanDns.Core.Stats
import TitanDns.Autopilot.WeightTuning
import TitanDns.Autopilot.StateFile
import TitanDns.Autopilot.LearningQueue
import TitanDns.Autopilot.TimePatterns
import TitanDns.Plugins.QueryLog
import TitanDns.Autopilot.UdpBlocking
import TitanDns.Autopilot.HotDomains
import TitanDns.Lib.Slots
import TitanDns.Lib.WorkerPool
import TitanDns.Server.BatchIo
import TitanDns.Server.UdpServer
import TitanDns.Server.Replies
