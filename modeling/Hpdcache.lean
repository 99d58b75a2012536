import Hpdcache.Lib.Fifo
import Hpdcache.Lib.Arbiter
import Hpdcache.Lib.Select
import Hpdcache.Disposition
import Hpdcache.Grant
import Hpdcache.Lib.System
import Hpdcache.Indexing
import Hpdcache.MemCtrl
import Hpdcache.MissHandler
import Hpdcache.Flush
import Hpdcache.Wbuf
import Hpdcache.Cache
import Hpdcache.AmoError
import Hpdcache.AmoData
import Hpdcache.WbufRefine
import Hpdcache.Lib.Chains
import Hpdcache.RtabChains
import Hpdcache.Isolation
import Hpdcache.CmoFence
import Hpdcache.Lrsc
import Hpdcache.Hwpf
import Hpdcache.Scrubbing
import Hpdcache.Refill
import Hpdcache.RefillOutcome
import Hpdcache.FlushData
import Hpdcache.Lib.Ring
import Hpdcache.L15
import Hpdcache.MemId
import Hpdcache.Traffic
import Hpdcache.Lib.Channel
import Hpdcache.Channels
import Hpdcache.Transaction
import Hpdcache.ScrubPass
import Hpdcache.WbufWakeup
import Hpdcache.WbufSlots
import Hpdcache.WriteArbiter
import Hpdcache.Recovery
import Hpdcache.MissMap
import Hpdcache.RoundRobin
import Hpdcache.FifoReg
import Hpdcache.Replacement
import Hpdcache.DataResize
import Hpdcache.HwpfStream
import Hpdcache.HwpfInflight
import Hpdcache.HwpfSnoop
import Hpdcache.Vacant
import Hpdcache.Abort
import Hpdcache.Secded
import Hpdcache.EccSram
import Hpdcache.CmoWalk
import Hpdcache.Sweep
import Hpdcache.Tracked
import Hpdcache.FlushWalk
import Hpdcache.SingleCopy
import Hpdcache.Booked
import Hpdcache.LostWay
import Hpdcache.Ports
