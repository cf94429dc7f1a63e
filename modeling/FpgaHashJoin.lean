import FpgaHashJoin.Batching
import FpgaHashJoin.BuildRuns
import FpgaHashJoin.ByteFields
import FpgaHashJoin.Checksums
import FpgaHashJoin.Clocked
import FpgaHashJoin.CreditWindow
import FpgaHashJoin.EquiJoin
import FpgaHashJoin.Frames
import FpgaHashJoin.Host.Accounting
import FpgaHashJoin.Host.Coverage
import FpgaHashJoin.Host.Discipline
import FpgaHashJoin.Host.Events
import FpgaHashJoin.Host.FpgaClient
import FpgaHashJoin.Host.Protocol
import FpgaHashJoin.Host.ResultDecoder
import FpgaHashJoin.Host.Rounds
import FpgaHashJoin.Host.Simulation
import FpgaHashJoin.Host.SoftwareKernel
import FpgaHashJoin.Host.StaleTraffic
import FpgaHashJoin.Host.Waits
import FpgaHashJoin.Kernel.AllInputs
import FpgaHashJoin.Kernel.AnyBytes
import FpgaHashJoin.Kernel.Completion
import FpgaHashJoin.Kernel.Datagrams
import FpgaHashJoin.Kernel.Framing
import FpgaHashJoin.Kernel.Grace
import FpgaHashJoin.Kernel.GraceSession
import FpgaHashJoin.Kernel.GraceSteps
import FpgaHashJoin.Kernel.GraceStorage
import FpgaHashJoin.Kernel.HashJoinKernel
import FpgaHashJoin.Kernel.HostCodec
import FpgaHashJoin.Kernel.Isolation
import FpgaHashJoin.Kernel.LinearSteps
import FpgaHashJoin.Kernel.Protocol
import FpgaHashJoin.Kernel.RowAccounting
import FpgaHashJoin.Kernel.Sessions
import FpgaHashJoin.Kernel.Simulation
import FpgaHashJoin.Kernel.Stream
import FpgaHashJoin.Kernel.TimingAccounts
import FpgaHashJoin.Kernel.TimingLedger
import FpgaHashJoin.Kernel.TimingReport
import FpgaHashJoin.LinearHashTable
import FpgaHashJoin.Link.Call
import FpgaHashJoin.Link.Composition
import FpgaHashJoin.Link.GraceSession
import FpgaHashJoin.Link.LinearSession
import FpgaHashJoin.Link.Pacing
import FpgaHashJoin.Link.Rounds
import FpgaHashJoin.LittleEndian
import FpgaHashJoin.OpenAddressing
import FpgaHashJoin.PacketStream
import FpgaHashJoin.Pg.Adapter
import FpgaHashJoin.Pg.Executor
import FpgaHashJoin.Pg.GraceAdmission
import FpgaHashJoin.Pg.Planner
import FpgaHashJoin.Process.AllRuns
import FpgaHashJoin.Process.Basic
import FpgaHashJoin.Process.Completed
import FpgaHashJoin.Process.Device
import FpgaHashJoin.Process.Joint
import FpgaHashJoin.Process.Machine
import FpgaHashJoin.Process.Network
import FpgaHashJoin.Rtl.Ethernet
import FpgaHashJoin.Rtl.MonitoredHost
import FpgaHashJoin.Rtl.RmiiLoopback
import FpgaHashJoin.Rtl.RmiiRxBytes
import FpgaHashJoin.Rtl.RmiiTxBytes
import FpgaHashJoin.Rtl.RxFaults
import FpgaHashJoin.Rtl.RxGrammar
import FpgaHashJoin.Rtl.RxParser
import FpgaHashJoin.Rtl.RxQueue
import FpgaHashJoin.Rtl.RxStream
import FpgaHashJoin.Rtl.TimingMonitor
import FpgaHashJoin.Rtl.TxDestination
import FpgaHashJoin.Rtl.TxFrame
import FpgaHashJoin.Rtl.TxFraming
import FpgaHashJoin.Rtl.TxMux
import FpgaHashJoin.Rtl.UartLink
import FpgaHashJoin.Rtl.UartStreamBridge
import FpgaHashJoin.Rtl.UdpIpv4Rx
import FpgaHashJoin.Rtl.UdpIpv4Tx
import FpgaHashJoin.StoreWhile
import FpgaHashJoin.Timing
import FpgaHashJoin.Types
