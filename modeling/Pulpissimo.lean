import Pulpissimo.AdvDbg.LintBiu
import Pulpissimo.AdvDbg.LintBurst
import Pulpissimo.AdvDbg.LintModule
import Pulpissimo.AdvDbg.LintRead
import Pulpissimo.AdvDbg.LintServes
import Pulpissimo.AdvDbg.LintWrite
import Pulpissimo.AdvDbg.TapTop
import Pulpissimo.Apb.Apb2Per
import Pulpissimo.Apb.FllIf
import Pulpissimo.Apb.Gpio
import Pulpissimo.Apb.InterruptCntrl
import Pulpissimo.Apb.Master
import Pulpissimo.Apb.PeriphBus
import Pulpissimo.Axi.NodeArb
import Pulpissimo.Axi.NodeDecode
import Pulpissimo.Axi.NodeOrder
import Pulpissimo.Axi.NodeReadError
import Pulpissimo.Axi.NodeReturn
import Pulpissimo.Axi.NodeWrite
import Pulpissimo.Axi.NodeWriteError
import Pulpissimo.Axi.NodeWriteRoute
import Pulpissimo.Axi.TokenRing
import Pulpissimo.Cellift.FixGlobalImports
import Pulpissimo.Cellift.IftBootRom
import Pulpissimo.Cellift.IftSram
import Pulpissimo.Cellift.IftSramFpga
import Pulpissimo.Cellift.ImportMoves
import Pulpissimo.Cellift.SramMap
import Pulpissimo.Cellift.VerilogTokens
import Pulpissimo.CommonCells.GenericFifo
import Pulpissimo.Dv.ElfLoader
import Pulpissimo.Dv.ElfPlacement
import Pulpissimo.Dv.TaintLoader
import Pulpissimo.Dv.TaintPlacement
import Pulpissimo.Hwpe.AddressGen
import Pulpissimo.Hwpe.AddressSequence
import Pulpissimo.Hwpe.CtrlRegfile
import Pulpissimo.Hwpe.CtrlSlave
import Pulpissimo.Hwpe.JobQueue
import Pulpissimo.Hwpe.KeccakCore
import Pulpissimo.Hwpe.KeccakHash
import Pulpissimo.Hwpe.KeccakRound
import Pulpissimo.Hwpe.MacEngine
import Pulpissimo.Hwpe.MacFsm
import Pulpissimo.Hwpe.Md5Core
import Pulpissimo.Hwpe.Md5Hash
import Pulpissimo.Hwpe.SeqMult
import Pulpissimo.Hwpe.Source
import Pulpissimo.Hwpe.SourceStreams
import Pulpissimo.Hwpe.StreamFifo
import Pulpissimo.Hwpe.Tcdm
import Pulpissimo.Hwpe.TcdmFifoLoad
import Pulpissimo.Hwpe.TcdmMux
import Pulpissimo.Hwpe.TcdmReorder
import Pulpissimo.Hwpe.Ucode
import Pulpissimo.Hwpe.UcodeLoops
import Pulpissimo.Interco.Lint2Apb
import Pulpissimo.Interco.Lint2ApbStore
import Pulpissimo.Interco.Lint2Axi
import Pulpissimo.Interco.Lint64To32
import Pulpissimo.Interco.TcdmDemux
import Pulpissimo.Interco.XbarAxi
import Pulpissimo.Interco.XbarBridge
import Pulpissimo.Lib.ArbTree
import Pulpissimo.Lib.BitClock
import Pulpissimo.Lib.BitTree
import Pulpissimo.Lib.Bits
import Pulpissimo.Lib.Calendar
import Pulpissimo.Lib.Crc
import Pulpissimo.Lib.Division
import Pulpissimo.Lib.Drain
import Pulpissimo.Lib.HotCode
import Pulpissimo.Lib.Indices
import Pulpissimo.Lib.Keccak
import Pulpissimo.Lib.Lanes
import Pulpissimo.Lib.LastWrite
import Pulpissimo.Lib.LoopNest
import Pulpissimo.Lib.Machine
import Pulpissimo.Lib.Md5
import Pulpissimo.Lib.MovingSum
import Pulpissimo.Lib.Odometer
import Pulpissimo.Lib.PrefixScan
import Pulpissimo.Lib.Regex
import Pulpissimo.Lib.RingBuffer
import Pulpissimo.Lib.Rotation
import Pulpissimo.Lib.RoundRobin
import Pulpissimo.Lib.Select
import Pulpissimo.Lib.SerialBits
import Pulpissimo.Lib.ShiftFifo
import Pulpissimo.Lib.Signed
import Pulpissimo.Lib.Sines
import Pulpissimo.Lib.Sponge
import Pulpissimo.Lib.Taint
import Pulpissimo.Lib.Tickets
import Pulpissimo.Lib.WordAddr
import Pulpissimo.Riscv.AluBits
import Pulpissimo.Riscv.AluDatapath
import Pulpissimo.Riscv.AluDiv
import Pulpissimo.Riscv.AluDivision
import Pulpissimo.Riscv.AluFf
import Pulpissimo.Riscv.AluLanes
import Pulpissimo.Riscv.AluVector
import Pulpissimo.Riscv.CompressedDecoder
import Pulpissimo.Riscv.Controller
import Pulpissimo.Riscv.Core
import Pulpissimo.Riscv.CsRegisters
import Pulpissimo.Riscv.CsrExact
import Pulpissimo.Riscv.CsrFile
import Pulpissimo.Riscv.DebugUnit
import Pulpissimo.Riscv.Decoder
import Pulpissimo.Riscv.FetchFifo
import Pulpissimo.Riscv.HwLoop
import Pulpissimo.Riscv.HwLoopBody
import Pulpissimo.Riscv.IdStage
import Pulpissimo.Riscv.IntController
import Pulpissimo.Riscv.L0Buffer
import Pulpissimo.Riscv.LoadStore
import Pulpissimo.Riscv.LoadStoreTraffic
import Pulpissimo.Riscv.Mult
import Pulpissimo.Riscv.MultAccumulate
import Pulpissimo.Riscv.PrefetchBuffer
import Pulpissimo.Riscv.PrefetchL0Buffer
import Pulpissimo.Riscv.Privilege
import Pulpissimo.Soc.EventArbiter
import Pulpissimo.Soc.EventGenerator
import Pulpissimo.Soc.EventQueue
import Pulpissimo.Soc.EventRegisters
import Pulpissimo.Soc.FcDemux
import Pulpissimo.Soc.RealTime
import Pulpissimo.Timer.AdvTimer
import Pulpissimo.Timer.AdvUpdates
import Pulpissimo.Timer.TimerTicks
import Pulpissimo.Timer.TimerUnit
import Pulpissimo.Udma.Arbiter
import Pulpissimo.Udma.CameraIf
import Pulpissimo.Udma.ChAddrgen
import Pulpissimo.Udma.ChPlace
import Pulpissimo.Udma.FilterAu
import Pulpissimo.Udma.FilterBincu
import Pulpissimo.Udma.FilterRx
import Pulpissimo.Udma.FilterTx
import Pulpissimo.Udma.FilterWalk
import Pulpissimo.Udma.I2cBus
import Pulpissimo.Udma.I2cControl
import Pulpissimo.Udma.I2cLines
import Pulpissimo.Udma.I2cMaster
import Pulpissimo.Udma.I2cRecovery
import Pulpissimo.Udma.I2cSession
import Pulpissimo.Udma.I2cStream
import Pulpissimo.Udma.IoFifo
import Pulpissimo.Udma.L2Lanes
import Pulpissimo.Udma.RxChannels
import Pulpissimo.Udma.RxDelivery
import Pulpissimo.Udma.SdioAnswer
import Pulpissimo.Udma.SdioCmd
import Pulpissimo.Udma.SdioData
import Pulpissimo.Udma.SdioRead
import Pulpissimo.Udma.SdioWrite
import Pulpissimo.Udma.SpimBits
import Pulpissimo.Udma.SpimTransfer
import Pulpissimo.Udma.SpimTxrx
import Pulpissimo.Udma.TxChannels
import Pulpissimo.Udma.TxDelivery
import Pulpissimo.Udma.TxFifo
import Pulpissimo.Udma.TxFifoMark
import Pulpissimo.Udma.UartFrames
import Pulpissimo.Udma.UartLoop
import Pulpissimo.Udma.UartRx
import Pulpissimo.Udma.UartTx
import Pulpissimo.Udma.UdmaCtrl
import Pulpissimo.Udma.Varcic
import Pulpissimo.ZeroRiscy.ExBlock
import Pulpissimo.ZeroRiscy.FetchFifo
import Pulpissimo.ZeroRiscy.LoadStore
import Pulpissimo.ZeroRiscy.LongDivider
import Pulpissimo.ZeroRiscy.Multdiv
import Pulpissimo.ZeroRiscy.MultdivFast
import Pulpissimo.ZeroRiscy.MultdivSlow
import Pulpissimo.ZeroRiscy.PrefetchBuffer
