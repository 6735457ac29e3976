import Best1307.Lib.Crc32
import Best1307.Lib.Run
import Best1307.Lib.FlashQueue
import Best1307.NvRecord.Record
import Best1307.NvRecord.Flush
import Best1307.NvRecord.Moves
import Best1307.NvRecord.Invariant
import Best1307.NvRecord.CrashSafety
import Best1307.NvRecord.Rollback
import Best1307.NvRecord.Agreement
import Best1307.NvRecord.Upgrade
import Best1307.NvRecord.Ota
import Best1307.Lib.Extent
import Best1307.NvRecord.Hotword
import Best1307.NvRecord.HotwordTable
import Best1307.NvRecord.HotwordClean
import Best1307.NvRecord.HotwordUpdates
import Best1307.Lib.SlotArray
import Best1307.NvRecord.PairedBt
import Best1307.NvRecord.PairedList
import Best1307.NvRecord.PairedBle
import Best1307.NvRecord.BondedList
import Best1307.NvRecord.FpAccountKey
import Best1307.NvRecord.FpBindings
import Best1307.NvRecord.FpLookup
import Best1307.Lib.Framing
import Best1307.Tota.Frame
import Best1307.Tota.Receiver
import Best1307.Tota.RoundTrip
import Best1307.Tota.Recover
import Best1307.Tota.Segments
import Best1307.Lib.Checked
import Best1307.Tota.Hostile
import Best1307.Tota.ConnKey
import Best1307.Tota.Supervision
import Best1307.Tota.FlashProgram
import Best1307.Lib.SlotRing
import Best1307.Transq.Queue
import Best1307.Transq.Sending
import Best1307.Transq.Moves
import Best1307.Transq.Delivery
import Best1307.Transq.TxDone
import Best1307.Hal.Sysfreq
import Best1307.Hal.SysfreqPmu
import Best1307.Hal.WakeLock
import Best1307.Hal.Overlay
import Best1307.Lib.WrapBuffer
import Best1307.Lib.ByteRing
import Best1307.Hal.RmtTrace
import Best1307.Hal.TraceBuf
import Best1307.Hal.TracePause
import Best1307.Audio.InCache
import Best1307.Audio.SbcMissing
import Best1307.Audio.SbcStore
import Best1307.Audio.SbcDiscard
import Best1307.Audio.MultiHeap
import Best1307.Audio.CpOutFrames
import Best1307.Audio.ScoReframe
import Best1307.Hal.KeyClick
import Best1307.Hal.GpioKey
import Best1307.Lib.LinkedList
import Best1307.RmtIpc.Channel
import Best1307.RmtIpc.Handover
import Best1307.RmtIpc.Delivery
import Best1307.Lib.FlashRing
import Best1307.LogDump.Dump
import Best1307.LogDump.Sector
import Best1307.LogDump.Buffers
import Best1307.LogDump.Recovery
import Best1307.LogDump.Order
import Best1307.LogDump.Resume
import Best1307.LogDump.Remain
import Best1307.LogDump.Overrun
import Best1307.LogDump.CrashDump
import Best1307.LogDump.CrashTrace
import Best1307.Bt.Adapter
import Best1307.Lib.Pieces
import Best1307.Hal.Norflash
import Best1307.Hal.NorflashSuspend
import Best1307.Hal.NorflashCalls
import Best1307.Bt.Sync
import Best1307.Bt.SyncTimer
import Best1307.Bt.SyncChannels
import Best1307.Bt.SyncStatus
import Best1307.Uart.Receive
import Best1307.Uart.Ring
import Best1307.Uart.Bridge
import Best1307.Uart.Packets
import Best1307.Lib.Words
import Best1307.Ecc.BigHex
import Best1307.Ecc.ModP
import Best1307.Ecc.Multiply
import Best1307.Lib.Lucas
import Best1307.Ecc.Prime
import Best1307.Lib.While
import Best1307.Lib.BinaryEuclid
import Best1307.Ecc.Inversion
import Best1307.Lib.Homogeneous
import Best1307.Ecc.Field
import Best1307.Ecc.Point
import Best1307.Lib.Multiples
import Best1307.Lib.CubicRoot
import Best1307.Lib.CurveCard
import Best1307.Lib.Comb
import Best1307.Ecc.Order
import Best1307.Ecc.KeyTable
import Best1307.Ecc.Window
import Best1307.Ecc.KeyGeneration
import Best1307.NvRecord.HotwordHistory
import Best1307.NvRecord.Prompt
import Best1307.Audio.JitterTarget
import Best1307.Lib.HandOver
import Best1307.Gsound.MicFrames
import Best1307.Gsound.SbcCache
import Best1307.TraceRx.Registry
import Best1307.TraceRx.Parser
import Best1307.Battery.Measure
import Best1307.Audio.AacStore
import Best1307.Lib.OnesComplement
import Best1307.Pan.Checksum
import Best1307.Pan.Receive
import Best1307.Audio.SbcMono
import Best1307.Tota.StreamBuffer
import Best1307.Hal.TimerConversion
import Best1307.Audio.EncodeCp
import Best1307.Lib.Highest
import Best1307.Ble.ConnParam
import Best1307.Ble.AdvData
import Best1307.Usb.RecvWindow
import Best1307.Usb.Mixing
import Best1307.Pan.DnsRequest
import Best1307.Pan.DnsResponse
import Best1307.Lib.DoublyLinked
import Best1307.Lib.PriorityQueue
import Best1307.Rtx.ThreadList
import Best1307.Lib.DeltaQueue
import Best1307.Lib.DeltaList
import Best1307.Lib.Tickless
import Best1307.Rtx.DelayList
import Best1307.Rtx.Timer
import Best1307.Rtx.Sleep
import Best1307.Lib.FirstFit
import Best1307.Rtx.Memory
import Best1307.Rtx.Kernel
import Best1307.Rtx.Placement
import Best1307.Rtx.Scheduler
import Best1307.Rtx.Services
import Best1307.Rtx.Owners
import Best1307.Rtx.KernelRun
