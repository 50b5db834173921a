import PeripheralTester.Lib.Run
import PeripheralTester.Lib.Counter
import PeripheralTester.Lib.Fifo
import PeripheralTester.Lib.SharedUnit
import PeripheralTester.Lib.LazyLock
import PeripheralTester.Lib.Replay
import PeripheralTester.Lib.Steps
import PeripheralTester.Lib.Endless
import PeripheralTester.Lib.Release
import PeripheralTester.Lib.Fairness
import PeripheralTester.Lib.Memory
import PeripheralTester.Lib.WakeUp
import PeripheralTester.Lib.LinkedRing
import PeripheralTester.Lib.Outstanding
import PeripheralTester.Lib.TwoRuns
import PeripheralTester.Lib.Network
import PeripheralTester.Lib.KeyedTable
import PeripheralTester.Lib.Reorder
import PeripheralTester.Lib.Format
import PeripheralTester.Lib.Crc
import PeripheralTester.Lib.Queueing
import PeripheralTester.Lib.FreeSpace
import PeripheralTester.Protocol
import PeripheralTester.Server.ResponseQueue
import PeripheralTester.Server.ResultDatabase
import PeripheralTester.Server.ResultTable
import PeripheralTester.Server.CommandGenerator
import PeripheralTester.Server.Program
import PeripheralTester.Server.Accounting
import PeripheralTester.Server.Shutdown
import PeripheralTester.Server.Deadlock
import PeripheralTester.Server.Termination
import PeripheralTester.Server.Recording
import PeripheralTester.Server.UnderWay
import PeripheralTester.Server.Reception
import PeripheralTester.Server.Reordering
import PeripheralTester.Server.Generation
import PeripheralTester.Firmware.Pipeline
import PeripheralTester.Firmware.Conservation
import PeripheralTester.Firmware.Progress
import PeripheralTester.Firmware.Endpoint
import PeripheralTester.Firmware.Tearing
import PeripheralTester.Firmware.UnderWay
import PeripheralTester.Firmware.QueueReceive
import PeripheralTester.Firmware.ReceiveTimeouts
import PeripheralTester.Firmware.DataCompare
import PeripheralTester.Firmware.Checksum
import PeripheralTester.Firmware.Callbacks
import PeripheralTester.Firmware.Kernel
import PeripheralTester.Firmware.Printf
import PeripheralTester.Firmware.LogBytes
import PeripheralTester.Firmware.Interrupts
import PeripheralTester.Firmware.PrintfMutex
import PeripheralTester.Firmware.Hardware
import PeripheralTester.Firmware.Transfer
import PeripheralTester.Firmware.Parts
import PeripheralTester.Firmware.TransferCalls
import PeripheralTester.Firmware.Handlers
import PeripheralTester.Firmware.Verdict
import PeripheralTester.Firmware.Ideal
import PeripheralTester.Firmware.Stages
import PeripheralTester.Firmware.Timeouts
import PeripheralTester.Firmware.Waits
import PeripheralTester.Firmware.TickWrap
import PeripheralTester.Firmware.TransferErrors
import PeripheralTester.Firmware.TimerVerdict
import PeripheralTester.Firmware.AdcVerdict
import PeripheralTester.Firmware.Completions
import PeripheralTester.Firmware.LoopbackVerdict
import PeripheralTester.Firmware.Leftovers
import PeripheralTester.Firmware.Order
import PeripheralTester.Firmware.Replies
import PeripheralTester.Firmware.QueueStorage
import PeripheralTester.Firmware.QueueBlocking
import PeripheralTester.Firmware.QueueWakeups
import PeripheralTester.Firmware.KernelLists
import PeripheralTester.Firmware.DelayedTasks
import PeripheralTester.Firmware.UartDriver
import PeripheralTester.Firmware.UartInterrupts
import PeripheralTester.Firmware.UartDelivery
import PeripheralTester.Firmware.KernelHeap
import PeripheralTester.Firmware.HeapSpace
import PeripheralTester.Firmware.HeapSafety
import PeripheralTester.Testbed.Model
import PeripheralTester.Testbed.WireFormat
import PeripheralTester.Testbed.Attribution
import PeripheralTester.Testbed.Soundness
import PeripheralTester.Testbed.EndToEnd
import PeripheralTester.Testbed.Load
import PeripheralTester.Testbed.ClockedDevice
