import TamgaOs.Library.Run
import TamgaOs.Library.Splitting
import TamgaOs.Library.Handoff
import TamgaOs.Library.Fifo
import TamgaOs.Library.IndexRing
import TamgaOs.Library.MarkedRing
import TamgaOs.Library.Words
import TamgaOs.Library.Stable
import TamgaOs.Library.Wrap
import TamgaOs.Library.Cyclic
import TamgaOs.Library.Stride
import TamgaOs.Library.WriteBack
import TamgaOs.Library.Gain
import TamgaOs.Library.Poll
import TamgaOs.Library.Tally
import TamgaOs.Library.Checked
import TamgaOs.Library.Walk
import TamgaOs.Library.Numeral
import TamgaOs.Library.Bracketing
import TamgaOs.Library.Scan
import TamgaOs.Library.Reads
import TamgaOs.Library.ByteMemory
import TamgaOs.Kernel.State
import TamgaOs.Kernel.Scheduler
import TamgaOs.Kernel.WaitQueue
import TamgaOs.Kernel.Semaphore
import TamgaOs.Kernel.Queue
import TamgaOs.Kernel.Mutex
import TamgaOs.Kernel.Event
import TamgaOs.Kernel.Notify
import TamgaOs.Kernel.Timer
import TamgaOs.Kernel.Calls
import TamgaOs.Kernel.ContextSwitch
import TamgaOs.Kernel.IdleTask
import TamgaOs.Kernel.FaultLog
import TamgaOs.Kernel.Monitors
import TamgaOs.Kernel.Critical
import TamgaOs.Kernel.TaskStack
import TamgaOs.Kernel.HardFault
import TamgaOs.Controls.Kalman
import TamgaOs.Drivers.Uart
import TamgaOs.Drivers.UartRings
import TamgaOs.Drivers.FlexCan
import TamgaOs.Drivers.I2c
import TamgaOs.Drivers.Eth
import TamgaOs.Drivers.FdCan
import TamgaOs.Drivers.CanWords
import TamgaOs.Drivers.I2cPolls
import TamgaOs.Drivers.Iwdg
import TamgaOs.Drivers.Bmp280
import TamgaOs.Drivers.UartPrint
import TamgaOs.Drivers.UartPrintf
import TamgaOs.Drivers.Mpu6050
import TamgaOs.Machine.Step
import TamgaOs.Machine.Journal
import TamgaOs.Machine.SchedOps
import TamgaOs.Machine.Objects
import TamgaOs.Machine.Idle
import TamgaOs.Machine.Delays
import TamgaOs.Machine.Elapse
import TamgaOs.Machine.SysTick
import TamgaOs.Machine.Tickless
import TamgaOs.Machine.Counter
import TamgaOs.Machine.Switching
import TamgaOs.Machine.Coherence
import TamgaOs.Machine.Tick
import TamgaOs.Machine.Context
import TamgaOs.Machine.SemaphoreSteps
import TamgaOs.Machine.MutexSteps
import TamgaOs.Machine.QueueSteps
import TamgaOs.Machine.EventSteps
import TamgaOs.Machine.SchedulerSteps
import TamgaOs.Machine.Orderly
import TamgaOs.Machine.NotificationSteps
import TamgaOs.Machine.Apart
import TamgaOs.Machine.TickStatements
import TamgaOs.Machine.Split
import TamgaOs.Programs.LedTasks
import TamgaOs.X86.Cpu
import TamgaOs.X86.Kernel
import TamgaOs.Properties.BatchedTick
import TamgaOs.Properties.Bmp280
import TamgaOs.Properties.CanRoundTrip
import TamgaOs.Properties.ContextSwitch
import TamgaOs.Properties.Event
import TamgaOs.Properties.EventResult
import TamgaOs.Properties.FaultLog
import TamgaOs.Properties.FaultReport
import TamgaOs.Properties.FlexCan
import TamgaOs.Properties.I2c
import TamgaOs.Properties.EarlyExpiry
import TamgaOs.Properties.Elevation
import TamgaOs.Properties.EthReceive
import TamgaOs.Properties.EthTransmit
import TamgaOs.Properties.EthRings
import TamgaOs.Properties.Kalman
import TamgaOs.Properties.Mailbox
import TamgaOs.Properties.Monitors
import TamgaOs.Properties.Mutex
import TamgaOs.Properties.Notify
import TamgaOs.Properties.Numerals
import TamgaOs.Properties.Oversleep
import TamgaOs.Properties.Pausing
import TamgaOs.Properties.Polls
import TamgaOs.Properties.Preemption
import TamgaOs.Properties.PriorityInheritance
import TamgaOs.Properties.PriorityInversion
import TamgaOs.Properties.Printf
import TamgaOs.Properties.Queue
import TamgaOs.Properties.QueueOrder
import TamgaOs.Properties.RoundRobin
import TamgaOs.Properties.Running
import TamgaOs.Properties.Selection
import TamgaOs.Properties.Semaphore
import TamgaOs.Properties.SemaphoreTokens
import TamgaOs.Properties.SleepLength
import TamgaOs.Properties.StableWaitLists
import TamgaOs.Properties.TaskCreation
import TamgaOs.Properties.TickAccounting
import TamgaOs.Properties.TicklessDrift
import TamgaOs.Properties.TickStop
import TamgaOs.Properties.Tickless
import TamgaOs.Properties.Timeout
import TamgaOs.Properties.TimerScans
import TamgaOs.Properties.TimerSchedule
import TamgaOs.Properties.UartRings
import TamgaOs.Properties.UartTx
import TamgaOs.Properties.WaitForever
import TamgaOs.Properties.WaitLists
import TamgaOs.Properties.WaitOrder
import TamgaOs.Properties.Watchdog
import TamgaOs.Properties.Traces
import TamgaOs.Properties.CriticalSections
import TamgaOs.Properties.TaskStacks
import TamgaOs.Properties.PrintfRender
import TamgaOs.Properties.CrashTranscript
import TamgaOs.Properties.SensorReads
import TamgaOs.Properties.Mpu6050
import TamgaOs.Properties.LedTasks
import TamgaOs.Properties.X86Tables
import TamgaOs.Properties.X86Exceptions
import TamgaOs.Boot.Reset
import TamgaOs.Library.CacheGeometry
import TamgaOs.Properties.MemoryInit
import TamgaOs.Properties.Reset
