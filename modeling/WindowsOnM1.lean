import WindowsOnM1.SchedulerLedger
import WindowsOnM1.SubmissionReplay
import WindowsOnM1.UatTables
import WindowsOnM1.GpuvaWrapped
import WindowsOnM1.GpuvaRelink
import WindowsOnM1.OutputLeases
import WindowsOnM1.PoolDemandOwners
import WindowsOnM1.PoolDemandRecords
import WindowsOnM1.PoolSlabReserved
import WindowsOnM1.PresentSplit
import WindowsOnM1.Win32Sound
import WindowsOnM1.BackendStops
import WindowsOnM1.QueueRuntimeRecognised
import WindowsOnM1.PrivateStorageRuns
import WindowsOnM1.SubmitRoundTrip
import WindowsOnM1.HidReassemblyExact
import WindowsOnM1.TouchpadPipeline
import WindowsOnM1.ScanoutProtocol
import WindowsOnM1.Context0Broker
import WindowsOnM1.UatAtomicity
import WindowsOnM1.GpuvaRange
import WindowsOnM1.GpuvaAttach
import WindowsOnM1.FirmwareRecovery
import WindowsOnM1.EventAllocator
import WindowsOnM1.AperturePlan
import WindowsOnM1.QueueRing
import WindowsOnM1.PoolSlabRefused
import WindowsOnM1.TrackpadOptimal
import WindowsOnM1.HidContractExact
import WindowsOnM1.SpihidPacket
import WindowsOnM1.PoolDemandAged
import WindowsOnM1.PresentVirtual
import WindowsOnM1.GpuvaTeardown
import WindowsOnM1.VsyncTimeline
import WindowsOnM1.RelocationBatch
import WindowsOnM1.DrawMerge
import WindowsOnM1.GpuvaB1Build
import WindowsOnM1.GpuvaG3Exact
import WindowsOnM1.HandoffWaits
import WindowsOnM1.HandleMap
