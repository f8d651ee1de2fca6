import PcapyNg.Library.LinearProbing
import PcapyNg.Library.Transitions
import PcapyNg.Machine
import PcapyNg.AddressSet
import PcapyNg.AddressSetSize
import PcapyNg.FlowTable
import PcapyNg.Classify
import PcapyNg.PacketView
import PcapyNg.ClassifyRun
import PcapyNg.FlowKey
import PcapyNg.FlowApart
import PcapyNg.VlanTags
import PcapyNg.Fragments
import PcapyNg.Padding
import PcapyNg.PaddingReach
import PcapyNg.Snaplen
import PcapyNg.ProfileAgreement
import PcapyNg.ForeignFrames
import PcapyNg.Datagram
import PcapyNg.FlowHeads
import PcapyNg.FlowCutoff
import PcapyNg.Libpcap
import PcapyNg.PcapObject
import PcapyNg.LoopSetup
import PcapyNg.ReadSafety
import PcapyNg.SecurityClasses
import PcapyNg.LoopFiltered
import PcapyNg.FlowRestart
import PcapyNg.HandshakeHeads
import PcapyNg.CallbackErrors
import PcapyNg.LoopToBuffer
import PcapyNg.NextBatch
import PcapyNg.BatchedReading
import PcapyNg.BatchLayout
import PcapyNg.ReaderCalls
import PcapyNg.FilteredStats
import PcapyNg.SetupFailures
import PcapyNg.Dumper
import PcapyNg.HandleLifetime
import PcapyNg.ResourceOwners
import PcapyNg.Library.LogShares
import PcapyNg.SharedRing
import PcapyNg.Library.Snapshot
import PcapyNg.LivePolls
import PcapyNg.Library.PrefixReads
import PcapyNg.TlsServerName
import PcapyNg.ClientHello
import PcapyNg.PyEquiv
import PcapyNg.EqualWork
import PcapyNg.EqualHeads
import PcapyNg.Library.CarryFold
import PcapyNg.GenPcap
import PcapyNg.ManifestSets
import PcapyNg.Library.ProbeCost
import PcapyNg.ProbeAnalysis
import PcapyNg.FanoutShards
import PcapyNg.InterfaceNames
import PcapyNg.CallMemory
import PcapyNg.CallbackMemory
import PcapyNg.BufferMemory
