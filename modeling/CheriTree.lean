import CheriTree.ByteRange
import CheriTree.Carving
import CheriTree.EntryTable
import CheriTree.GuardedStore
import CheriTree.ByteOrder
import CheriTree.Sha256
import CheriTree.Sha256Chunks
import CheriTree.SpinalCrypto.Sha2Engine
import CheriTree.SpinalCrypto.HashPadding
import CheriTree.SpinalCrypto.Sha2Core
import CheriTree.FreshTable
import CheriTree.SyncMachine
import CheriTree.RingIndex
import CheriTree.LongArithmetic
import CheriTree.Bypass
import CheriTree.Raising
import CheriTree.Trapping
import CheriTree.Proteus.Capability
import CheriTree.Proteus.Access
import CheriTree.Proteus.CapCheck
import CheriTree.Proteus.Sealing
import CheriTree.Proteus.IdentityStore
import CheriTree.Proteus.EnclaveIdManager
import CheriTree.Proteus.CapMachine
import CheriTree.Proteus.SealingLaws
import CheriTree.Proteus.Monotonicity
import CheriTree.Proteus.Immutability
import CheriTree.Proteus.SystemRegisters
import CheriTree.Proteus.CapScan
import CheriTree.Proteus.MemBus
import CheriTree.Proteus.MemoryTagger
import CheriTree.Proteus.MemFormat
import CheriTree.Proteus.TaggedMemory
import CheriTree.Proteus.EnclaveInit
import CheriTree.Proteus.HashCore
import CheriTree.Proteus.ExclusiveOwnership
import CheriTree.Proteus.DataSection
import CheriTree.Proteus.HashCoverage
import CheriTree.Proteus.EnclaveKey
import CheriTree.Proteus.StoreHandshake
import CheriTree.Proteus.SectionHash
import CheriTree.Proteus.DigestBuffer
import CheriTree.Proteus.StoreService
import CheriTree.Proteus.StoreAnswers
import CheriTree.Proteus.StoreWaits
import CheriTree.Proteus.StoreTable
import CheriTree.Proteus.StoreRuns
import CheriTree.Proteus.EnclaveRuntime
import CheriTree.Proteus.ReturnIntegrity
import CheriTree.Proteus.SensorBinding
import CheriTree.Proteus.TrustedInit
import CheriTree.Proteus.UniqueAlloc
import CheriTree.Proteus.EntryDispatch
import CheriTree.Proteus.DataLayout
import CheriTree.Proteus.TrapHandler
import CheriTree.Proteus.TrapData
import CheriTree.Proteus.NestedTraps
import CheriTree.Proteus.TrapRoundTrip
import CheriTree.Proteus.StaticPipeline
import CheriTree.Proteus.Forwarding
import CheriTree.Proteus.Lsu
import CheriTree.Proteus.FaultingStores
import CheriTree.Proteus.ReorderBuffer
import CheriTree.Proteus.MulDiv
import CheriTree.Proteus.AbandonedCalls
import CheriTree.InFlight
import CheriTree.Proteus.IBusControl
import CheriTree.Successive
import CheriTree.Proteus.ProgramFlow
import CheriTree.Proteus.PipelineClaim
import CheriTree.Sail.Capability
import CheriTree.Sail.Machine
import CheriTree.Sail.Memory
import CheriTree.Sail.Enclave
import CheriTree.Sail.Ownership
import CheriTree.Sail.EnclaveLife
import CheriTree.Sail.IdentityTable
import CheriTree.Sail.Representability
import CheriTree.Sail.SetBounds
import CheriTree.Sail.Encoding
import CheriTree.Sail.RepresentableLength
import CheriTree.Sail.InBounds
import CheriTree.Sail.Traps
import CheriTree.Sail.Outcomes
import CheriTree.Sail.Key
import CheriTree.Sail.KeyStore
import CheriTree.Sail.Atomicity
import CheriTree.Sail.StoreId
import CheriTree.Sail.SectionHash
import CheriTree.Sail.Deinit
import CheriTree.Sail.SweepRange
import CheriTree.Sail.PageTables
import CheriTree.Sail.SweepView
import CheriTree.Sail.Uniqueness
import CheriTree.Sail.OneTrap
import CheriTree.Sail.OwnKey
import CheriTree.Sail.Monotonicity
import CheriTree.Morello.Capability
import CheriTree.Morello.IdentityStore
import CheriTree.Morello.Sweep
import CheriTree.Morello.Hypercalls
import CheriTree.Morello.Digest
import CheriTree.Morello.StoreInvariant
import CheriTree.Morello.ExclusiveOwnership
import CheriTree.Morello.CallsReturn
import CheriTree.Morello.AtomicCalls
import CheriTree.Morello.OtypeRange
import CheriTree.Morello.UniqueAlloc
import CheriTree.Morello.EntryDispatch
import CheriTree.Morello.SectionHash
import CheriTree.Morello.SensorChecks
import CheriTree.Morello.SensorBinding
import CheriTree.Morello.OverlapTest
import CheriTree.Morello.DebugBuild
import CheriTree.Morello.HashRun
import CheriTree.SameLookup
import CheriTree.SameIdentity
import CheriTree.SameAllocation
import CheriTree.SameDispatch
import CheriTree.SameBinding
import CheriTree.Proteus.Measurement
import CheriTree.Sail.ShaSupport
