import QjsFfi.BinaryFloat
import QjsFfi.Numerals
import QjsFfi.Activation
import QjsFfi.Histories
import QjsFfi.Layout
import QjsFfi.TypeTable
import QjsFfi.Engine
import QjsFfi.Conversions
import QjsFfi.Definition
import QjsFfi.Registration
import QjsFfi.DefinitionOutcomes
import QjsFfi.Invocation
import QjsFfi.CallConversions
import QjsFfi.CallPlacement
import QjsFfi.CallOutcomes
import QjsFfi.Pointers
import QjsFfi.ModuleMachine
import QjsFfi.RegistryHistory
import QjsFfi.PrototypeFidelity
import QjsFfi.AccessSafety
import QjsFfi.InvocationExactness
import QjsFfi.StringLifetime
import QjsFfi.ArgumentDelivery
import QjsFfi.IntegerTransport
import QjsFfi.PointerTransport
import QjsFfi.BoundClosures
import QjsFfi.TypeAliases
import QjsFfi.ExceptionDiscipline
import QjsFfi.Bitmaps
import QjsFfi.Records
import QjsFfi.DescriptorSets
import QjsFfi.SocketAddresses
import QjsFfi.DnsMessages
import QjsFfi.DnsQuery
import QjsFfi.DnsLookup
import QjsFfi.Sockets
import QjsFfi.SocketHistories
import QjsFfi.TelnetBuffers
import QjsFfi.TelnetLoop
import QjsFfi.TelnetOutput
import QjsFfi.TelnetInput
import QjsFfi.PointerOffsets
import QjsFfi.ReleaseDiscipline
import QjsFfi.Syscalls
import QjsFfi.Transfers
import QjsFfi.SelectCalls
import QjsFfi.BufferGrowth
import QjsFfi.MemoryAccounts
import QjsFfi.Automata
import QjsFfi.ModulePurpose
import QjsFfi.ForeignTables
import QjsFfi.DeferredDefinitions
import QjsFfi.SocketWrappers
import QjsFfi.ScriptRecords
import QjsFfi.TerminalCalls
import QjsFfi.Patterns
import QjsFfi.ResolverConfig
import QjsFfi.SocketAddressing
import QjsFfi.LookupExchange
import QjsFfi.TelnetSession
import QjsFfi.WatchedSets
