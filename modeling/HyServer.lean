import HyServer.Cpp.Machine
import HyServer.Cpp.Logic
import HyServer.Cpp.Quiet
import HyServer.Cpp.Lifetime
import HyServer.Cpp.Slots
import HyServer.Cpp.Contents
import HyServer.Cpp.ObjectBytes
import HyServer.Expected.Storage
import HyServer.Expected.EUnion
import HyServer.Expected.Lifetime
import HyServer.Expected.Runs
import HyServer.Expected.Pod
import HyServer.Expected.Assign
import HyServer.Expected.Reinit
import HyServer.Expected.Transfer
import HyServer.Expected.Swap
import HyServer.Expected.PodSwap
import HyServer.Expected.Arguments
import HyServer.Expected.Combinators
import HyServer.Expected.Emplace
import HyServer.Railway.Tracks
import HyServer.Folly.Storage
import HyServer.Folly.Runs
import HyServer.Cpp.SpecialMembers
import HyServer.Folly.SpecialMembers
import HyServer.Folly.Transfer
import HyServer.Folly.Pod
import HyServer.Lts.Runs
import HyServer.Folly.Kinds
import HyServer.Lts.Holders
import HyServer.Exception.SharedString
import HyServer.Lts.Owners
import HyServer.File.Descriptors
import HyServer.Cpp.Integers
import HyServer.Cpp.ByteOrder
import HyServer.Cpp.Rounds
import HyServer.FileUtil.Loops
import HyServer.FileUtil.WrapFull
import HyServer.FileUtil.Retry
import HyServer.Cpp.Text
import HyServer.Cpp.Reads
import HyServer.Exception.SharedText
import HyServer.FileUtil.TemporaryPath
import HyServer.Posix.Files
import HyServer.FileUtil.Transfers
import HyServer.Lts.Sessions
import HyServer.FileUtil.NoEintr
import HyServer.Net.IPAddressV4
import HyServer.Net.Views
import HyServer.Net.IPAddressV6
import HyServer.Expected.Chains
import HyServer.Net.Conversions
import HyServer.Net.Order
import HyServer.Net.ArpaName
import HyServer.Net.Bits
import HyServer.Util.MemZero
import HyServer.Log.LogLevel
import HyServer.Log.Names
import HyServer.Cpp.Layout
import HyServer.Expected.StorageType
import HyServer.Util.Traits
import HyServer.Net.IpBuffer
import HyServer.Expected.Meaning
import HyServer.Expected.Histories
import HyServer.Expected.Ownership
import HyServer.File.MakeFile
import HyServer.Expected.Observers
import HyServer.Net.Keys
import HyServer.Net.BitOrder
import HyServer.Expected.Constructors
import HyServer.Cpp.Saturation
import HyServer.Log.Changes
import HyServer.Folly.Converting
import HyServer.Cpp.Effects
import HyServer.Expected.Noexcept
import HyServer.Folly.Noexcept
import HyServer.Folly.Versions
import HyServer.Lts.Progress
import HyServer.Exception.Destruction
