import LuaTT.Library.Transition
import LuaTT.Library.Monitor
import LuaTT.Library.NodeList
import LuaTT.Library.TableTree
import LuaTT.Library.Ballot
import LuaTT.Library.WaitGraph
import LuaTT.Library.GrowingVector
import LuaTT.Library.WeightedChoice
import LuaTT.Library.KeyedIndex
import LuaTT.Library.MarkSweep
import LuaTT.Library.Descent
import LuaTT.Library.Streaming
import LuaTT.Lua.Number
import LuaTT.Lua.Value
import LuaTT.Lua.Table
import LuaTT.Lua.State
import LuaTT.Lua.Metatable
import LuaTT.Lua.CallLog
import LuaTT.Lua.Memory
import LuaTT.Thread.FdsLockOwnership
import LuaTT.Thread.WaitDeadlock
import LuaTT.Thread.MessageRoundTrip
import LuaTT.Thread.DemandWakeup
import LuaTT.Thread.AcceptedMessages
import LuaTT.Thread.SelfDeadlock
import LuaTT.Thread.RegistryOutcome
import LuaTT.Thread.RegistryLifecycle
import LuaTT.Thread.RegistryWait
import LuaTT.Thread.Termination
import LuaTT.Manager.DispatchVerdict
import LuaTT.Manager.DAEventDelivery
import LuaTT.Manager.HookCalls
import LuaTT.Manager.VetoCombination
import LuaTT.Manager.DamageProtocol
import LuaTT.Manager.FailedLoad
import LuaTT.Manager.OpenStates
import LuaTT.Manager.NameTable
import LuaTT.Manager.ChatRegistry
import LuaTT.Manager.ChatRouting
import LuaTT.Manager.RegistrantBooks
import LuaTT.Manager.DispatchLoops
import LuaTT.Manager.ReloadProtocol
import LuaTT.Manager.EventDelivery
import LuaTT.Manager.ConsoleFeedback
import LuaTT.Manager.PluginIsolation
import LuaTT.Manager.Unprotected
import LuaTT.Manager.UnprotectedCalls
import LuaTT.Manager.ScriptCallbacks
import LuaTT.Manager.Reentrancy
import LuaTT.Manager.ReentrantFrames
import LuaTT.Manager.ReentrantStack
import LuaTT.Manager.ReentrantVerdict
import LuaTT.Manager.ReentrantQuiet
import LuaTT.Dialogue.Conversation
import LuaTT.Dialogue.Script
import LuaTT.Dialogue.Flags
import LuaTT.Manager.FileListing
import LuaTT.Manager.ScriptLookup
import LuaTT.Manager.ConnectionStatus
import LuaTT.Manager.AnchoredStrings
import LuaTT.Dialogue.Speech
import LuaTT.Classes.ValueObjects
import LuaTT.Classes.LensLaws
import LuaTT.Classes.Handles
import LuaTT.Classes.HandleSafety
import LuaTT.Socket.Stuffing
import LuaTT.Socket.Sending
import LuaTT.Socket.HttpResponse
import LuaTT.Functions.MemoryAccess
import LuaTT.Socket.UrlResolution
import LuaTT.Functions.Listings
