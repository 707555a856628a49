import HyperKV.OpenAddressing.Lands
import HyperKV.List.Pop
import HyperKV.List.Remove
import HyperKV.List.Walk
import HyperKV.Set.Kept
import HyperKV.Interpreter
import HyperKV.Htable.Map
import HyperKV.Htable.Search
import HyperKV.Interpreter.TypeSafety
import HyperKV.OpenAddressing.Distinct
import HyperKV.Helper.Decimal
import HyperKV.Interpreter.Bulk
import HyperKV.Interpreter.Counter
import HyperKV.Client
import HyperKV.Htable.Contents
import HyperKV.Htable.Load
import HyperKV.Interpreter.Arithmetic
import HyperKV.Interpreter.Lists
import HyperKV.Interpreter.Replies
import HyperKV.Helper.Number
import HyperKV.Htable.Listing
import HyperKV.Htable.ProbeIndex
import HyperKV.Htable.Resize
import HyperKV.Interpreter.Buffers
import HyperKV.Interpreter.Listings
import HyperKV.Parser
import HyperKV.Parser.Quoting
import HyperKV.KeyedStore
import HyperKV.Keyspace
import HyperKV.Keyspace.Apart
import HyperKV.Client.Display
import HyperKV.Parser.Sendable
import HyperKV.SerialServer
import HyperKV.Sessions
import HyperKV.Sessions.Answers
import HyperKV.Sessions.Typed
import HyperKV.Htable.Current
import HyperKV.Htable.Reaches
import HyperKV.SerialServer.Waiting
import HyperKV.Sessions.Waiting
import HyperKV.Htable.SmallStores
import HyperKV.Interpreter.Small
import HyperKV.Keyspace.Exact
import HyperKV.Sessions.Exact
import HyperKV.List.Free
