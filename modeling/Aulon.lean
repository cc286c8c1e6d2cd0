import Aulon.Lib.Run
import Aulon.Core.TrieEquality
import Aulon.Core.TriePanics
import Aulon.Core.OutboundFifo
import Aulon.Core.InboxOrder
import Aulon.Core.InboxSequential
import Aulon.Core.InboxWakeup
import Aulon.Proto.Canonical
import Aulon.Proto.DecimalFields
import Aulon.Proto.EmitBounds
import Aulon.Bench.Fanout
import Aulon.Server.Bootstrap
import Aulon.Server.Closing
import Aulon.Server.GroupMembers
import Aulon.Server.Picks
import Aulon.Server.Subscriptions
import Aulon.Server.QueueGroups
import Aulon.Server.ReaderBounds
import Aulon.Server.Standing
import Aulon.Server.Streams
import Aulon.Server.Tables
import Aulon.Server.Writer
