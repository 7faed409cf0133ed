import KosmosFs.Checkpoint.Control
import KosmosFs.Checkpoint.Writer
import KosmosFs.Checkpoint.ActiveNode
import KosmosFs.Net.TcpSocket
import KosmosFs.Net.NetManager
import KosmosFs.Net.MainLoop
import KosmosFs.Meta.Allocate
import KosmosFs.Meta.Dispatcher
import KosmosFs.Meta.Lifecycle
import KosmosFs.Meta.Incarnation
import KosmosFs.Meta.LayoutReply
import KosmosFs.Meta.Parse
import KosmosFs.Meta.OpLog
import KosmosFs.Checkpoint.Header
import KosmosFs.Meta.Response
import KosmosFs.Meta.Query
import KosmosFs.Net.Telemetry
import KosmosFs.Emulator.RebalancePlanner
