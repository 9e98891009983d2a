import VplJail.Common.CriticalSection
import VplJail.Configuration.Codec
import VplJail.Configuration.Settings
import VplJail.Configuration.WriteFile
import VplJail.Configuration.WritableDirs
import VplJail.Util.Containment
import VplJail.Util.RemoveDir
import VplJail.Util.SafePath
import VplJail.Util.Base64Ints
import VplJail.Util.MemSize
import VplJail.Task.LocalServer
import VplJail.Task.OneTime
import VplJail.Task.Updates
import VplJail.Task.Results
import VplJail.Task.Draws
import VplJail.Task.Scripts
import VplJail.Task.Timeout
import VplJail.Task.Retrieval
import VplJail.Task.Selection
import VplJail.Task.Deadlock
import VplJail.Task.Reuse
import VplJail.Task.Aging
import VplJail.Task.Final
import VplJail.Task.ResultSize
import VplJail.Socket.ReadHeaders
import VplJail.Socket.RequestHead
import VplJail.Socket.Cookies
import VplJail.Rpc.JsonRpc
import VplJail.Rpc.XmlRpc
import VplJail.Rpc.Agreement
import VplJail.Rpc.ReplyText
import VplJail.Rpc.Numbers
import VplJail.Json.Locality
import VplJail.Json.Surrogates
import VplJail.Xml.References
import VplJail.Xml.Bounds
import VplJail.Http.Server
import VplJail.WebSocket.FrameCodec
import VplJail.WebSocket.Delivery
import VplJail.WebSocket.Fragmentation
import VplJail.WebSocket.AfterClose
import VplJail.WebSocket.FragmentOrder
import VplJail.WebSocket.Base64Messages
import VplJail.WebSocket.ValidText
import VplJail.Redirector.Forwarding
import VplJail.Redirector.Closing
import VplJail.Redirector.TerminalOutput
import VplJail.Redirector.BatchOutput
import VplJail.Jail.Limits
import VplJail.Jail.Upload
import VplJail.Jail.Authorisation
import VplJail.Jail.Process
import VplJail.Jail.FileNames
import VplJail.Jail.Escalation
import VplJail.Jail.TaskOnlyFrom
import VplJail.Jail.UnmountTree
import VplJail.Jail.Stopping
import VplJail.Jail.Served
import VplJail.Server.Banning
import VplJail.Task.Cgroup
