import CccUpgrade.Adapter.Discovery
import CccUpgrade.Adapter.FinishExact
import CccUpgrade.Adapter.Handlers
import CccUpgrade.Adapter.PathAccount
import CccUpgrade.Adapter.PathConfinement
import CccUpgrade.Adapter.Payload
import CccUpgrade.Adapter.PayloadStrings
import CccUpgrade.Adapter.ProcessData
import CccUpgrade.Adapter.Replies
import CccUpgrade.Adapter.Requests
import CccUpgrade.Adapter.ScanExact
import CccUpgrade.Adapter.ScriptReplies
import CccUpgrade.Adapter.UdpIsolation
import CccUpgrade.Adapter.UpgradeDirectory
import CccUpgrade.Adapter.UploadHandles
import CccUpgrade.Adapter.UploadSession
import CccUpgrade.Adapter.UploadTrail
import CccUpgrade.Adapter.WholeUpgrade
import CccUpgrade.Adapter.WholeUpload
import CccUpgrade.FileManager.Base64
import CccUpgrade.FileManager.Digest
import CccUpgrade.FileManager.FileManager
import CccUpgrade.FileManager.Md5Buffer
import CccUpgrade.FileManager.Md5Sum
import CccUpgrade.FileManager.Posix
import CccUpgrade.FileManager.SumBase64
import CccUpgrade.FileManager.SumBuffer
import CccUpgrade.Lib.Account
import CccUpgrade.Lib.BoundedQueue
import CccUpgrade.Lib.FileTree
import CccUpgrade.Lib.Heap
import CccUpgrade.Lib.MessageDigest
import CccUpgrade.Lib.Patch
import CccUpgrade.Lib.Path
import CccUpgrade.Lib.Refinement
import CccUpgrade.Lib.Scanner
import CccUpgrade.Lib.Sextets
import CccUpgrade.Lib.Simulation
import CccUpgrade.Lib.TransitionSystem
import CccUpgrade.Lib.Triple
import CccUpgrade.Machine
import CccUpgrade.Main.StartCcc
import CccUpgrade.Network.BufferBounds
import CccUpgrade.Network.ClientManager
import CccUpgrade.Network.ClientSession
import CccUpgrade.Network.Outbound
import CccUpgrade.Network.PacketBalance
import CccUpgrade.Network.ReceiveLoop
import CccUpgrade.Network.ReplyPackets
import CccUpgrade.Network.ResidualData
import CccUpgrade.Network.Segmentation
import CccUpgrade.Network.TcpSendAsync
import CccUpgrade.Network.TcpSocket
import CccUpgrade.Network.UpgradeSession
import CccUpgrade.PacketPool.BufferRoom
import CccUpgrade.PacketPool.CccPacket
import CccUpgrade.PacketPool.Packets
import CccUpgrade.PacketPool.Pool
import CccUpgrade.PacketPool.Refinement
import CccUpgrade.PacketPool.Ring
import CccUpgrade.Protocol.Assemble
import CccUpgrade.Protocol.Core
import CccUpgrade.Protocol.Corruption
import CccUpgrade.Protocol.EncodeSafety
import CccUpgrade.Protocol.Frame
import CccUpgrade.Protocol.Parse
import CccUpgrade.Protocol.ParseSafety
import CccUpgrade.Server.Authentication
import CccUpgrade.Server.Authorisation
import CccUpgrade.Server.Datagrams
import CccUpgrade.Server.Discoveries
import CccUpgrade.Server.FineConversations
import CccUpgrade.Server.FineServer
import CccUpgrade.Server.Ledger
import CccUpgrade.Server.Model
import CccUpgrade.Server.Ownership
import CccUpgrade.Server.PathHistory
import CccUpgrade.Server.PoolRefinement
import CccUpgrade.Server.Registration
import CccUpgrade.Server.ReplyStreams
import CccUpgrade.Server.Sequential
import CccUpgrade.Server.SharedPool
import CccUpgrade.Server.SharedUpgrade
import CccUpgrade.Server.StartUp
import CccUpgrade.Server.Steps
import CccUpgrade.Server.ThreadStreams
import CccUpgrade.Server.UploadHistory
import CccUpgrade.SysCalls
import CccUpgrade.Utils.FileSystem
import CccUpgrade.Utils.Memory
import CccUpgrade.Utils.UtilFunc
