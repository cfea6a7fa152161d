import ChatRoom.Machine
import ChatRoom.Refinement
import ChatRoom.SharedObject
import ChatRoom.Scan
import ChatRoom.Lines
import ChatRoom.Numeral
import ChatRoom.Bytes
import ChatRoom.Directory
import ChatRoom.UserManager
import ChatRoom.UserDirectory
import ChatRoom.Connection
import ChatRoom.ConnectionFraming
import ChatRoom.ConnectionPresence
import ChatRoom.UserLookup
import ChatRoom.ConnectionPort
import ChatRoom.ConnectionIsolation
import ChatRoom.Interleaving
import ChatRoom.ConnectionIndependence
import ChatRoom.ConnectionDormant
import ChatRoom.ConnectionAccounts
import ChatRoom.ConnectionReplies
import ChatRoom.ConnectionRace
import ChatRoom.CommandLine
import ChatRoom.CommandGrammar
import ChatRoom.Client
import ChatRoom.ClientInfo
import ChatRoom.ClientDirectory
import ChatRoom.ClientLogout
import ChatRoom.Network
import ChatRoom.NetworkDirectory
import ChatRoom.NetworkAtomic
import ChatRoom.NetworkService
import ChatRoom.ChatTarget
import ChatRoom.ClientStream
import ChatRoom.CommandLoop
import ChatRoom.Threads
import ChatRoom.ThreadPool
import ChatRoom.ThreadPoolFifo
import ChatRoom.ThreadPoolWake
import ChatRoom.ThreadPoolShutdown
import ChatRoom.ThreadPoolStop
import ChatRoom.ThreadPoolPending
import ChatRoom.Settling
import ChatRoom.ThreadPoolProgress
import ChatRoom.Descriptor
import ChatRoom.Intake
import ChatRoom.Server
import ChatRoom.ServerSockets
import ChatRoom.ServerSequential
import ChatRoom.ServerProgress
import ChatRoom.ServerTeardown
import ChatRoom.ServerShutdown
import ChatRoom.ServerStop
import ChatRoom.ServerFifo
import ChatRoom.Chat
import ChatRoom.ChatSockets
import ChatRoom.ChatLines
import ChatRoom.ChatRouting
import ChatRoom.ChatMessages
import ChatRoom.ChatStream
import ChatRoom.ArchiveUserDB
import ChatRoom.ArchiveServer
