import Negatus.Machine
import Negatus.Foundations.FirstSplit
import Negatus.Foundations.Refinement
import Negatus.Foundations.Chunks
import Negatus.Foundations.Words
import Negatus.Foundations.FileTree
import Negatus.Foundations.Program
import Negatus.Buffer
import Negatus.Buffer.Chain
import Negatus.Buffer.Scan
import Negatus.Buffer.Fifo
import Negatus.Os
import Negatus.BufferedSocket
import Negatus.BufferedSocket.Outgoing
import Negatus.BufferedSocket.Steps
import Negatus.BufferedSocket.Descriptor
import Negatus.BufferedSocket.Incoming
import Negatus.Strings
import Negatus.DataHandler.Pull
import Negatus.DataHandler.Transfer
import Negatus.DataHandler.Push
import Negatus.DataHandler.Subprocess
import Negatus.DataHandler.Environment
import Negatus.Shell
import Negatus.Shell.Text
import Negatus.Shell.Crashes
import Negatus.CommandEventHandler
import Negatus.CommandEventHandler.Lines
import Negatus.CommandEventHandler.Steps
import Negatus.Foundations.History
import Negatus.CommandEventHandler.Run
import Negatus.CommandEventHandler.Reader
import Negatus.CommandEventHandler.Sequential
import Negatus.CommandEventHandler.Payload
import Negatus.CommandEventHandler.Pending
import Negatus.CommandEventHandler.Prompts
import Negatus.CommandEventHandler.Answers
import Negatus.CommandEventHandler.Copies
import Negatus.CommandEventHandler.Framing
import Negatus.CommandEventHandler.Replies
import Negatus.CommandEventHandler.Exec
import Negatus.CommandEventHandler.WireForm
import Negatus.CommandEventHandler.Resources
import Negatus.Reboot
import Negatus.FileSystem
import Negatus.Rmdr
import Negatus.Reactor
import Negatus.Reactor.Timers
import Negatus.CommandEventHandler.Sockets
import Negatus.HeartbeatEventHandler
import Negatus.Agent.Calls
import Negatus.Agent.Handlers
import Negatus.Agent.Sockets
import Negatus.Agent.Wakeups
import Negatus.Agent.Delivery
import Negatus.Agent.Isolation
import Negatus.Reactor.Rounds
import Negatus.Agent.Rounds
import Negatus.CommandEventHandler.Crashes
import Negatus.Agent.Crashes
import Negatus.CommandEventHandler.Clock
import Negatus.Agent.Clock
import Negatus.Agent.Spacing
import Negatus.HeartbeatEventHandler.Messages
import Negatus.Agent.Heartbeats
import Negatus.Agent.Options
import Negatus.Agent.Main
import Negatus.Foundations.Tape
import Negatus.FileCommands
import Negatus.FileCommands.Session
import Negatus.Buffer.Alloc
import Negatus.Buffer.Getline
import Negatus.Buffer.Find
import Negatus.Buffer.Overrun
import Negatus.Config
import Negatus.DataHandler.Slice
import Negatus.DataHandler.Stored
import Negatus.Foundations.PercentCode
import Negatus.Foundations.SortedMap
import Negatus.Registration
import Negatus.Registration.Ini
import Negatus.Registration.LongLines
import Negatus.Registration.Query
import Negatus.Registration.RoundTrip
import Negatus.Rmdr.Reply
import Negatus.Rmdr.Tape
