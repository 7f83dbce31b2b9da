import FileServer.Bytes
import FileServer.Lib.Loop
import FileServer.Lib.Chain
import FileServer.Lib.OrderedMap
import FileServer.Collections
import FileServer.Disk
import FileServer.Client
import FileServer.Handlers
import FileServer.Server
import FileServer.Steps
import FileServer.Equiv.Collections
import FileServer.Equiv.Disk
import FileServer.Equiv.Ctx
import FileServer.Equiv.Steps
import FileServer.Equiv.Frame
import FileServer.Equiv.Server
import FileServer.Equiv.Request
import FileServer.Confinement
import FileServer.Equiv.Reply
import FileServer.Equiv.Allocation
import FileServer.Replies
import FileServer.Delivery
import FileServer.Verdict
import FileServer.Equiv.Event
import FileServer.Record
import FileServer.Interest
import FileServer.Equiv.Header
import FileServer.Stall
import FileServer.Recognition
import FileServer.Equiv.Sender
import FileServer.Agreement
import FileServer.Listing
import FileServer.Deletion
import FileServer.Download
import FileServer.Lifetime
import FileServer.Closing
import FileServer.FailedUpload
import FileServer.Snapshot
import FileServer.Advertised
import FileServer.Serial
import FileServer.Containers
import FileServer.Exhaustion
import FileServer.Socket
import FileServer.Equiv.Socket
import FileServer.Receiver
import FileServer.Framing
import FileServer.Equiv.Receiver
import FileServer.Response
import FileServer.Silent
import FileServer.Equiv.Alike
import FileServer.Equiv.Congruence
import FileServer.Interleaving
import FileServer.Store
import FileServer.Sequential
import FileServer.Equiv.Uploader
import FileServer.Dialogue
import FileServer.EventLoop
import FileServer.Polling
import FileServer.Completion
import FileServer.Process
import FileServer.Ownership
import FileServer.CommandLine
import FileServer.Answering
import FileServer.Served
import FileServer.Equiv.Reading
