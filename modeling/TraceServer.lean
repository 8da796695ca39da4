import TraceServer.Lib.Run
import TraceServer.Lib.Update
import TraceServer.Lib.Occurs
import TraceServer.Lib.Resume
import TraceServer.Lib.Refine
import TraceServer.Lib.Custody
import TraceServer.Lib.Cyclic
import TraceServer.Lib.Mask
import TraceServer.Lib.BoundedQueue
import TraceServer.Lib.Ring
import TraceServer.Lib.Chain
import TraceServer.CString
import TraceServer.Search
import TraceServer.UserString
import TraceServer.Bm
import TraceServer.Fifo
import TraceServer.FifoShared
import TraceServer.Os
import TraceServer.File
import TraceServer.FileRead
import TraceServer.SkylogRecord
import TraceServer.HttpRequest
import TraceServer.Skylog
import TraceServer.Attempt
import TraceServer.Client
import TraceServer.HttpRecv
import TraceServer.ClientTalk
import TraceServer.Clients
import TraceServer.Queue
import TraceServer.QueueLinks
import TraceServer.Worker
import TraceServer.Server
import TraceServer.EventLoop
import TraceServer.Process
import TraceServer.Listen
import TraceServer.Threadpool
import TraceServer.WorkerPool
import TraceServer.Startup
import TraceServer.Proof.Recv
import TraceServer.Proof.Dialogue
import TraceServer.Proof.Answer
import TraceServer.Proof.Flush
import TraceServer.Proof.Write
import TraceServer.Proof.Attempt
import TraceServer.Proof.Save
import TraceServer.Proof.Scan
import TraceServer.Proof.Segment
import TraceServer.Proof.Path
import TraceServer.Proof.Collide
import TraceServer.Proof.Files
import TraceServer.Proof.WriteStatus
import TraceServer.Proof.Read
import TraceServer.Proof.Record
import TraceServer.Proof.Handles
import TraceServer.Proof.Leftover
import TraceServer.Proof.Sunday
import TraceServer.Proof.UserString
import TraceServer.Proof.Strline
import TraceServer.Proof.SundayCase
import TraceServer.Proof.Bm
import TraceServer.Proof.BmCase
import TraceServer.HeaderText
import TraceServer.Upload
import TraceServer.Proof.Field
import TraceServer.Proof.Length
import TraceServer.Proof.Lookup
import TraceServer.Proof.Url
import TraceServer.Proof.Parmer
import TraceServer.Proof.Info
import TraceServer.Proof.HeaderRecv
import TraceServer.Proof.Complete
import TraceServer.Proof.Among
import TraceServer.Proof.Post
import TraceServer.Proof.Upload
import TraceServer.Proof.Fifo
import TraceServer.Proof.FifoSize
import TraceServer.Proof.FifoShared
import TraceServer.Proof.QueueLinks
import TraceServer.Proof.Notify
import TraceServer.Proof.Items
import TraceServer.Proof.RingMode
import TraceServer.Proof.Descriptor
import TraceServer.Proof.Pool
import TraceServer.Proof.WaitCount
import TraceServer.Proof.Handling
import TraceServer.Proof.Process
import TraceServer.Proof.Served
import TraceServer.Proof.RoundRobin
import TraceServer.Proof.Admission
import TraceServer.Proof.Listen
import TraceServer.Proof.Tally
import TraceServer.Proof.Threadpool
import TraceServer.Proof.TpoolLimit
import TraceServer.Proof.WorkerPool
import TraceServer.Proof.Startup
