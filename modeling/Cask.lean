import Cask.Lib.ByteImage
import Cask.Lib.FileCalls
import Cask.Lib.Fuel
import Cask.Db.Model
import Cask.Db.Insert
import Cask.Db.Integrity
import Cask.Db.History
import Cask.Db.AppendMap
import Cask.Db.AllOrNothing
import Cask.Db.Frame
import Cask.Db.Creation
import Cask.Db.Walks
import Cask.Lib.ColorTree
import Cask.RbTree.Model
import Cask.RbTree.Represent
import Cask.RbTree.Delete
import Cask.RbTree.Insert
import Cask.RbTree.RedBlack
import Cask.RbTree.Sequence
import Cask.RbTree.Queries
import Cask.Event.Timer
import Cask.Event.RunTimers
import Cask.Event.Termination
import Cask.Event.Periodic
import Cask.Http.Calls
import Cask.Http.Chunks
import Cask.Http.Inside
import Cask.Connection.Buffer
import Cask.Connection.Model
import Cask.Connection.Response
import Cask.Connection.Silence
import Cask.Connection.Truncation
import Cask.Http.ContentLength
import Cask.Http.RoundTrip
import Cask.Http.Split
import Cask.Lib.CircularList
import Cask.Server.Ipc
import Cask.Server.Shutdown
import Cask.Worker.Accept
import Cask.Connection.KeepAlive
import Cask.Connection.Callbacks
import Cask.Event.Owned
import Cask.Worker.Bookkeeping
import Cask.Lib.CString
import Cask.Lib.FirstBest
import Cask.Server.Route
import Cask.Server.Paste
import Cask.Server.Post
import Cask.Worker.Registry
import Cask.Worker.Interleaving
import Cask.Connection.Service
import Cask.Server.Pastebin
import Cask.Worker.Deadlines
import Cask.Worker.EventLoop
import Cask.Worker.Lifetime
import Cask.Lib.RwLock
import Cask.Db.Threads
import Cask.Server.Sharing
import Cask.Connection.Framing
import Cask.Connection.Crowd
import Cask.Server.Visitors
import Cask.RbTree.Rounds
import Cask.Db.Kills
