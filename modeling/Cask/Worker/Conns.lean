import Cask.Connection.Callbacks
import Cask.Event.Owned
import Cask.Lib.CircularList

/-! # The connections of a worker

What the callbacks of `connection.c` do to the worker: the list of its connections and their
number, the memory of the connections, their entries in the epoll set, and their timers in the
tree of the event base.  A connection is known by its address, which may be used again after
`free`; reading or writing a connection that is not allocated is a fault.

The functions of one connection keep a log of their calls on its timer.  Here the log is carried
out on the tree, in the same order.
-/

namespace Cask.Conns

open RbTree Event Conn Http Fuel

/-! ## Data -/

/-- `timer->cb` -/
inductive TimerCallback where
  | null
  | timeoutCallback
  deriving DecidableEq, Repr

/-- `struct worker`, with the connections that are allocated, the entry of each one's descriptor in the
epoll set, the timers, and the state of the route callbacks. -/
structure Worker (α σ : Type) where
  conns : CircularList.Links α
  numConns : BitVec 64
  conn : α → Option Connection
  epoll : α → Option Interest
  timers : St α (Timer TimerCallback (Option α))
  app : σ

/-- The answers to the calls of one callback, and the times that it reads. -/
structure Outcomes where
  recvs : List Recv
  sends : List Send
  reallocs : List (Option (List UInt8))
  ctls : List Bool
  times : List UInt64

/-- The answers to the calls of `accept_connection` before the connection exists. -/
structure Accepting (α : Type) where
  accept : Bool
  fcntl : Bool
  calloc : Option α
  createBuffer : Bool

/-- A callback touches what it may not, or does not come to an end. -/
inductive Crash where
  | fault (fault : Fault)
  | stuck (stuck : Stuck)

variable {α σ : Type}

/-- What a connection sees of the world. -/
def Worker.io (w : Worker α σ) (a : α) (o : Outcomes) : Io σ :=
  ⟨o.recvs, o.sends, o.reallocs, o.ctls, w.epoll a, [], [], w.app⟩

/-- A list node is read or written. -/
def touch (w : Worker α σ) : CircularList.Ptr α → Except Fault Unit
  | .head => .ok ()
  | .node a => if (w.conn a).isSome then .ok () else .error .notAllocated
  | .null => .error .nullDeref

/-- A node of zeros, `RBBLK` among them. -/
def zeroNode : Rbnode α := ⟨.black, .null, .null, .null⟩

def zeroTimer : Timer TimerCallback (Option α) := ⟨0, 0, 0, .null, none⟩

/-- A connection from `calloc`, with its buffer. -/
def fresh : Connection := ⟨.stateIn, false, false, emptyBuffer, 0, zeroed⟩

/-- The worker of `start_worker`. -/
def created (app : σ) : Worker α σ :=
  ⟨CircularList.init, 0, fun _ => none, fun _ => none,
    rbtreeInit (fun _ => none) fun _ => zeroTimer, app⟩

variable [DecidableEq α]

/-! ## Timers -/

/-- `del_timer`, whose result is not looked at. -/
def stopTimer (fuel : Nat) (st : St α (Timer TimerCallback (Option α))) (a : α) :
    Except Fault (St α (Timer TimerCallback (Option α))) := (delTimer fuel st a).map Prod.snd

/-- The timer in `reset_connection`; `add_timer` finds it inactive. -/
def resetTimer (fuel : Nat) (st : St α (Timer TimerCallback (Option α))) (now : UInt64) (a : α) :
    Except Fault (St α (Timer TimerCallback (Option α))) := do
  let timer ← timerAt st a
  let st ← if timer.isActive then stopTimer fuel st a else .ok st
  let timer := makeTimer timeout timerFlagOneshot TimerCallback.timeoutCallback (some a)
  let st := { setTimer st a timer with node := Function.update st.node a (some zeroNode) }
  (addTimer fuel st now a).map Prod.snd

/-- The calls on the timer of a connection, in order. -/
def replay (fuel : Nat) (a : α) : List TimerCall → List UInt64 →
    St α (Timer TimerCallback (Option α)) →
    Except Fault (St α (Timer TimerCallback (Option α)))
  | [], _, st => .ok st
  | .reset :: calls, times, st => do replay fuel a calls times.tail (← resetTimer fuel st (times.headD 0) a)
  | .cancel :: calls, times, st => do replay fuel a calls times (← stopTimer fuel st a)

/-! ## Callbacks -/

/-- `worker->num_conns--`, `list_del_entry(c, node)` and `free(c)` -/
def forget (w : Worker α σ) (a : α) : Worker α σ where
  conns := w.conns.del a
  numConns := w.numConns - 1
  conn := Function.update w.conn a none
  epoll := w.epoll
  timers := { w.timers with node := Function.update w.timers.node a none }
  app := w.app

/-- The rest of `close_connection(c)`, behind the event and the timer. -/
def release (w : Worker α σ) (a : α) : Except Fault (Worker α σ) := do
  touch w (.node a)
  touch w (w.conns.next (.node a))
  touch w (w.conns.prev (.node a))
  return forget w a

/-- What the code of a connection has done is carried out on the worker. -/
def settle (fuel : Nat) (w : Worker α σ) (a : α) (times : List UInt64)
    (result : Option Connection × Io σ) : Except Fault (Worker α σ) :=
  do
  let timers ← replay fuel a result.2.timer times w.timers
  let w :=
    { w with timers := timers, epoll := Function.update w.epoll a result.2.interest, app := result.2.app }
  match result.1 with
  | some c => return { w with conn := Function.update w.conn a (some c) }
  | none => release w a

/-- `calloc` gives the address `a`, and `list_add_entry_tail(&worker->conns, c, node)` follows. -/
def enrol (w : Worker α σ) (a : α) : Worker α σ where
  conns := w.conns.addTail a
  numConns := w.numConns
  conn := Function.update w.conn a (some fresh)
  epoll := w.epoll
  timers :=
    { setTimer w.timers a zeroTimer with node := Function.update w.timers.node a (some zeroNode) }
  app := w.app

def enlist (w : Worker α σ) (a : α) : Except Fault (Worker α σ) := do
  touch w (w.conns.prev .head)
  return enrol w a

/-- `accept_connection(worker)` -/
def acceptConnection (fuel : Nat) (w : Worker α σ) (accepting : Accepting α) (o : Outcomes) :
    Except Fault (Status × Worker α σ) := do
  if !accepting.accept then return (.err, w)
  if !accepting.fcntl then return (.err, w)
  match accepting.calloc with
  | none => return (.err, w)
  | some a =>
    if !accepting.createBuffer then return (.err, w)
    let w ← enlist w a
    let w ← settle fuel w a o.times (beginRead fresh (w.io a o))
    return (.ok, w)

/-- `on_accept(fd, events, worker)` -/
def onAccept (fuel : Nat) (w : Worker α σ) (events : Events) (accepting : Accepting α)
    (o : Outcomes) : Except Fault (Worker α σ) :=
  do
  if events.epollin then
    match ← acceptConnection fuel w accepting o with
    | (.ok, w) => return { w with numConns := w.numConns + 1 }
    | (.err, w) => return w
  else return w

/-- `timeout_callback(c)` -/
def timeoutCallback (fuel : Nat) (w : Worker α σ) (a : α) (o : Outcomes) :
    Except Fault (Worker α σ) :=
  do
  touch w (.node a)
  settle fuel w a o.times (closeConnection (w.io a o))

/-- A round of `run_timers` on the timer of `a`: it is taken out, and then its callback is called. -/
def expire (fuel : Nat) (w : Worker α σ) (a : α) (o : Outcomes) : Except Fault (Worker α σ) := do
  let timers ← stopTimer fuel w.timers a
  let timer ← timerAt timers a
  match timer.target with
  | (TimerCallback.timeoutCallback, some b) => timeoutCallback fuel { w with timers := timers } b o
  | _ => .error .nullDeref

/-- `io_callback(fd, events, c)` -/
def ioCallback (callback : Callback σ) (fuel : Nat) (w : Worker α σ) (a : α) (events : Events)
    (o : Outcomes) : Except Crash (Worker α σ) :=
  match w.conn a with
  | none => .error (.fault .notAllocated)
  | some c =>
    match Conn.ioCallback callback fuel events c (w.io a o) with
    | .error stuck => .error (.stuck stuck)
    | .ok result => (settle fuel w a o.times result).mapError .fault

/-- The callbacks of a worker; `expire` is the way in which `timeout_callback` is called. -/
inductive Call (α : Type) where
  | accept (events : Events) (accepting : Accepting α)
  | io (a : α) (events : Events)
  | timeout (a : α)
  | expire (a : α)

def handle (callback : Callback σ) (fuel : Nat) (w : Worker α σ) (call : Call α) (o : Outcomes) :
    Except Crash (Worker α σ) :=
  match call with
  | .accept events accepting => (onAccept fuel w events accepting o).mapError .fault
  | .io a events => ioCallback callback fuel w a events o
  | .timeout a => (timeoutCallback fuel w a o).mapError .fault
  | .expire a => (expire fuel w a o).mapError .fault

end Cask.Conns
