import TraceServer.Server

/-!
# Who is called back

A callback of a client comes from its timer event or from its bufferevent, and libevent
invokes none after `event_del` on the one or `bufferevent_free` on the other. So the
clients a callback can come for are those with a timer or a bufferevent registered, and
nothing is assumed of the server's own lists.

`created` and `released` are ghosts: the client objects `evserver_client_new` has returned
to a worker, and those handed to `evserver_client_release`, each as often as it was.
-/

namespace TraceServer

variable {n : Nat}

structure EventLoop (n : Nat) where
  server : Server n
  /-- Clients whose `event_timer` has been added and not deleted. -/
  timers : List ServerClient
  /-- Clients whose `buf_ev` has been made and not freed. -/
  bufferevents : List ServerClient
  created : List ServerClient
  released : List ServerClient

/-- The client that a worker's read callback makes. -/
def Server.creates (s : Server n) : ServerEvent n → Option ServerClient
  | .readCallbackStep i w a =>
    match ((s.workers i).readCallbackStep w).1 with
    | some (some item) =>
      match item.job with
      | some job => (s.evserverClientNew item.conn job.connectFd a).1
      | none => none
    | _ => none
  | _ => none

namespace EventLoop

def init (n : Nat) (queueSize : Int) : EventLoop n := ⟨.init n queueSize, [], [], [], []⟩

/-- What libevent can invoke the callback from is still there. -/
def mayCall (l : EventLoop n) (client : ServerClient) : Server.ClientCallback → Bool
  | .timer _ => client ∈ l.timers
  | _ => client ∈ l.bufferevents

/-- A callback that ends its client has deleted the timer and freed the bufferevent. -/
def step (l : EventLoop n) (e : ServerEvent n) : EventLoop n :=
  match e with
  | .clientCallback client c =>
    if l.mayCall client c then
      let server := l.server.clientCallback client c
      if c.exits then
        { server
          timers := l.timers.filter (· ≠ client)
          bufferevents := l.bufferevents.filter (· ≠ client)
          created := l.created
          released := l.released ++ [client] }
      else { l with server }
    else l
  | e =>
    let made := (l.server.creates e).toList
    { server := l.server.step e
      timers := made ++ l.timers
      bufferevents := made ++ l.bufferevents
      created := l.created ++ made
      released := l.released }

end EventLoop

end TraceServer
