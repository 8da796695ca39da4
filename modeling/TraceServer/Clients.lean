import TraceServer.ClientTalk

/-!
# The clients of a worker

An event loop calls back for many clients, one callback at a time. Clients are numbered as they are
accepted, and one that has had no callback yet is as `evserver_client_new` leaves it.

The other workers have threads of their own. What they and other programs do to the files between
two callbacks of this one is `others`, and what a dialogue comes to is all that is said of such a
run: saves that overlap are not modelled.
-/

namespace TraceServer

structure Clients (ι : Type) where
  client : ι → Client
  released : ι → Bool
  host : Host

inductive ClientsEvent (ι : Type) where
  /-- `seg` has arrived for a client and its `ev_buffered_read_callback` is called. -/
  | read (i : ι) (seg : Bytes)
  /-- Its `ev_buffered_write_callback` is called. -/
  | write (i : ι)
  /-- Its socket takes the next `n` bytes of output. -/
  | flush (i : ι) (n : Nat)
  | others (h : Host)

namespace Clients

variable {ι : Type}

def init (ι : Type) (h : Host) : Clients ι := ⟨fun _ => Client.fresh, fun _ => false, h⟩

/-- A client and what it can see of the process. -/
def alone (s : Clients ι) (i : ι) : ClientRun := ⟨s.client i, s.host, s.released i⟩

variable [DecidableEq ι]

def onClient (s : Clients ι) (i : ι) (e : ClientEvent) : Clients ι :=
  let r := (s.alone i).step e
  { client := Function.update s.client i r.client
    released := Function.update s.released i r.released
    host := r.host }

def step (s : Clients ι) (e : ClientsEvent ι) : Clients ι :=
  match e with
  | .read i seg => s.onClient i (.read seg)
  | .write i => s.onClient i .write
  | .flush i n => s.onClient i (.flush n)
  | .others h => { s with host := h }

end Clients

/-- What an event is for client `i`, if it is for that client. -/
def ClientsEvent.on {ι : Type} [DecidableEq ι] (i : ι) : ClientsEvent ι → Option ClientEvent
  | .read j seg => if j = i then some (.read seg) else none
  | .write j => if j = i then some .write else none
  | .flush j n => if j = i then some (.flush n) else none
  | .others _ => none

end TraceServer
