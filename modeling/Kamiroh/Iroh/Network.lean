import Kamiroh.Iroh.Sender
import Kamiroh.Stock

/-!
# A network of iroh endpoints

Some endpoints run the adapter. Anybody else may connect to them, and writes whatever streams it likes.
A send is a task that waits for its connection and for its stream, and a reader waits while the receipt
of a batch goes out. All other tasks may come in between.
-/

namespace Kamiroh.Iroh

/-! ## The tasks of an endpoint -/

/-- A stream on its way. `origin` holds the key of the connection that it was opened on, and `connection`
is that connection at the target. -/
structure Flight where
  origin : EndpointId
  target : EndpointId
  connection : ConnId
  bytes : List UInt8
deriving DecidableEq

/-- What a task of `send_encoded` waits for. `again` holds on the second attempt. -/
inductive Attempting
  | Connecting (bytes : List UInt8) (again : Bool)
  | Streaming (bytes : List UInt8) (again : Bool) (connection : ConnId)
  -- The stream is finished. The task returns `Ok` whatever comes of it.
  | Finished
  | Failed (error : SendError)
  -- Whoever asked for it gave it up.
  | Dropped
deriving DecidableEq

/-- What a task is about to write. -/
def Attempting.streaming : Attempting → Option (List UInt8)
  | Streaming bytes _ _ => some bytes
  | _ => none

structure Call where
  target : EndpointId
  frame : Frame
  state : Attempting
deriving DecidableEq

/-- A batch that the reader of a connection is at. It is `answered` once its receipt is out of the way. -/
structure Batch where
  connection : ConnId
  origin : EndpointId
  fromName : ActorName
  toNames : List ActorName
  request : Request
  answered : Bool
deriving DecidableEq

/-- An endpoint that runs the adapter. -/
structure Node where
  shared : IrohShared
  router : Router
  calls : List Call
  batches : List Batch

/-- How a `send_frame` ends: with the whole frame on its way, or not, and then the peer may still find a
piece of it. -/
inductive Written
  | Whole
  | Cut (sent : Option Nat) (text : String)
deriving DecidableEq

def Written.bytes (bytes : List UInt8) : Written → Option (List UInt8)
  | Whole => some bytes
  | Cut sent _ => sent.map bytes.take

/-- The inbox of `name` takes its next delivery. -/
def Router.recv (router : Router) (name : ActorName) : Option Delivery × Router :=
  match router.bound.lookup name with
  | some ⟨delivery :: queue, false⟩ => (some delivery, ⟨router.bound.insert name ⟨queue, false⟩⟩)
  | _ => (none, router)

/-- `wires` knows what a connection is called at its other end, where that runs the adapter too. -/
structure Network where
  adapters : Finset EndpointId
  nodes : EndpointId → Node
  wires : Assoc (EndpointId × ConnId) ConnId
  flights : List Flight

def Flight.isAt (endpoint : EndpointId) (c : ConnId) (flight : Flight) : Bool :=
  flight.target = endpoint && flight.connection = c

def Batch.isAt (c : ConnId) (answered : Bool) (batch : Batch) : Bool :=
  batch.connection = c && batch.answered = answered

/-- The frame that answers a batch at `endpointId`. -/
def Batch.receipt (endpointId : EndpointId) (batch : Batch) : Frame :=
  .Single (batchReceiptSender endpointId).name batch.fromName (.Ack ⟨batch.request.id⟩)

def Batch.deliveries (endpointId : EndpointId) (batch : Batch) : List Delivery :=
  batch.toNames.map (openOf endpointId ⟨batch.origin, batch.fromName⟩ batch.request)

namespace Network

/-- What an observer of the whole network sees. -/
inductive Event
  | Opened (flight : Flight)
  | Took (flight : Flight)
  | Queued (endpoint : EndpointId) (connection : ConnId) (delivery : Delivery)
  | Received (endpoint : EndpointId) (name : ActorName) (delivery : Delivery)
deriving DecidableEq

def start (adapters : Finset EndpointId) : Network := ⟨adapters, fun _ => ⟨.new, .new, [], []⟩, ∅, []⟩

def modify (net : Network) (endpoint : EndpointId) (change : Node → Node) : Network :=
  { net with nodes := Function.update net.nodes endpoint (change (net.nodes endpoint)) }

/-- A stream goes out on a connection of `endpoint`. The flights are in the order in which their streams were
opened, in which the other end accepts them. -/
def post (net : Network) (endpoint : EndpointId) (c : ConnId) : Option (List UInt8) → Network × List Event
  | none => (net, [])
  | some bytes =>
    match (net.nodes endpoint).shared.links[c]?, net.wires.lookup (endpoint, c) with
    | some link, some far =>
      let flight := ⟨endpoint, link.remote, far, bytes⟩
      ({ net with flights := net.flights ++ [flight] }, [.Opened flight])
    | _, _ => (net, [])

/-! ## Sending -/

section

variable [Postcard]

def send (net : Network) (endpoint : EndpointId) (origin : Address) (target : EndpointId)
    (frame : Frame) : Network :=
  let state : Attempting :=
    if origin.endpoint ≠ endpoint then .Failed .NotOurEndpoint
    else
      match Postcard.toStdvec frame with
      | .error text => .Failed (.Encode text)
      | .ok bytes => .Connecting bytes false
  net.modify endpoint fun node => { node with calls := node.calls ++ [⟨target, frame, state⟩] }

end

/-- The other end of a new connection hears of it. -/
def join (net : Network) (endpoint : EndpointId) (c : ConnId) (target : EndpointId) : Network :=
  if target ∈ net.adapters then
    let far := (net.nodes target).shared.links.length
    let net := net.modify target fun node => { node with shared := node.shared.established endpoint }
    { net with wires := (net.wires.insert (endpoint, c) far).insert (target, far) c }
  else net

/-- A task of `send_encoded` gets its connection. `dialed` is how the dial ends, if there is one. -/
def connect (net : Network) (endpoint : EndpointId) (i : Nat) (dialed : Except String Unit) : Network :=
  match (net.nodes endpoint).calls[i]? with
  | some ⟨target, frame, .Connecting bytes again⟩ =>
    match (net.nodes endpoint).shared.connectionTo target again dialed with
    | (.error error, shared) =>
      net.modify endpoint fun node =>
        { node with shared, calls := node.calls.set i ⟨target, frame, .Failed (.Connection error)⟩ }
    | (.ok c, shared) =>
      let connected := net.modify endpoint fun node =>
        { node with shared, calls := node.calls.set i ⟨target, frame, .Streaming bytes again c⟩ }
      if c = (net.nodes endpoint).shared.links.length then connected.join endpoint c target
      else connected
  | _ => net

/-- The `send_frame` of a task, from its `open_uni` on: the stream gets its place among the flights there, and
`written` says how the rest of `send_frame` ends. -/
def write (net : Network) (endpoint : EndpointId) (i : Nat) (written : Written) : Network × List Event :=
  match (net.nodes endpoint).calls[i]? with
  | some ⟨target, frame, .Streaming bytes again c⟩ =>
    let state :=
      match written with
      | .Whole => .Finished
      | .Cut _ text => if again then .Failed (.Stream text) else .Connecting bytes true
    (net.modify endpoint fun node => { node with calls := node.calls.set i ⟨target, frame, state⟩ }).post
      endpoint c (written.bytes bytes)
  | _ => (net, [])

/-- The future of a task is dropped. What it has written goes out. -/
def drop (net : Network) (endpoint : EndpointId) (i : Nat) (sent : Option Nat) : Network × List Event :=
  match (net.nodes endpoint).calls[i]? with
  | some ⟨target, frame, .Connecting _ _⟩ =>
    (net.modify endpoint fun node => { node with calls := node.calls.set i ⟨target, frame, .Dropped⟩ }, [])
  | some ⟨target, frame, .Streaming bytes _ c⟩ =>
    (net.modify endpoint fun node => { node with calls := node.calls.set i ⟨target, frame, .Dropped⟩ }).post
      endpoint c (sent.map bytes.take)
  | _ => (net, [])

/-! ## Reading -/

section

variable [Postcard]

/-- The reader of a connection takes its next stream, if it is not at a batch. Whatever is too long or
does not decode is dropped. -/
def read (net : Network) (endpoint : EndpointId) (c : ConnId) : Network × List Event :=
  let node := net.nodes endpoint
  match node.shared.links[c]?, net.flights.find? (Flight.isAt endpoint c) with
  | some link, some flight =>
    if link.stage = .Accepted || node.batches.any (·.connection = c) then (net, [])
    else
      let net := { net with flights := net.flights.eraseP (Flight.isAt endpoint c) }
      match accept flight.bytes with
      | none => (net, [.Took flight])
      | some (.Single fromName toName message) =>
        let routed := node.router.route ⟨⟨link.remote, fromName⟩, ⟨endpoint, toName⟩, message⟩
        (net.modify endpoint fun node => { node with router := routed.1 },
          .Took flight :: (routed.2.filterMap Act.delivery).map (.Queued endpoint c))
      | some (.OpenMany fromName toNames request) =>
        let batch := ⟨c, link.remote, fromName, toNames, request, false⟩
        (net.modify endpoint fun node => { node with batches := node.batches ++ [batch] }, [.Took flight])
  | _, _ => (net, [])

/-- The receipt of a batch goes out on the connection that the batch came on, or it does not. -/
def answer (net : Network) (endpoint : EndpointId) (c : ConnId) (written : Written) :
    Network × List Event :=
  match (net.nodes endpoint).batches.find? (Batch.isAt c false) with
  | some batch =>
    let net := net.modify endpoint fun node =>
      { node with
        batches := node.batches.eraseP (Batch.isAt c false) ++ [{ batch with answered := true }] }
    match Postcard.toStdvec (batch.receipt endpoint) with
    | .ok bytes => net.post endpoint c (written.bytes bytes)
    | .error _ => (net, [])
  | none => (net, [])

end

/-- The reader locks the router and fans the batch in. -/
def fan (net : Network) (endpoint : EndpointId) (c : ConnId) : Network × List Event :=
  match (net.nodes endpoint).batches.find? (Batch.isAt c true) with
  | some batch =>
    let routed := (net.nodes endpoint).router.routeAll (batch.deliveries endpoint)
    (net.modify endpoint fun node =>
        { node with router := routed.1, batches := node.batches.eraseP (Batch.isAt c true) },
      (routed.2.filterMap Act.delivery).map (.Queued endpoint c))
  | none => (net, [])

/-! ## Runs -/

inductive Act
  -- The cache, the watchers and the ends of connections, and connections from anybody.
  | Upkeep (endpoint : EndpointId) (act : IrohShared.Act)
  | Bind (endpoint : EndpointId) (address : Address)
  | Receive (endpoint : EndpointId) (name : ActorName)
  | DropInbox (endpoint : EndpointId) (name : ActorName)
  | Send (endpoint : EndpointId) (origin target : Address) (message : Message)
  | OpenMany (endpoint : EndpointId) (origin : Address) (toEndpoint : EndpointId)
    (toNames : List ActorName) (request : Request)
  | Connect (endpoint : EndpointId) (i : Nat) (dialed : Except String Unit)
  | Write (endpoint : EndpointId) (i : Nat) (written : Written)
  | Drop (endpoint : EndpointId) (i : Nat) (sent : Option Nat)
  | Read (endpoint : EndpointId) (c : ConnId)
  | Answer (endpoint : EndpointId) (c : ConnId) (written : Written)
  | Fan (endpoint : EndpointId) (c : ConnId)
  -- A stream is lost with its connection.
  | Lose (i : Nat)
  -- Somebody who does not run the adapter writes a stream to `endpoint`.
  | Inject (endpoint : EndpointId) (c : ConnId) (bytes : List UInt8)

section

variable [Postcard]

def step (net : Network) : Act → Network × List Event
  | .Upkeep endpoint act =>
    (net.modify endpoint fun node => { node with shared := node.shared.act act }, [])
  | .Bind endpoint address =>
    (net.modify endpoint fun node => { node with router := (node.router.bind endpoint address).2 }, [])
  | .Receive endpoint name =>
    let received := (net.nodes endpoint).router.recv name
    (net.modify endpoint fun node => { node with router := received.2 },
      received.1.toList.map (.Received endpoint name))
  | .DropInbox endpoint name =>
    (net.modify endpoint fun node => { node with router := node.router.dropInbox name }, [])
  | .Send endpoint origin target message =>
    (net.send endpoint origin target.endpoint (.Single origin.name target.name message), [])
  | .OpenMany endpoint origin toEndpoint toNames request =>
    (net.send endpoint origin toEndpoint (.OpenMany origin.name toNames request), [])
  | .Connect endpoint i dialed => (net.connect endpoint i dialed, [])
  | .Write endpoint i written => net.write endpoint i written
  | .Drop endpoint i sent => net.drop endpoint i sent
  | .Read endpoint c => net.read endpoint c
  | .Answer endpoint c written => net.answer endpoint c written
  | .Fan endpoint c => net.fan endpoint c
  | .Lose i => ({ net with flights := net.flights.eraseIdx i }, [])
  | .Inject endpoint c bytes =>
    match (net.nodes endpoint).shared.links[c]? with
    | some link =>
      let flight := ⟨link.remote, endpoint, c, bytes⟩
      ({ net with flights := net.flights ++ [flight] }, [.Opened flight])
    | none => (net, [])

def act (net : Network) (a : Act) : Network := (net.step a).1

def after (net : Network) (acts : List Act) : Network := Run.after act net acts

def trace (net : Network) (acts : List Act) : List Event := Run.outputs step net acts

/-- What iroh promises. A stream that was not written to its end is shorter than the frame. A stream is
lost only with its connection. Who does not hold the key of an adapter's endpoint writes nothing on that
endpoint's connections. -/
def Lawful (net : Network) : Act → Prop
  | .Write endpoint i (.Cut (some n) _) | .Drop endpoint i (some n) =>
    ∀ call ∈ (net.nodes endpoint).calls[i]?, ∀ bytes ∈ call.state.streaming, n < bytes.length
  | .Answer endpoint c (.Cut (some n) _) =>
    ∀ batch ∈ (net.nodes endpoint).batches.find? (Batch.isAt c false),
      ∀ bytes ∈ (Postcard.toStdvec (batch.receipt endpoint)).toOption, n < bytes.length
  | .Lose i =>
    ∀ flight ∈ net.flights[i]?,
      ∀ link ∈ (net.nodes flight.target).shared.links[flight.connection]?, link.reason ≠ none
  | .Inject endpoint c _ =>
    ∀ link ∈ (net.nodes endpoint).shared.links[c]?, link.remote ∉ net.adapters
  | _ => True

instance (net : Network) (a : Act) : Decidable (net.Lawful a) := by
  unfold Lawful
  split <;> infer_instance

end

end Network

end Kamiroh.Iroh
