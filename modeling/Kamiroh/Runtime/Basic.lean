import Kamiroh.Inbound
import Kamiroh.Memory
import Kamiroh.Parties
import Kamiroh.Run
import Kamiroh.Wait

/-!
# The toy runtime of one endpoint

`LocalRuntime` is translated method by method from `kamiroh-app/src/runtime.rs`. A method returns its
result, the runtime that it leaves behind and its effects in order. The iteration order of a hash map
is the order of the entries here, see `Call.Rehash`.
-/

namespace Kamiroh

inductive ActorKind
  | Harness
  | Plain
deriving DecidableEq

structure PeerState where
  state : TurnState
  ackDue : Option (RequestId × Instant)
  turnDue : Option Instant
deriving DecidableEq

instance : Inhabited PeerState := ⟨⟨.Idle, none, none⟩⟩

structure LocalActor (P Ib : Type) where
  inbox : Ib
  allowlist : Allowlist
  kind : ActorKind
  deadlines : Deadlines
  party : Option (Boxed P)
  conversations : Assoc Address PeerState

inductive Stepped
  | Delivered
  | ExchangeFailed (peer : Address) (cause : FailureCause)
  | PeerVanished (endpoint : EndpointId) (exchangesFailed : Nat)
deriving DecidableEq

inductive RuntimeError
  | UnknownActor
  | NameInUse
  | InboxClosed
  | Bind (text : String)
  | Transport (text : String)
deriving DecidableEq

def RuntimeError.display : RuntimeError → String
  | UnknownActor => "no such actor in this runtime"
  | NameInUse => "an actor with this name is already installed"
  | InboxClosed => "the actor's inbox is closed"
  | Bind text => "binding failed: " ++ text
  | Transport text => "transport failed: " ++ text

/-- What a method does to the world outside, in order. `Moved` and `Failed` are there for the proofs
only: they record the calls on the turn machines, `Failed` those of `fail` with what it was for. -/
inductive Effect
  | Sent (origin target : Address) (message : Message) (accepted : Bool)
  | Handed (here peer : Address) (turn : Turn)
  | Told (here peer : Address) (cause : FailureCause)
  | Emitted (event : Event)
  | Moved (here peer : Address) (before after : TurnState)
  | Failed (here peer : Address) (before : TurnState) (cause : FailureCause)
deriving DecidableEq

/-- `observer` tells whether one is set. `dead` holds the endpoints that were reported dead and not
heard from since. `net` and `clock` belong to the world outside. -/
structure LocalRuntime (P N Ib : Type) where
  endpoint : EndpointId
  net : N
  clock : Instant
  spawnDeadlines : Deadlines
  observer : Bool
  deathWatch : Option WatchId
  dead : Finset EndpointId
  actors : ActorName → Option (LocalActor P Ib)

/-- What a method returns, the runtime after it, and its effects. -/
structure Ran (P N Ib α : Type) where
  result : α
  rt : LocalRuntime P N Ib
  effects : List Effect

/-- A step that returns, or one that panics. -/
inductive Outcome
  | Returned (result : Except RuntimeError Stepped)
  | Panicked (message : String)
deriving DecidableEq

/-! ## One conversation -/

namespace PeerState

def fail (ps : PeerState) : PeerState := ⟨ps.state.fail.2, none, none⟩

def settleAck (ps : PeerState) (id : RequestId) : PeerState :=
  match ps.ackDue with
  | some (due, _) => if due = id then { ps with ackDue := none } else ps
  | none => ps

/-- The waits that a reply creates: the ack of its request half, and the peer's next turn. -/
def armed (state : TurnState) (reply : Turn) (progress : TurnProgress) (now : Instant)
    (deadlines : Deadlines) : PeerState where
  state := state
  ackDue := reply.request.map fun request => (request.id, now + deadlines.ack)
  turnDue :=
    match progress with
    | .Continuing => some (now + deadlines.turn)
    | .Concluded => none

def waits (peer : Address) (ps : PeerState) : List (Address × DeadlineKind × Instant) :=
  (ps.ackDue.map fun due => (peer, DeadlineKind.Ack, due.2)).toList ++
    (ps.turnDue.map fun due => (peer, DeadlineKind.Turn, due)).toList

end PeerState

/-! ## One actor -/

namespace LocalActor

variable {P Ib : Type}

/-- The state of a conversation. A peer without an entry has the default one. -/
def peer (actor : LocalActor P Ib) (peer : Address) : PeerState :=
  (actor.conversations.lookup peer).getD default

def setPeer (actor : LocalActor P Ib) (peer : Address) (ps : PeerState) : LocalActor P Ib :=
  { actor with conversations := actor.conversations.insert peer ps }

def affected (actor : LocalActor P Ib) (endpoints : EndpointId → Bool) : List Address :=
  actor.conversations.keysWhere fun peer ps => ps.state.live && endpoints peer.endpoint

/-- The earlier of two waits, the first one on a tie. -/
def earlier (best : Option (Address × DeadlineKind × Instant))
    (wait : Address × DeadlineKind × Instant) : Option (Address × DeadlineKind × Instant) :=
  match best with
  | some best => if wait.2.2 < best.2.2 then some wait else some best
  | none => some wait

def earliestDue (actor : LocalActor P Ib) : Option (Address × DeadlineKind × Instant) :=
  (actor.conversations.entries.flatMap fun e => e.2.waits e.1).foldl earlier none

variable [Party P]

def handOver (here : Address) (actor : LocalActor P Ib) (peer : Address) (turn : Turn) :
    Option Turn × LocalActor P Ib × List Effect :=
  match actor.party with
  | some party =>
    let taken := Party.onTurn party peer turn
    (taken.2, { actor with party := some taken.1 }, [.Handed here peer turn])
  | none => (none, actor, [])

def failExchange (here : Address) (actor : LocalActor P Ib) (peer : Address) (cause : FailureCause) :
    LocalActor P Ib × List Effect :=
  let moved : List Effect :=
    match actor.conversations.lookup peer with
    | some ps => [.Failed here peer ps.state cause]
    | none => []
  let actor := { actor with conversations := actor.conversations.modify peer PeerState.fail }
  match actor.party with
  | some party =>
    ({ actor with party := some (Party.onExchangeFailed party peer cause) },
      moved ++ [.Told here peer cause])
  | none => (actor, moved)

end LocalActor

/-! ## The runtime -/

namespace LocalRuntime

variable {P N Ib : Type}

def new (endpoint : EndpointId) (net : N) (clock : Instant) (spawnDeadlines : Deadlines) :
    LocalRuntime P N Ib :=
  ⟨endpoint, net, clock, spawnDeadlines, false, none, ∅, fun _ => none⟩

def setObserver (rt : LocalRuntime P N Ib) : LocalRuntime P N Ib := { rt with observer := true }

def watchDeaths (rt : LocalRuntime P N Ib) (watch : WatchId) : LocalRuntime P N Ib :=
  { rt with deathWatch := some watch }

def address (rt : LocalRuntime P N Ib) (name : ActorName) : Address := ⟨rt.endpoint, name⟩

def setActor (rt : LocalRuntime P N Ib) (name : ActorName) (actor : LocalActor P Ib) :
    LocalRuntime P N Ib :=
  { rt with actors := Function.update rt.actors name (some actor) }

def emit (rt : LocalRuntime P N Ib) (event : Event) : List Effect :=
  if rt.observer then [.Emitted event] else []

/-- `admit` in the source. -/
def admitEndpoint (rt : LocalRuntime P N Ib) (name : ActorName) (endpoint : EndpointId) :
    Ran P N Ib (Except RuntimeError Unit) :=
  match rt.actors name with
  | some actor =>
    ⟨.ok (), rt.setActor name { actor with allowlist := actor.allowlist.admitEndpoint endpoint }, []⟩
  | none => ⟨.error .UnknownActor, rt, []⟩

section

variable [Registry N Ib]

def installInner (rt : LocalRuntime P N Ib) (name : ActorName) (allowlist : Allowlist)
    (deadlines : Deadlines) (kind : ActorKind) (party : Option (Boxed P)) :
    Ran P N Ib (Except RuntimeError Unit) :=
  if (rt.actors name).isSome then ⟨.error .NameInUse, rt, []⟩
  else
    match Registry.bind rt.net (rt.address name) with
    | (.error text, net) => ⟨.error (.Bind text), { rt with net }, []⟩
    | (.ok inbox, net) =>
      ⟨.ok (), { rt with net }.setActor name ⟨inbox, allowlist, kind, deadlines, party, ∅⟩, []⟩

def install (rt : LocalRuntime P N Ib) (name : ActorName) (allowlist : Allowlist)
    (deadlines : Deadlines) (kind : ActorKind) : Ran P N Ib (Except RuntimeError Unit) :=
  rt.installInner name allowlist deadlines kind none

def installParty (rt : LocalRuntime P N Ib) (name : ActorName) (allowlist : Allowlist)
    (deadlines : Deadlines) (party : Boxed P) : Ran P N Ib (Except RuntimeError Unit) :=
  rt.installInner name allowlist deadlines .Plain (some party)

/-- Execute a harness command. Reply kinds are ignored. -/
def execute (rt : LocalRuntime P N Ib) (command : Harness) (controller : Address) :
    Ran P N Ib (Option Message) :=
  match command with
  | .Ping => ⟨some (.Harness .Pong), rt, []⟩
  | .Spawn name =>
    let allowlist := Allowlist.empty.admitEndpoint controller.endpoint
    let spawned := rt.installParty name allowlist rt.spawnDeadlines (.echo .new)
    match spawned.result with
    | .ok () => ⟨some (.Harness (.Spawned name)), spawned.rt, []⟩
    | .error error => ⟨some (.Harness (.Failed error.display)), spawned.rt, []⟩
  | .Stop name =>
    match rt.actors name with
    | some actor =>
      -- Dropping the actor drops its inbox, which unbinds the address.
      ⟨some (.Harness (.Stopped name)),
        { rt with
          actors := Function.update rt.actors name none
          net := Registry.dropInbox rt.net actor.inbox }, []⟩
    | none => ⟨some (.Harness (.Failed "no such actor")), rt, []⟩
  | .Spawned _ | .Stopped _ | .Pong | .Failed _ => ⟨none, rt, []⟩

end

section

variable [Transport N]

def send (rt : LocalRuntime P N Ib) (origin target : Address) (message : Message) :
    Ran P N Ib (Except RuntimeError Unit) :=
  match Transport.send rt.net origin target message with
  | (.ok (), net) => ⟨.ok (), { rt with net }, [.Sent origin target message true]⟩
  | (.error text, net) =>
    ⟨.error (.Transport text), { rt with net }, [.Sent origin target message false]⟩

/-- The receipt of a handed over turn. Whether the transport takes it is ignored on purpose. -/
def receipt (rt : LocalRuntime P N Ib) (self peer : Address) (ack : Option Message) :
    Ran P N Ib Unit :=
  match ack with
  | some ack =>
    let sent := rt.send self peer ack
    ⟨(), sent.rt, sent.effects⟩
  | none => ⟨(), rt, []⟩

/-- `send`, with `?` behind it and nothing left to do but to return. -/
def sendAndReturn (rt : LocalRuntime P N Ib) (origin target : Address) (message : Message) :
    Ran P N Ib Outcome :=
  let sent := rt.send origin target message
  ⟨.Returned (sent.result.map fun _ => .Delivered), sent.rt, sent.effects⟩

end

section

variable [Party P]

/-- Fail one conversation's exchange, and be loud about it. The actor is `rt`'s actor `name`, with the
changes that the caller made to it before. -/
def failExchange (rt : LocalRuntime P N Ib) (name : ActorName) (actor : LocalActor P Ib)
    (peer : Address) (cause : FailureCause) : Ran P N Ib Stepped :=
  let failed := actor.failExchange (rt.address name) peer cause
  ⟨.ExchangeFailed peer cause, rt.setActor name failed.1,
    failed.2 ++ rt.emit (.ExchangeFailed (rt.address name) peer cause)⟩

def failEach (rt : LocalRuntime P N Ib) (name : ActorName) (actor : LocalActor P Ib)
    (cause : FailureCause) : List Address → LocalActor P Ib × List Effect
  | [] => (actor, [])
  | peer :: peers =>
    let failed := actor.failExchange (rt.address name) peer cause
    let rest := rt.failEach name failed.1 cause peers
    (rest.1,
      failed.2 ++ rt.emit (.ExchangeFailed (rt.address name) peer cause) ++ rest.2)

def revoke (rt : LocalRuntime P N Ib) (name : ActorName) (endpoint : EndpointId) :
    Ran P N Ib (Except RuntimeError Nat) :=
  match rt.actors name with
  | some actor =>
    let actor := { actor with allowlist := actor.allowlist.revoke endpoint }
    let affected := actor.affected (· = endpoint)
    let failed := rt.failEach name actor .Revoked affected
    ⟨.ok affected.length, rt.setActor name failed.1, failed.2⟩
  | none => ⟨.error .UnknownActor, rt, []⟩

def sweepDead (rt : LocalRuntime P N Ib) (name : ActorName) (actor : LocalActor P Ib) :
    Ran P N Ib (Option Stepped) :=
  let affected := actor.affected (· ∈ rt.dead)
  match affected with
  | [] => ⟨none, rt, []⟩
  | first :: _ =>
    let peers := affected.filter fun peer => peer.endpoint = first.endpoint
    let failed := rt.failEach name actor .Disconnected peers
    ⟨some (.PeerVanished first.endpoint peers.length), rt.setActor name failed.1, failed.2⟩

variable [Transport N]

def answer (rt : LocalRuntime P N Ib) (name : ActorName) (actor : LocalActor P Ib)
    (self peer : Address) (reply : Turn) : Ran P N Ib Stepped :=
  let here := rt.address name
  let ps := actor.peer peer
  let replied := ps.state.onOutgoing reply
  let moved := Effect.Moved here peer ps.state replied.2
  match replied.1 with
  | .error _ =>
    let failed := rt.failExchange name (actor.setPeer peer { ps with state := replied.2 }) peer .IllegalReply
    { failed with effects := moved :: failed.effects }
  | .ok progress =>
    let actor := actor.setPeer peer (.armed replied.2 reply progress rt.clock actor.deadlines)
    let sent := rt.send self peer (.Turn reply)
    match sent.result with
    | .ok () => ⟨.Delivered, sent.rt.setActor name actor, moved :: sent.effects⟩
    | .error _ =>
      let failed := sent.rt.failExchange name actor peer .SendFailed
      { failed with effects := moved :: sent.effects ++ failed.effects }

def takeTurn (rt : LocalRuntime P N Ib) (name : ActorName) (actor : LocalActor P Ib)
    (self peer : Address) (turn : Turn) (ack : Option Message) : Ran P N Ib Stepped :=
  let here := rt.address name
  let ps := actor.peer peer
  let heard := ps.state.onIncoming turn
  let moved := Effect.Moved here peer ps.state heard.2
  match heard.1 with
  | .error error =>
    ⟨.Delivered, rt.setActor name (actor.setPeer peer { ps with state := heard.2 }),
      moved :: rt.emit (.IllegalTurnDropped peer self error)⟩
  | .ok _ =>
    let actor := actor.setPeer peer ⟨heard.2, none, none⟩
    let acked := rt.receipt self peer ack
    let handed := actor.handOver here peer turn
    match handed.1 with
    | none => ⟨.Delivered, acked.rt.setActor name handed.2.1, moved :: acked.effects ++ handed.2.2⟩
    | some reply =>
      let answered := acked.rt.answer name handed.2.1 self peer reply
      { answered with effects := moved :: acked.effects ++ handed.2.2 ++ answered.effects }

variable [Registry N Ib]

/-- Act on a delivery that was taken from the inbox of the actor `name`. -/
def deliver (rt : LocalRuntime P N Ib) (name : ActorName) (actor : LocalActor P Ib)
    (delivery : Delivery) : Ran P N Ib Outcome :=
  -- Hearing from an endpoint proves it alive: its tombstone goes.
  let rt := { rt with dead := rt.dead.erase delivery.origin.endpoint }
  match process actor.allowlist delivery with
  | .Denied =>
    ⟨.Returned (.ok .Delivered), rt, rt.emit (.DeliveryDenied delivery.origin delivery.target)⟩
  | .Request _ _ replyTo ack => rt.sendAndReturn delivery.target replyTo ack
  | .AckReceived ack =>
    let conversations := actor.conversations.modify delivery.origin fun ps => ps.settleAck ack.id
    ⟨.Returned (.ok .Delivered), rt.setActor name { actor with conversations }, []⟩
  | .Harness harness replyTo =>
    if actor.kind ≠ .Harness then
      rt.sendAndReturn delivery.target replyTo (.Harness (.Failed "not a harness actor"))
    else
      let executed := rt.execute harness replyTo
      match executed.result with
      | some reply => executed.rt.sendAndReturn delivery.target replyTo reply
      | none => ⟨.Returned (.ok .Delivered), executed.rt, []⟩
  | .Turn turn _ replyTo ack =>
    let taken := rt.takeTurn name actor delivery.target replyTo turn ack
    { taken with result := .Returned (.ok taken.result) }

/-- One step of the actor `name`. `waited` is what the race produced, if it comes to the race. -/
def step (rt : LocalRuntime P N Ib) (name : ActorName) (waited : Waited) : Ran P N Ib Outcome :=
  match rt.actors name with
  | none => ⟨.Returned (.error .UnknownActor), rt, []⟩
  | some actor =>
    let swept := rt.sweepDead name actor
    match swept.result with
    | some stepped => { swept with result := .Returned (.ok stepped) }
    | none =>
      match waited with
      | .PeerDeath endpoint =>
        let rt := { rt with dead := insert endpoint rt.dead }
        let swept := rt.sweepDead name actor
        { swept with result := .Returned (.ok (swept.result.getD (.PeerVanished endpoint 0))) }
      | .DeadlineElapsed =>
        match actor.earliestDue with
        | some (peer, kind, _) =>
          let failed := rt.failExchange name actor peer (.DeadlineElapsed kind)
          { failed with result := .Returned (.ok failed.result) }
        | none => ⟨.Panicked "deadline cannot elapse unarmed", rt, []⟩
      | .Delivery none => ⟨.Returned (.error .InboxClosed), rt, []⟩
      | .Delivery (some delivery) => rt.deliver name actor delivery

/-- One poll of `step`: a sweep needs no race, and a race that is pending leaves everything to the
next poll. -/
def poll [Inbox N Ib] [DeathWatch N] (rt : LocalRuntime P N Ib) (name : ActorName)
    (waker : Waker) : Poll Outcome × LocalRuntime P N Ib × List Effect :=
  match rt.actors name with
  | none => (.Ready (.Returned (.error .UnknownActor)), rt, [])
  | some actor =>
    let swept := rt.sweepDead name actor
    match swept.result with
    | some stepped => (.Ready (.Returned (.ok stepped)), swept.rt, swept.effects)
    | none =>
      let due := actor.earliestDue.map (·.2.2)
      match nextOrDeadlineOrDeath rt.net actor.inbox due rt.clock rt.deathWatch waker with
      | (.Pending, net, _) => (.Pending, { rt with net }, [])
      | (.Ready waited, net, _) =>
        let stepped := { rt with net }.step name waited
        (.Ready stepped.result, stepped.rt, stepped.effects)

/-! ## Runs -/

end

end LocalRuntime

/-- What can happen to a runtime. `Rehash` is a new iteration order of one actor's conversations,
and `Elsewhere` is whatever others do to the network while time passes. -/
inductive Call (P N : Type)
  | Install (name : ActorName) (allowlist : Allowlist) (deadlines : Deadlines) (kind : ActorKind)
  | InstallParty (name : ActorName) (allowlist : Allowlist) (deadlines : Deadlines)
      (party : Boxed P)
  | Admit (name : ActorName) (endpoint : EndpointId)
  | Revoke (name : ActorName) (endpoint : EndpointId)
  | Step (name : ActorName) (waited : Waited)
  | Rehash (name : ActorName) (conversations : Assoc Address PeerState)
  | Elsewhere (net : N → N) (clock : Instant)

def Call.name {P N : Type} : Call P N → Option ActorName
  | Install name .. | InstallParty name .. | Admit name _ | Revoke name _ | Step name _ |
    Rehash name _ => some name
  | Elsewhere .. => none

namespace LocalRuntime

variable {P N Ib : Type} [Party P] [Transport N] [Registry N Ib]

/-- The entries of the conversations of `name` in another order. -/
def rehash (rt : LocalRuntime P N Ib) (name : ActorName) (conversations : Assoc Address PeerState) :
    LocalRuntime P N Ib :=
  match rt.actors name with
  | some actor =>
    if conversations.entries.Perm actor.conversations.entries then
      rt.setActor name { actor with conversations }
    else rt
  | none => rt

def exec (rt : LocalRuntime P N Ib) : Call P N → LocalRuntime P N Ib × List Effect
  | .Install name allowlist deadlines kind =>
    let ran := rt.install name allowlist deadlines kind
    (ran.rt, ran.effects)
  | .InstallParty name allowlist deadlines party =>
    let ran := rt.installParty name allowlist deadlines party
    (ran.rt, ran.effects)
  | .Admit name endpoint => ((rt.admitEndpoint name endpoint).rt, (rt.admitEndpoint name endpoint).effects)
  | .Revoke name endpoint => ((rt.revoke name endpoint).rt, (rt.revoke name endpoint).effects)
  | .Step name waited => ((rt.step name waited).rt, (rt.step name waited).effects)
  | .Rehash name conversations => (rt.rehash name conversations, [])
  | .Elsewhere net clock => ({ rt with net := net rt.net, clock }, [])

def next (rt : LocalRuntime P N Ib) (call : Call P N) : LocalRuntime P N Ib := (rt.exec call).1

def after (rt : LocalRuntime P N Ib) (calls : List (Call P N)) : LocalRuntime P N Ib :=
  Run.after next rt calls

def effects (rt : LocalRuntime P N Ib) (calls : List (Call P N)) : List Effect :=
  Run.outputs exec rt calls

structure Fresh (rt : LocalRuntime P N Ib) : Prop where
  actors : ∀ name, rt.actors name = none
  dead : rt.dead = ∅

omit [Party P] [Transport N] [Registry N Ib] in
theorem fresh_new (endpoint : EndpointId) (net : N) (clock : Instant) (spawnDeadlines : Deadlines) :
    (new endpoint net clock spawnDeadlines : LocalRuntime P N Ib).Fresh := ⟨fun _ => rfl, rfl⟩

end LocalRuntime

namespace Sample

def bobsRuntime (P : Type) : LocalRuntime P Shared MemoryInbox :=
  (LocalRuntime.new bob.endpoint .new 0 patience).setObserver

theorem bobsRuntime_fresh (P : Type) : (bobsRuntime P).Fresh := ⟨fun _ => rfl, rfl⟩

def opened (actor peer : Address) (n : UInt8) : Waited :=
  .Delivery (some ⟨peer, actor, .Turn (.Open (request n))⟩)

end Sample

end Kamiroh
