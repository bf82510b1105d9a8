import Kamiroh.Runtime.Basic

/-!
# The Kameo runtime

`Host` and `KameoRuntime` are translated from `kamiroh-adapter-kameo/src/lib.rs`. A handler runs to its
end before the next one starts, and time stands still meanwhile. A timer is a task of its own: it sleeps,
and then it tells its host which deadline elapsed.
-/

namespace Kamiroh

/-- A timer task's report. `ackId` and `epoch` tell a stale one. -/
structure DeadlineElapsed where
  peer : Address
  kind : DeadlineKind
  ackId : Option RequestId
  epoch : UInt64
deriving DecidableEq

/-- A timer task, which is what a join handle refers to. -/
structure Task where
  id : Nat
  due : Instant
  report : DeadlineElapsed
deriving DecidableEq

structure PeerWaits where
  state : TurnState
  ack : Option (RequestId × Task)
  turn : Option Task
  epoch : UInt64
deriving DecidableEq

instance : Inhabited PeerWaits := ⟨⟨.Idle, none, none, 0⟩⟩

/-- The actor that hosts one domain actor. `sleeping` holds the tasks that it spawned and that are
neither aborted nor awake, `spawned` counts them all. -/
structure Host (P : Type) where
  address : Address
  allowlist : Allowlist
  kind : ActorKind
  deadlines : Deadlines
  party : Option (Boxed P)
  conversations : Assoc Address PeerWaits
  sleeping : List Task
  spawned : Nat

structure Entry (P Ib : Type) where
  host : Host P
  inbox : Ib

/-- `aborted` holds the inboxes of aborted pumps that the scheduler did not drop yet. `net` and `clock`
belong to the world outside. -/
structure KameoRuntime (P N Ib : Type) where
  endpoint : EndpointId
  net : N
  clock : Instant
  spawnDeadlines : Deadlines
  observer : Bool
  roster : ActorName → Option (Entry P Ib)
  aborted : List Ib

structure Handled (P N Ib α : Type) where
  result : α
  rt : KameoRuntime P N Ib
  host : Host P
  effects : List Effect

/-! ## One conversation -/

namespace PeerWaits

/-- Settling a wait aborts its task. The tasks to abort come second. -/
def settleAck (waits : PeerWaits) (id : RequestId) : PeerWaits × List Task :=
  match waits.ack with
  | some (due, task) => if due = id then ({ waits with ack := none }, [task]) else (waits, [])
  | none => (waits, [])

def settleAll (waits : PeerWaits) : PeerWaits × List Task :=
  ({ waits with ack := none, turn := none }, (waits.ack.map (·.2)).toList ++ waits.turn.toList)

/-- An exchange that failed. The epoch moves on as well, so that a queued report of an aborted task
stays stale whatever is armed next. -/
def fail (waits : PeerWaits) : PeerWaits × List Task :=
  let settled := { waits with state := waits.state.fail.2 }.settleAll
  ({ settled.1 with epoch := waits.epoch + 1 }, settled.2)

end PeerWaits

/-! ## One host -/

namespace Host

variable {P : Type}

def new (address : Address) (allowlist : Allowlist) (kind : ActorKind) (deadlines : Deadlines)
    (party : Option (Boxed P)) : Host P :=
  ⟨address, allowlist, kind, deadlines, party, ∅, [], 0⟩

/-- The waits of a conversation. A peer without an entry has the default ones. -/
def waits (host : Host P) (peer : Address) : PeerWaits :=
  (host.conversations.lookup peer).getD default

def setWaits (host : Host P) (peer : Address) (waits : PeerWaits) : Host P :=
  { host with conversations := host.conversations.insert peer waits }

def abort (host : Host P) (tasks : List Task) : Host P :=
  { host with sleeping := host.sleeping.filter (· ∉ tasks) }

def spawn (host : Host P) (due : Instant) (report : DeadlineElapsed) : Task × Host P :=
  let task : Task := ⟨host.spawned, due, report⟩
  (task, { host with sleeping := host.sleeping ++ [task], spawned := host.spawned + 1 })

/-- Change a conversation, if there is one, and abort the tasks that it gives up. -/
def update (host : Host P) (peer : Address) (f : PeerWaits → PeerWaits × List Task) : Host P :=
  match host.conversations.lookup peer with
  | some waits => (host.abort (f waits).2).setWaits peer (f waits).1
  | none => host

def settleAck (host : Host P) (peer : Address) (id : RequestId) : Host P :=
  host.update peer fun waits => waits.settleAck id

def settleAll (host : Host P) (peer : Address) (state : TurnState) : Host P :=
  let settled := { host.waits peer with state }.settleAll
  (host.abort settled.2).setWaits peer settled.1

def arm (host : Host P) (peer : Address) (posed : Option RequestId) (progress : TurnProgress)
    (now : Instant) : Host P :=
  let waits := host.waits peer
  let epoch := waits.epoch + 1
  let acked : Option (RequestId × Task) × Host P :=
    match posed with
    | some id =>
      let spawned := host.spawn (now + host.deadlines.ack) ⟨peer, .Ack, some id, epoch⟩
      (some (id, spawned.1), spawned.2)
    | none => (waits.ack, host)
  let turned : Option Task × Host P :=
    match progress with
    | .Continuing =>
      let spawned := acked.2.spawn (now + host.deadlines.turn) ⟨peer, .Turn, none, epoch⟩
      (some spawned.1, spawned.2)
    | .Concluded => (none, acked.2)
  turned.2.setWaits peer ⟨waits.state, acked.1, turned.1, epoch⟩

def affected (host : Host P) (endpoint : EndpointId) : List Address :=
  host.conversations.keysWhere fun peer waits => peer.endpoint = endpoint && waits.state.live

variable [Party P]

def handOver (host : Host P) (peer : Address) (turn : Turn) : Option Turn × Host P × List Effect :=
  match host.party with
  | some party =>
    let taken := Party.onTurn party peer turn
    (taken.2, { host with party := some taken.1 }, [.Handed host.address peer turn])
  | none => (none, host, [])

end Host

/-! ## The runtime -/

namespace KameoRuntime

variable {P N Ib : Type}

def new (endpoint : EndpointId) (net : N) (clock : Instant) (spawnDeadlines : Deadlines) :
    KameoRuntime P N Ib :=
  ⟨endpoint, net, clock, spawnDeadlines, false, fun _ => none, []⟩

def setObserver (rt : KameoRuntime P N Ib) : KameoRuntime P N Ib := { rt with observer := true }

def address (rt : KameoRuntime P N Ib) (name : ActorName) : Address := ⟨rt.endpoint, name⟩

def emit (rt : KameoRuntime P N Ib) (event : Event) : List Effect :=
  if rt.observer then [.Emitted event] else []

def setEntry (rt : KameoRuntime P N Ib) (name : ActorName) (entry : Entry P Ib) :
    KameoRuntime P N Ib :=
  { rt with roster := Function.update rt.roster name (some entry) }

@[simp] theorem setEntry_self (rt : KameoRuntime P N Ib) (name : ActorName) (entry : Entry P Ib) :
    (rt.setEntry name entry).roster name = some entry := Function.update_self ..

section

variable [Registry N Ib]

def installInner (rt : KameoRuntime P N Ib) (name : ActorName) (allowlist : Allowlist)
    (deadlines : Deadlines) (kind : ActorKind) (party : Option (Boxed P)) :
    Except RuntimeError Unit × KameoRuntime P N Ib :=
  if (rt.roster name).isSome then (.error .NameInUse, rt)
  else
    match Registry.bind rt.net (rt.address name) with
    | (.error text, net) => (.error (.Bind text), { rt with net })
    | (.ok inbox, net) =>
      (.ok (),
        { rt with net }.setEntry name
          ⟨.new (rt.address name) allowlist kind deadlines party, inbox⟩)

def install (rt : KameoRuntime P N Ib) (name : ActorName) (allowlist : Allowlist)
    (deadlines : Deadlines) (kind : ActorKind) : Except RuntimeError Unit × KameoRuntime P N Ib :=
  rt.installInner name allowlist deadlines kind none

def installParty (rt : KameoRuntime P N Ib) (name : ActorName) (allowlist : Allowlist)
    (deadlines : Deadlines) (party : Boxed P) : Except RuntimeError Unit × KameoRuntime P N Ib :=
  rt.installInner name allowlist deadlines .Plain (some party)

/-- Take the actor off the roster. Its pump is aborted, which drops the inbox at some later point. -/
def stop (rt : KameoRuntime P N Ib) (name : ActorName) :
    Except RuntimeError Unit × KameoRuntime P N Ib :=
  match rt.roster name with
  | some entry =>
    (.ok (),
      { rt with
        roster := Function.update rt.roster name none
        aborted := rt.aborted ++ [entry.inbox] })
  | none => (.error .UnknownActor, rt)

/-- Execute a harness command. Reply kinds are ignored. -/
def execute (rt : KameoRuntime P N Ib) (command : Harness) (controller : Address) :
    Option Message × KameoRuntime P N Ib :=
  match command with
  | .Ping => (some (.Harness .Pong), rt)
  | .Spawn name =>
    let allowlist := Allowlist.empty.admitEndpoint controller.endpoint
    let spawned := rt.installParty name allowlist rt.spawnDeadlines (.echo .new)
    match spawned.1 with
    | .ok () => (some (.Harness (.Spawned name)), spawned.2)
    | .error error => (some (.Harness (.Failed error.display)), spawned.2)
  | .Stop name =>
    let stopped := rt.stop name
    match stopped.1 with
    | .ok () => (some (.Harness (.Stopped name)), stopped.2)
    | .error _ => (some (.Harness (.Failed "no such actor")), stopped.2)
  | .Spawned _ | .Stopped _ | .Pong | .Failed _ => (none, rt)

end

section

variable [Transport N]

def send (rt : KameoRuntime P N Ib) (origin target : Address) (message : Message) :
    Bool × KameoRuntime P N Ib × List Effect :=
  match Transport.send rt.net origin target message with
  | (.ok (), net) => (true, { rt with net }, [.Sent origin target message true])
  | (.error _, net) => (false, { rt with net }, [.Sent origin target message false])

def sendIgnored (rt : KameoRuntime P N Ib) (host : Host P) (target : Address) :
    Option Message → Handled P N Ib Unit
  | some message =>
    let sent := rt.send host.address target message
    ⟨(), sent.2.1, host, sent.2.2⟩
  | none => ⟨(), rt, host, []⟩

end

section

variable [Party P]

/-- The machine moves to `Failed`, its tasks are aborted, the party and the observer are told. -/
def failExchange (rt : KameoRuntime P N Ib) (host : Host P) (peer : Address) (cause : FailureCause) :
    Host P × List Effect :=
  let moved : List Effect :=
    match host.conversations.lookup peer with
    | some waits => [.Failed host.address peer waits.state cause]
    | none => []
  let failed := host.update peer PeerWaits.fail
  let emitted := rt.emit (.ExchangeFailed host.address peer cause)
  match failed.party with
  | some party =>
    ({ failed with party := some (Party.onExchangeFailed party peer cause) },
      moved ++ [.Told host.address peer cause] ++ emitted)
  | none => (failed, moved ++ emitted)

def failEach (rt : KameoRuntime P N Ib) (host : Host P) (cause : FailureCause) :
    List Address → Host P × List Effect
  | [] => (host, [])
  | peer :: peers =>
    let failed := rt.failExchange host peer cause
    let rest := rt.failEach failed.1 cause peers
    (rest.1, failed.2 ++ rest.2)

/-! ### The handlers -/

def onAdmit (rt : KameoRuntime P N Ib) (host : Host P) (endpoint : EndpointId) :
    Handled P N Ib Unit :=
  ⟨(), rt, { host with allowlist := host.allowlist.admitEndpoint endpoint }, []⟩

/-- How many live exchanges the revocation failed. -/
def onRevoke (rt : KameoRuntime P N Ib) (host : Host P) (endpoint : EndpointId) :
    Handled P N Ib Nat :=
  let host := { host with allowlist := host.allowlist.revoke endpoint }
  let affected := host.affected endpoint
  let failed := rt.failEach host .Revoked affected
  ⟨affected.length, rt, failed.1, failed.2⟩

def onPeerDied (rt : KameoRuntime P N Ib) (host : Host P) (endpoint : EndpointId) :
    Handled P N Ib Unit :=
  let failed := rt.failEach host .Disconnected (host.affected endpoint)
  ⟨(), rt, failed.1, failed.2⟩

def stillPending (waits : PeerWaits) (report : DeadlineElapsed) : Bool :=
  report.epoch = waits.epoch &&
    match report.kind, report.ackId with
    | .Ack, some id => waits.ack.any fun ack => ack.1 = id
    | .Turn, _ => waits.turn.isSome
    | .Ack, none => false

def onDeadlineElapsed (rt : KameoRuntime P N Ib) (host : Host P) (report : DeadlineElapsed) :
    Handled P N Ib Unit :=
  match host.conversations.lookup report.peer with
  | some waits =>
    if stillPending waits report then
      let failed := rt.failExchange host report.peer (.DeadlineElapsed report.kind)
      ⟨(), rt, failed.1, failed.2⟩
    else ⟨(), rt, host, []⟩
  | none => ⟨(), rt, host, []⟩

variable [Transport N]

def answer (rt : KameoRuntime P N Ib) (host : Host P) (peer : Address) (reply : Turn) :
    Handled P N Ib Unit :=
  let waits := host.waits peer
  let replied := waits.state.onOutgoing reply
  let moved := Effect.Moved host.address peer waits.state replied.2
  let host := host.setWaits peer { waits with state := replied.2 }
  match replied.1 with
  | .error _ =>
    let failed := rt.failExchange host peer .IllegalReply
    ⟨(), rt, failed.1, moved :: failed.2⟩
  | .ok progress =>
    let sent := rt.send host.address peer (.Turn reply)
    if sent.1 then ⟨(), sent.2.1, host.arm peer reply.posed progress rt.clock, moved :: sent.2.2⟩
    else
      let failed := sent.2.1.failExchange host peer .SendFailed
      ⟨(), sent.2.1, failed.1, moved :: sent.2.2 ++ failed.2⟩

def takeTurn (rt : KameoRuntime P N Ib) (host : Host P) (peer : Address) (turn : Turn)
    (ack : Option Message) : Handled P N Ib Unit :=
  let waits := host.waits peer
  let heard := waits.state.onIncoming turn
  let moved := Effect.Moved host.address peer waits.state heard.2
  match heard.1 with
  | .error error =>
    ⟨(), rt, host.setWaits peer { waits with state := heard.2 },
      moved :: rt.emit (.IllegalTurnDropped peer host.address error)⟩
  | .ok _ =>
    let acked := rt.sendIgnored (host.settleAll peer heard.2) peer ack
    let handed := acked.host.handOver peer turn
    match handed.1 with
    | none => ⟨(), acked.rt, handed.2.1, moved :: acked.effects ++ handed.2.2⟩
    | some reply =>
      let answered := acked.rt.answer handed.2.1 peer reply
      { answered with effects := moved :: acked.effects ++ handed.2.2 ++ answered.effects }

variable [Registry N Ib]

def onDeliver (rt : KameoRuntime P N Ib) (host : Host P) (delivery : Delivery) :
    Handled P N Ib Unit :=
  match process host.allowlist delivery with
  | .Denied => ⟨(), rt, host, rt.emit (.DeliveryDenied delivery.origin host.address)⟩
  | .Request _ _ replyTo ack => rt.sendIgnored host replyTo (some ack)
  | .AckReceived ack => ⟨(), rt, host.settleAck delivery.origin ack.id, []⟩
  | .Harness harness replyTo =>
    if host.kind ≠ .Harness then
      rt.sendIgnored host replyTo (some (.Harness (.Failed "not a harness actor")))
    else
      let executed := rt.execute harness replyTo
      executed.2.sendIgnored host replyTo executed.1
  | .Turn turn _ replyTo ack => rt.takeTurn host replyTo turn ack

end

end KameoRuntime

/-! ## Serial runs -/

/-- What can happen to a hosted actor when each thing waits for the one before it. `Elapse` is a timer
task that wakes. `Rehash` is a new iteration order of the conversations, and `Elsewhere` is whatever
others do to the network while time passes. -/
inductive Signal (N : Type)
  | Deliver (delivery : Delivery)
  | Admit (endpoint : EndpointId)
  | Revoke (endpoint : EndpointId)
  | PeerDied (endpoint : EndpointId)
  | Elapse (task : Task)
  | Rehash (conversations : Assoc Address PeerWaits)
  | Elsewhere (net : N → N) (clock : Instant)

def Host.Earliest {P : Type} (host : Host P) (task : Task) : Prop :=
  task ∈ host.sleeping ∧ ∀ other ∈ host.sleeping, task.due ≤ other.due

instance {P : Type} (host : Host P) (task : Task) : Decidable (host.Earliest task) :=
  inferInstanceAs (Decidable (_ ∧ _))

namespace KameoRuntime

variable {P N Ib : Type}

/-- A host that is still on the roster goes back there when its handler is done. -/
def setHost (rt : KameoRuntime P N Ib) (name : ActorName) (host : Host P) : KameoRuntime P N Ib :=
  match rt.roster name with
  | some entry => rt.setEntry name { entry with host }
  | none => rt

def tell {α : Type} (rt : KameoRuntime P N Ib) (name : ActorName)
    (handler : Host P → Handled P N Ib α) : KameoRuntime P N Ib × List Effect :=
  match rt.roster name with
  | some entry =>
    let handled := handler entry.host
    (handled.rt.setHost name handled.host, handled.effects)
  | none => (rt, [])

def onRehash (rt : KameoRuntime P N Ib) (host : Host P) (conversations : Assoc Address PeerWaits) :
    Handled P N Ib Unit :=
  if conversations.entries.Perm host.conversations.entries then
    ⟨(), rt, { host with conversations }, []⟩
  else ⟨(), rt, host, []⟩

variable [Party P]

/-- The earliest task wakes, and its report is handled. -/
def onWake (rt : KameoRuntime P N Ib) (host : Host P) (task : Task) : Handled P N Ib Unit :=
  if host.Earliest task then rt.onDeadlineElapsed (host.abort [task]) task.report
  else ⟨(), rt, host, []⟩

variable [Transport N] [Registry N Ib]

def exec (rt : KameoRuntime P N Ib) (name : ActorName) :
    Signal N → KameoRuntime P N Ib × List Effect
  | .Deliver delivery => rt.tell name fun host => rt.onDeliver host delivery
  | .Admit endpoint => rt.tell name fun host => rt.onAdmit host endpoint
  | .Revoke endpoint => rt.tell name fun host => rt.onRevoke host endpoint
  | .PeerDied endpoint => rt.tell name fun host => rt.onPeerDied host endpoint
  | .Elapse task => rt.tell name fun host => rt.onWake host task
  | .Rehash conversations => rt.tell name fun host => rt.onRehash host conversations
  | .Elsewhere net clock => ({ rt with net := net rt.net, clock }, [])

def next (rt : KameoRuntime P N Ib) (name : ActorName) (signal : Signal N) : KameoRuntime P N Ib :=
  (rt.exec name signal).1

def after (rt : KameoRuntime P N Ib) (name : ActorName) (signals : List (Signal N)) :
    KameoRuntime P N Ib :=
  Run.after (fun rt signal => rt.next name signal) rt signals

def effects (rt : KameoRuntime P N Ib) (name : ActorName) (signals : List (Signal N)) : List Effect :=
  Run.outputs (fun rt signal => rt.exec name signal) rt signals

end KameoRuntime

end Kamiroh
