import Kamiroh.Memory
import Kamiroh.Run

/-!
# The phone

`Phone` is translated method by method from `kamiroh-app/src/phone.rs`. The transport and the timer of
a phone belong to the world outside: a method that sends takes the network, and the clock that it
reads after the send.
-/

namespace Kamiroh

open TurnState

structure Phone where
  selfAddress : Address
  peer : Address
  deadlines : Deadlines
  state : TurnState
  ackDue : Option (RequestId × Instant)
  turnDue : Option Instant
deriving DecidableEq

inductive PhoneError
  | Turn (error : TurnError)
  | Transport (text : String)
deriving DecidableEq

namespace Phone

variable {N : Type}

/-- Nothing crosses the wire here. -/
def converse (selfAddress peer : Address) (deadlines : Deadlines) : Phone :=
  ⟨selfAddress, peer, deadlines, .Idle, none, none⟩

def sendTurn [Transport N] (phone : Phone) (net : N) (now : Instant) (turn : Turn) :
    Except PhoneError TurnProgress × Phone × N :=
  let stepped := phone.state.onOutgoing turn
  match stepped.1 with
  | .error error => (.error (.Turn error), { phone with state := stepped.2 }, net)
  | .ok progress =>
    match Transport.send net phone.selfAddress phone.peer (.Turn turn) with
    | (.error text, net) =>
      (.error (.Transport text),
        { phone with state := stepped.2.fail.2, ackDue := none, turnDue := none }, net)
    | (.ok (), net) =>
      (.ok progress,
        { phone with
          state := stepped.2
          ackDue := turn.posed.map fun id => (id, now + phone.deadlines.ack)
          turnDue :=
            match progress with
            | .Continuing => some (now + phone.deadlines.turn)
            | .Concluded => none }, net)

/-- `open` in the source. -/
def openExchange [Transport N] (phone : Phone) (net : N) (now : Instant) (request : Request) :
    Except PhoneError Unit × Phone × N :=
  let sent := phone.sendTurn net now (.Open request)
  (sent.1.map fun _ => (), sent.2)

/-- The phone of one of the exchanges that a batch opened at `now`. -/
def fanned (selfAddress peer : Address) (deadlines : Deadlines) (now : Instant) (request : Request) :
    Phone :=
  let phone := converse selfAddress peer deadlines
  -- The source expects that an `Open` is legal from `Idle`.
  { phone with
    state := (phone.state.onOutgoing (.Open request)).2
    ackDue := some (request.id, now + deadlines.ack)
    turnDue := some (now + deadlines.turn) }

def openMany [FanOut N] (net : N) (now : Instant) (selfAddress : Address) (endpoint : EndpointId)
    (names : List ActorName) (request : Request) (deadlines : Deadlines) :
    Except PhoneError (List Phone) × N :=
  match FanOut.openMany net selfAddress endpoint names request with
  | (.error text, net) => (.error (.Transport text), net)
  | (.ok (), net) =>
    (.ok (names.map fun name => fanned selfAddress ⟨endpoint, name⟩ deadlines now request), net)

def onIncoming (phone : Phone) (turn : Turn) : Except PhoneError TurnProgress × Phone :=
  let stepped := phone.state.onIncoming turn
  match stepped.1 with
  | .error error => (.error (.Turn error), { phone with state := stepped.2 })
  | .ok progress => (.ok progress, { phone with state := stepped.2, ackDue := none, turnDue := none })

def noteAck (phone : Phone) (ack : Ack) : Bool × Phone :=
  match phone.ackDue with
  | some (id, _) => if id = ack.id then (true, { phone with ackDue := none }) else (false, phone)
  | none => (false, phone)

/-- The earlier of the two waits, the ack on a tie. -/
def nextDue (phone : Phone) : Option (DeadlineKind × Instant) :=
  let ack := phone.ackDue.map fun due => (DeadlineKind.Ack, due.2)
  let turn := phone.turnDue.map fun due => (DeadlineKind.Turn, due)
  match ack, turn with
  | some ack, some turn => some (if ack.2 ≤ turn.2 then ack else turn)
  | ack, turn => ack.or turn

def onDeadlineElapsed (phone : Phone) : Option FailureCause × Phone :=
  match phone.nextDue with
  | none => (none, phone)
  | some (kind, _) =>
    (some (.DeadlineElapsed kind),
      { phone with state := phone.state.fail.2, ackDue := none, turnDue := none })

/-- What `on_peer_death` and `on_revoked` do alike, each with its own cause. -/
def cutOff (phone : Phone) (endpoint : EndpointId) (cause : FailureCause) :
    Option FailureCause × Phone :=
  if phone.peer.endpoint ≠ endpoint then (none, phone)
  else
    let failed := phone.state.fail
    if !failed.1 then (none, { phone with state := failed.2 })
    else (some cause, { phone with state := failed.2, ackDue := none, turnDue := none })

def onPeerDeath (phone : Phone) (endpoint : EndpointId) : Option FailureCause × Phone :=
  phone.cutOff endpoint .Disconnected

def onRevoked (phone : Phone) (endpoint : EndpointId) : Option FailureCause × Phone :=
  phone.cutOff endpoint .Revoked

end Phone

end Kamiroh
