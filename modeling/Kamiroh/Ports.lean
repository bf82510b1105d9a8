import Kamiroh.Futures
import Kamiroh.Protocol

/-!
# The ports

What the core asks of the adapters. Every handle of the source points at one shared network. Here an
operation takes the state of that network and returns the state that it leaves behind. The text of
an error is what the source keeps of it.
-/

namespace Kamiroh

/-- An inbound delivery. `origin` and `target` are the fields `from` and `to` of the source. -/
structure Delivery where
  origin : Address
  target : Address
  message : Message
deriving DecidableEq

/-- Something that the library observed, for local eyes only. `here` is the field `local`. -/
inductive Event
  | ExchangeFailed (here peer : Address) (cause : FailureCause)
  | DeliveryDenied (origin target : Address)
  | IllegalTurnDropped (origin target : Address) (error : TurnError)
deriving DecidableEq

/-- The party behind an actor: one incoming turn, one state change, at most one turn in answer. -/
class Party (P : Type) where
  onTurn : P → Address → Turn → P × Option Turn
  onExchangeFailed : P → Address → FailureCause → P

/-- The claimed name on a batch receipt. No actor sends it. -/
def batchReceiptName : ActorName := ⟨"mailroom", by decide⟩

def batchReceiptSender (endpoint : EndpointId) : Address := ⟨endpoint, batchReceiptName⟩

class Transport (N : Type) where
  send : N → Address → Address → Message → Except String Unit × N

/-- The method `open_many` of the same transport. -/
class FanOut (N : Type) where
  openMany : N → Address → EndpointId → List ActorName → Request → Except String Unit × N

/-- Dropping the inbox that `bind` returned unbinds the address. -/
class Registry (N : Type) (Ib : outParam Type) where
  bind : N → Address → Except String Ib × N
  dropInbox : N → Ib → N

/-- `none` is a closed inbox. -/
class Inbox (N : Type) (Ib : Type) where
  next : N → Ib → Waker → Poll (Option Delivery) × N

abbrev WatchId := Nat

/-- `none` is a closed watch. -/
class DeathWatch (N : Type) where
  nextDeath : N → WatchId → Waker → Poll (Option EndpointId) × N

end Kamiroh
