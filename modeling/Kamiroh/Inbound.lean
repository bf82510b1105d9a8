import Kamiroh.Ports

/-!
# Admission, and what an admitted delivery asks for
-/

namespace Kamiroh

inductive Admission
  | Deliver
  | Deny
deriving DecidableEq

/-- `admit` in the source. Only the endpoint that the transport proved counts, the claimed name does
not. -/
def admitDelivery (allowlist : Allowlist) (delivery : Delivery) : Admission :=
  if allowlist.allows delivery.origin.endpoint then .Deliver else .Deny

/-- What a processed delivery asks of the caller. -/
inductive Inbound
  | Denied
  | Request (request : Request) (forActor replyTo : Address) (ack : Message)
  | AckReceived (ack : Ack)
  | Harness (harness : Harness) (replyTo : Address)
  | Turn (turn : Turn) (forActor replyTo : Address) (ack : Option Message)
deriving DecidableEq

def process (allowlist : Allowlist) (delivery : Delivery) : Inbound :=
  if admitDelivery allowlist delivery = .Deny then .Denied
  else
    match delivery.message with
    | .Request request => .Request request delivery.target delivery.origin (.Ack ⟨request.id⟩)
    | .Ack ack => .AckReceived ack
    | .Harness harness => .Harness harness delivery.origin
    | .Turn turn =>
      .Turn turn delivery.target delivery.origin (turn.request.map fun request => .Ack ⟨request.id⟩)

theorem process_denied {allowlist : Allowlist} {delivery : Delivery} :
    process allowlist delivery = .Denied ↔ allowlist.allows delivery.origin.endpoint = false := by
  unfold process admitDelivery
  cases h : allowlist.allows delivery.origin.endpoint
  · simp
  · cases delivery.message <;> simp

theorem process_admitted {allowlist : Allowlist} {delivery : Delivery}
    (h : allowlist.allows delivery.origin.endpoint = true) :
    process allowlist delivery =
      match delivery.message with
      | .Request request => .Request request delivery.target delivery.origin (.Ack ⟨request.id⟩)
      | .Ack ack => .AckReceived ack
      | .Harness harness => .Harness harness delivery.origin
      | .Turn turn =>
        .Turn turn delivery.target delivery.origin (turn.request.map fun request => .Ack ⟨request.id⟩) := by
  simp [process, admitDelivery, h]

end Kamiroh
