import Kamiroh.Ports

/-!
# Waiting: where a delivery races a deadline and a death

One poll of the race. The order is deaths, deadline, delivery, and a source that is not reached is
not polled, so nothing is taken from it.
-/

namespace Kamiroh

inductive Waited
  | Delivery (delivery : Option Delivery)
  | DeadlineElapsed
  | PeerDeath (endpoint : EndpointId)
deriving DecidableEq

section

variable {N Ib : Type} [Inbox N Ib] [DeathWatch N]

/-- One poll of `next_or_deadline`. Without a deadline it is a poll of the inbox. -/
def nextOrDeadline (net : N) (inbox : Ib) (due : Option Instant) (now : Instant)
    (waker : Waker) : Poll Waited × N :=
  if due.any (· ≤ now) then (.Ready .DeadlineElapsed, net)
  else
    match Inbox.next net inbox waker with
    | (.Ready delivery, net) => (.Ready (.Delivery delivery), net)
    | (.Pending, net) => (.Pending, net)

/-- One poll of `next_or_deadline_or_death`. A watch that closes drops out of the race: the watch that
is left is `none`. -/
def nextOrDeadlineOrDeath (net : N) (inbox : Ib) (due : Option Instant) (now : Instant)
    (watch : Option WatchId) (waker : Waker) : Poll Waited × N × Option WatchId :=
  match watch with
  | none =>
    let waited := nextOrDeadline net inbox due now waker
    (waited.1, waited.2, none)
  | some id =>
    match DeathWatch.nextDeath net id waker with
    | (.Ready (some endpoint), net) => (.Ready (.PeerDeath endpoint), net, watch)
    | (.Ready none, net) =>
      let waited := nextOrDeadline net inbox due now waker
      (waited.1, waited.2, none)
    | (.Pending, net) =>
      let waited := nextOrDeadline net inbox due now waker
      (waited.1, waited.2, watch)

end

end Kamiroh
