import Kamiroh.Mailboxes
import Kamiroh.Phone.Waits
import Kamiroh.Runtime.Steps

/-!
# A phone on the line

A phone with its inbox and the pump that reads it, and the runtime that hosts the peer, on one network.
Each act is one call of the app, of the pump or of the runtime's driver.
-/

namespace Kamiroh

open TurnState

variable {P : Type}

/-- The network and the clock are those of the runtime. `allowlist` is the one that the pump checks. The
last five fields are history: the turns that the phone sent, what the pump took out of the inbox, what it
was told for an ack and for a turn, and the effects of the runtime. -/
structure Line (P : Type) where
  phone : Phone
  inbox : MemoryInbox
  allowlist : Allowlist
  rt : LocalRuntime P Shared MemoryInbox
  said : List Turn
  read : List Message
  noted : List (Ack × Bool)
  heard : List (Turn × Bool)
  effects : List Effect

namespace Line

/-- Whatever is asked of the phone is asked for its own peer. `Receipt` is an ack that the app sends by
hand, and `Elsewhere` is whatever others do to the network while time passes. -/
inductive Act
  | SendTurn (turn : Turn)
  | Receipt (ack : Ack)
  | Step (waker : Waker)
  | Read (waker : Waker)
  | Elsewhere (net : Shared → Shared) (clock : Instant)

def sendTurn (line : Line P) (turn : Turn) : Line P :=
  let sent := line.phone.sendTurn line.rt.net line.rt.clock turn
  { line with
    phone := sent.2.1
    rt := { line.rt with net := sent.2.2 }
    said := if sent.1.isOk then line.said ++ [turn] else line.said }

def receipt (line : Line P) (ack : Ack) : Line P :=
  let sent := Transport.send line.rt.net line.phone.selfAddress line.phone.peer (.Ack ack)
  { line with rt := { line.rt with net := sent.2 } }

def step [Party P] (line : Line P) (waker : Waker) : Line P :=
  let polled := line.rt.poll line.phone.peer.name waker
  { line with rt := polled.2.1, effects := line.effects ++ polled.2.2 }

/-- What the pump does with a delivery. -/
def dispatch (line : Line P) (delivery : Delivery) : Line P :=
  let line := { line with read := line.read ++ [delivery.message] }
  match process line.allowlist delivery with
  | .AckReceived ack =>
    let noted := line.phone.noteAck ack
    { line with phone := noted.2, noted := line.noted ++ [(ack, noted.1)] }
  | .Turn turn _ _ _ =>
    let heard := line.phone.onIncoming turn
    { line with phone := heard.2, heard := line.heard ++ [(turn, heard.1.isOk)] }
  | .Denied | .Request .. | .Harness .. => line

def readNext (line : Line P) (waker : Waker) : Line P :=
  let polled := line.rt.net.pollNext line.inbox waker
  let line := { line with rt := { line.rt with net := polled.2 } }
  match polled.1 with
  | .Ready (some delivery) => line.dispatch delivery
  | _ => line

def act [Party P] (line : Line P) : Act → Line P
  | .SendTurn turn => line.sendTurn turn
  | .Receipt ack => line.receipt ack
  | .Step waker => line.step waker
  | .Read waker => line.readNext waker
  | .Elsewhere net clock => { line with rt := { line.rt with net := net line.rt.net, clock } }

def after [Party P] (line : Line P) (acts : List Act) : Line P := Run.after act line acts

/-- The messages that lie in a mailbox. -/
def queued (line : Line P) (address : Address) : List Message :=
  ((line.rt.net.mailboxes.lookup address).elim [] (·.queue)).map (·.message)

/-- The network of the two and the runtime of the peer at the beginning. -/
def start (app peer : Address) (deadlines : Deadlines) (allowlist : Allowlist)
    (rt : LocalRuntime P Shared MemoryInbox) : Line P :=
  ⟨.converse app peer deadlines, ⟨app⟩, allowlist, rt, [], [], [], [], []⟩

end Line

/-! ## Two mailboxes -/

/-- Nothing parts `a` and `b`, and what lies in the mailbox of each came from the other. -/
structure Wired (net : Shared) (a b : Address) (toA toB : List Message) : Prop where
  there : (a.endpoint, b.endpoint) ∉ net.partitions
  back : (b.endpoint, a.endpoint) ∉ net.partitions
  left : (net.mailboxes.lookup a).map (·.queue) = some (toA.map fun message => ⟨b, a, message⟩)
  right : (net.mailboxes.lookup b).map (·.queue) = some (toB.map fun message => ⟨a, b, message⟩)

namespace Wired

variable {net : Shared} {a b : Address} {toA toB : List Message}

theorem symm (h : Wired net a b toA toB) : Wired net b a toB toA := ⟨h.back, h.there, h.right, h.left⟩

theorem send (h : Wired net a b toA toB) (hne : a ≠ b) (message : Message) :
    ∃ net', Transport.send net a b message = (.ok (), net') ∧ Wired net' a b toA (toB ++ [message]) := by
  obtain ⟨mailbox, hmailbox, hqueue⟩ := Option.map_eq_some_iff.mp h.right
  have hsend : Transport.send net a b message = (.ok (), (net.push ⟨a, b, message⟩).1) := by
    simp only [Transport.send, Shared.send, if_neg h.there, hmailbox]
    rfl
  refine ⟨_, hsend, by simpa using h.there, by simpa using h.back, ?_, ?_⟩
  · simp only [Shared.push_lookup, if_neg hne.symm, Option.map_id']
    exact h.left
  · simp [Shared.push_lookup, hmailbox, hqueue]

theorem pollNext (h : Wired net a b toA toB) (hne : a ≠ b) (waker : Waker) :
    (toB = [] ∧ ∃ net', net.pollNext ⟨b⟩ waker = (.Pending, net') ∧ Wired net' a b toA []) ∨
      ∃ message rest net', toB = message :: rest ∧
        net.pollNext ⟨b⟩ waker = (.Ready (some ⟨a, b, message⟩), net') ∧ Wired net' a b toA rest := by
  obtain ⟨mailbox, hmailbox, hqueue⟩ := Option.map_eq_some_iff.mp h.right
  have hkept : ∀ mailbox' : Mailbox, (net.mailboxes.insert b mailbox').lookup a = net.mailboxes.lookup a :=
    fun mailbox' => AList.lookup_insert_ne hne
  cases toB with
  | nil =>
    refine Or.inl ⟨rfl, { net with
      mailboxes := net.mailboxes.insert b { mailbox with waker := some waker } }, ?_, h.there, h.back, ?_, ?_⟩
    · simp only [Shared.pollNext, hmailbox, hqueue, List.map_nil]
    · rw [hkept]
      exact h.left
    · rw [AList.lookup_insert, Option.map_some, hqueue]
  | cons message rest =>
    refine Or.inr ⟨message, rest, { net with
      mailboxes := net.mailboxes.insert b
        { mailbox with queue := rest.map fun message => ⟨a, b, message⟩ } }, rfl, ?_, h.there, h.back, ?_, ?_⟩
    · simp only [Shared.pollNext, hmailbox, hqueue, List.map_cons]
    · rw [hkept]
      exact h.left
    · rw [AList.lookup_insert, Option.map_some]

theorem pollDeath (h : Wired net a b toA toB) (watch : WatchId) (waker : Waker) :
    Wired (net.pollDeath watch waker).2 a b toA toB := by
  unfold Shared.pollDeath
  split
  · split <;> exact ⟨h.there, h.back, h.left, h.right⟩
  · exact h

theorem race (h : Wired net a b toA toB) (hne : a ≠ b) {due : Option Instant} {now : Instant}
    (hdue : ∀ at', due = some at' → now < at') {watch : Option WatchId}
    (hdeaths : ∀ id, watch = some id → net.deaths id = []) (waker : Waker) :
    (toB = [] ∧ ∃ net', nextOrDeadlineOrDeath net (⟨b⟩ : MemoryInbox) due now watch waker =
        (.Pending, net', watch) ∧ Wired net' a b toA []) ∨
      ∃ message rest net', toB = message :: rest ∧
        nextOrDeadlineOrDeath net (⟨b⟩ : MemoryInbox) due now watch waker =
          (.Ready (.Delivery (some ⟨a, b, message⟩)), net', watch) ∧ Wired net' a b toA rest := by
  have hlate : due.any (· ≤ now) = false := by
    cases due with
    | none => rfl
    | some at' => simpa using hdue at' rfl
  have hinbox : ∀ {net₀ : Shared}, Wired net₀ a b toA toB →
      (toB = [] ∧ ∃ net', nextOrDeadline net₀ (⟨b⟩ : MemoryInbox) due now waker = (.Pending, net') ∧
        Wired net' a b toA []) ∨
      ∃ message rest net', toB = message :: rest ∧
        nextOrDeadline net₀ (⟨b⟩ : MemoryInbox) due now waker =
          (.Ready (.Delivery (some ⟨a, b, message⟩)), net') ∧ Wired net' a b toA rest := by
    intro net₀ h₀
    simp only [nextOrDeadline, hlate, Bool.false_eq_true, if_false, Inbox.next]
    rcases h₀.pollNext hne waker with ⟨hnil, net', hpoll, hnet⟩ | ⟨message, rest, net', hcons, hpoll, hnet⟩
    · exact Or.inl ⟨hnil, net', by rw [hpoll], hnet⟩
    · exact Or.inr ⟨message, rest, net', hcons, by rw [hpoll], hnet⟩
  cases watch with
  | none =>
    simp only [nextOrDeadlineOrDeath]
    rcases hinbox h with ⟨hnil, net', hwait, hnet⟩ | ⟨message, rest, net', hcons, hwait, hnet⟩
    · exact Or.inl ⟨hnil, net', by rw [hwait], hnet⟩
    · exact Or.inr ⟨message, rest, net', hcons, by rw [hwait], hnet⟩
  | some id =>
    have hpending : DeathWatch.nextDeath net id waker = (.Pending, (net.pollDeath id waker).2) := by
      rcases net.pollDeath_cases id waker with ⟨endpoint, -, hdeath⟩ | ⟨hpending, -⟩
      · rw [hdeaths id rfl] at hdeath
        cases hdeath
      · exact Prod.ext hpending rfl
    simp only [nextOrDeadlineOrDeath, hpending]
    rcases hinbox (h.pollDeath id waker) with ⟨hnil, net', hwait, hnet⟩ |
      ⟨message, rest, net', hcons, hwait, hnet⟩
    · exact Or.inl ⟨hnil, net', by rw [hwait], hnet⟩
    · exact Or.inr ⟨message, rest, net', hcons, by rw [hwait], hnet⟩

end Wired

end Kamiroh
