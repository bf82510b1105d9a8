import Kamiroh.Memory
import Kamiroh.Runtime.Conversations

/-!
# Quiescence: what comes of the messages in a network that is left alone

Several runtimes with stock parties share one network. Each message weighs as many deliveries as can
come of it, and a step takes away more than it adds, unless it answers a harness reply.
-/

namespace Kamiroh

/-! ## Weights -/

/-- The deliveries that come of a message, itself included. -/
def Message.weight : Message → Nat
  | .Request _ => 2
  | .Ack _ => 1
  | .Harness harness => if opens (.Harness harness) then 2 else 1
  | .Turn turn => if turn.request.isSome then 3 else 1

def Mailbox.weight (mailbox : Mailbox) : Nat := (mailbox.queue.map (·.message.weight)).sum

theorem Message.weight_pos (message : Message) : 0 < message.weight := by
  cases message <;> simp only [weight] <;> first | omega | (split <;> omega)

@[simp] theorem Mailbox.weight_default : (default : Mailbox).weight = 0 := rfl

namespace Shared

def weight (net : Shared) : Nat := Assoc.total Mailbox.weight net.mailboxes

theorem weight_insert {net : Shared} {address : Address} {mailbox : Mailbox}
    (h : net.mailboxes.lookup address = some mailbox) (mailbox' : Mailbox) :
    { net with mailboxes := net.mailboxes.insert address mailbox' }.weight + mailbox.weight =
      net.weight + mailbox'.weight := by
  have := Assoc.total_insert Mailbox.weight net.mailboxes address mailbox'
  simp only [Assoc.weightAt, h, Option.elim_some] at this
  exact this

theorem push_weight (net : Shared) (delivery : Delivery) :
    (net.push delivery).1.weight ≤ net.weight + delivery.message.weight := by
  unfold push
  split
  · rename_i mailbox h
    have := weight_insert h ⟨mailbox.queue ++ [delivery], none⟩
    simp only [Mailbox.weight, List.map_append, List.map_singleton, List.sum_append,
      List.sum_singleton] at this ⊢
    omega
  · exact Nat.le_add_right ..

theorem send_weight (net : Shared) (origin target : Address) (message : Message) :
    (net.send origin target message).2.1.weight ≤ net.weight + message.weight := by
  unfold send
  split
  · exact Nat.le_add_right ..
  · split
    · exact push_weight net ⟨origin, target, message⟩
    · exact Nat.le_add_right ..

theorem register_weight (net : Shared) (address : Address) :
    (net.register address).2.weight = net.weight := by
  unfold register
  split
  · rfl
  · rename_i h
    have := Assoc.total_insert Mailbox.weight net.mailboxes address default
    simp only [Assoc.weightAt, h, Option.elim_none, Mailbox.weight_default] at this
    exact this

theorem dropInbox_weight (net : Shared) (inbox : MemoryInbox) :
    (net.dropInbox inbox).weight ≤ net.weight :=
  Assoc.total_erase_le Mailbox.weight net.mailboxes inbox.address

theorem pollNext_weight (net : Shared) (inbox : MemoryInbox) (waker : Waker) :
    (∃ delivery, (net.pollNext inbox waker).1 = .Ready (some delivery) ∧
      (net.pollNext inbox waker).2.weight + delivery.message.weight = net.weight) ∨
    ((∀ delivery, (net.pollNext inbox waker).1 ≠ .Ready (some delivery)) ∧
      (net.pollNext inbox waker).2.weight = net.weight) := by
  unfold pollNext
  cases h : net.mailboxes.lookup inbox.address with
  | none => exact Or.inr ⟨by simp, rfl⟩
  | some mailbox =>
    obtain ⟨_ | ⟨delivery, queue⟩, waker'⟩ := mailbox
    · have := weight_insert h ⟨[], some waker⟩
      exact Or.inr ⟨by simp, by simpa [Mailbox.weight] using this⟩
    · have := weight_insert h ⟨queue, waker'⟩
      simp only [Mailbox.weight, List.map_cons, List.sum_cons] at this
      exact Or.inl ⟨delivery, rfl, by dsimp only; omega⟩

theorem pollDeath_weight (net : Shared) (watch : WatchId) (waker : Waker) :
    (net.pollDeath watch waker).2.weight = net.weight := by
  unfold pollDeath
  split
  · split <;> rfl
  · rfl

end Shared

/-! ## A step -/

namespace LocalRuntime

/-- What a race takes from the inbox: a delivery with its weight, or nothing. -/
def RaceTook (net : Shared) (raced : Poll Waited) (net' : Shared) : Prop :=
  (∃ delivery, raced = .Ready (.Delivery (some delivery)) ∧
    net'.weight + delivery.message.weight = net.weight) ∨
  ((∀ delivery, raced ≠ .Ready (.Delivery (some delivery))) ∧ net'.weight = net.weight)

theorem nextOrDeadline_took (net : Shared) (inbox : MemoryInbox) (due : Option Instant)
    (now : Instant) (waker : Waker) :
    RaceTook net (nextOrDeadline net inbox due now waker).1 (nextOrDeadline net inbox due now waker).2 := by
  have hnext := net.pollNext_weight inbox waker
  unfold nextOrDeadline
  split
  · exact Or.inr ⟨by simp, rfl⟩
  · simp only [Inbox.next]
    generalize net.pollNext inbox waker = polled at hnext
    obtain ⟨delivery | _, net'⟩ := polled
    · rcases hnext with ⟨delivery, hready, hweight⟩ | ⟨hready, hweight⟩
      · cases hready
        exact Or.inl ⟨delivery, rfl, hweight⟩
      · exact Or.inr ⟨by simpa using hready, hweight⟩
    · rcases hnext with ⟨delivery, hready, -⟩ | ⟨-, hweight⟩
      · cases hready
      · exact Or.inr ⟨by simp, hweight⟩

theorem race_took (net : Shared) (inbox : MemoryInbox) (due : Option Instant) (now : Instant)
    (watch : Option WatchId) (waker : Waker) :
    RaceTook net (nextOrDeadlineOrDeath net inbox due now watch waker).1
      (nextOrDeadlineOrDeath net inbox due now watch waker).2.1 := by
  cases watch with
  | none => exact nextOrDeadline_took net inbox due now waker
  | some watch =>
    have hdeath := net.pollDeath_weight watch waker
    simp only [nextOrDeadlineOrDeath, DeathWatch.nextDeath]
    generalize net.pollDeath watch waker = polled at hdeath
    obtain ⟨(_ | _) | _, net'⟩ := polled
    all_goals
      have htook := nextOrDeadline_took net' inbox due now waker
      simp only [RaceTook, hdeath] at htook
    · exact htook
    · exact Or.inr ⟨by simp, hdeath⟩
    · exact htook

variable {P : Type} [Party P]

def taken (rt : LocalRuntime P Shared MemoryInbox) (name : ActorName) (waker : Waker) :
    Option Delivery :=
  (rt.actors name).bind fun actor =>
    if actor.affected (· ∈ rt.dead) = [] then
      match (nextOrDeadlineOrDeath rt.net actor.inbox (actor.earliestDue.map (·.2.2)) rt.clock
          rt.deathWatch waker).1 with
      | .Ready (.Delivery delivery) => delivery
      | _ => none
    else none

theorem step_sends_nothing (rt : LocalRuntime P Shared MemoryInbox) (name : ActorName)
    {waited : Waited} (h : ∀ delivery, waited ≠ .Delivery (some delivery)) :
    (rt.step name waited).rt.net = rt.net := by
  cases hactor : rt.actors name with
  | none => simp only [step, hactor]
  | some actor =>
    have hdid := step_did hactor waited
    generalize rt.step name waited = ran at hdid
    rcases hdid with ⟨_, _, _, _, _, rfl⟩ | ⟨_, _, _, rfl⟩ | ⟨_, _, _, _, _, _, rfl⟩ | _ | _ |
      ⟨_, delivery, _, _⟩
    · rfl
    · rfl
    · rfl
    · rfl
    · rfl
    · exact absurd rfl (h delivery)

theorem poll_taken (rt : LocalRuntime P Shared MemoryInbox) (name : ActorName) (waker : Waker) :
    (∃ delivery actor net, rt.taken name waker = some delivery ∧ rt.actors name = some actor ∧
      actor.affected (· ∈ rt.dead) = [] ∧
      Shared.weight net + delivery.message.weight = rt.net.weight ∧
      (rt.poll name waker).2.1 = ({ rt with net }.step name (.Delivery (some delivery))).rt) ∨
    (rt.taken name waker = none ∧ (rt.poll name waker).2.1.net.weight = rt.net.weight) := by
  unfold poll taken
  cases hactor : rt.actors name with
  | none => exact Or.inr ⟨rfl, rfl⟩
  | some actor =>
    simp only [Option.bind_some]
    by_cases hquiet : actor.affected (· ∈ rt.dead) = []
    · have hraced := race_took rt.net actor.inbox (actor.earliestDue.map (·.2.2)) rt.clock rt.deathWatch
        waker
      simp only [sweepDead_none hquiet, if_pos hquiet]
      generalize nextOrDeadlineOrDeath rt.net actor.inbox (actor.earliestDue.map (·.2.2)) rt.clock
        rt.deathWatch waker = raced at hraced
      obtain ⟨waited | _, net, watch⟩ := raced
      · rcases hraced with ⟨delivery, hready, hweight⟩ | ⟨hready, hweight⟩
        · cases hready
          exact Or.inl ⟨delivery, actor, net, rfl, rfl, hquiet, hweight, rfl⟩
        · refine Or.inr ⟨?_, ?_⟩
          · cases waited with
            | Delivery delivery =>
              cases delivery with
              | none => rfl
              | some delivery => exact absurd rfl (hready delivery)
            | DeadlineElapsed | PeerDeath _ => rfl
          · rw [step_sends_nothing _ name fun delivery h => hready delivery (by rw [h])]
            exact hweight
      · rcases hraced with ⟨delivery, hready, -⟩ | ⟨-, hweight⟩
        · cases hready
        · exact Or.inr ⟨rfl, hweight⟩
    · obtain ⟨endpoint, hdead, hlive, hswept⟩ := sweepDead_some rt name hquiet
      simp only [hswept, if_neg hquiet]
      exact Or.inr ⟨trivial, rfl⟩

/-! ## What a delivery adds -/

/-- The delivery is a harness reply, admitted by an actor that is no harness. -/
def misdirected (actor : LocalActor P MemoryInbox) (delivery : Delivery) : Bool :=
  actor.kind ≠ .Harness && actor.allowlist.allows delivery.origin.endpoint &&
    protocolOf delivery.message = .Harness && !opens delivery.message

theorem echo_reply {party : Boxed Empty} {peer : Address} {turn reply : Turn}
    (h : (Party.onTurn party peer turn).2 = some reply) :
    turn.request.isSome = true ∧ ∃ response, reply = .Close response := by
  cases party with
  | app party => exact party.elim
  | echo party =>
    simp only [Party.onTurn, EchoParty.onTurn] at h
    split at h
    · cases h
    · split at h
      · cases h
      · rename_i request hrequest
        cases h
        exact ⟨by rw [hrequest]; rfl, _, rfl⟩

section

variable {rt : LocalRuntime Empty Shared MemoryInbox}

theorem sendAndReturn_weight (rt : LocalRuntime Empty Shared MemoryInbox) (origin target : Address)
    (message : Message) :
    (rt.sendAndReturn origin target message).rt.net.weight ≤ rt.net.weight + message.weight := by
  simp only [sendAndReturn, send_rt]
  exact Shared.send_weight ..

theorem receipt_weight (rt : LocalRuntime Empty Shared MemoryInbox) (self peer : Address) (turn : Turn) :
    (rt.receipt self peer (turn.request.map fun request => .Ack ⟨request.id⟩)).rt.net.weight ≤
      rt.net.weight + if turn.request.isSome then 1 else 0 := by
  rw [receipt_rt]
  cases turn.request with
  | none => exact Nat.le_refl _
  | some request => exact Shared.send_weight ..

theorem execute_weight (rt : LocalRuntime Empty Shared MemoryInbox) (command : Harness) (controller : Address) :
    (rt.execute command controller).rt.net.weight ≤ rt.net.weight := by
  cases command with
  | Ping | Spawned _ | Stopped _ | Pong | Failed _ => exact Nat.le_refl _
  | Spawn name =>
    have hbound : (rt.installParty name (Allowlist.empty.admitEndpoint controller.endpoint) rt.spawnDeadlines
        (.echo .new)).rt.net.weight = rt.net.weight := by
      have hregister := Shared.register_weight rt.net (rt.address name)
      simp only [installParty, installInner, Registry.bind]
      split
      · rfl
      · generalize rt.net.register (rt.address name) = registered at hregister
        obtain ⟨_ | _, net⟩ := registered <;> exact hregister
    simp only [execute]
    split <;> exact hbound.le
  | Stop name =>
    simp only [execute]
    split
    · exact Shared.dropInbox_weight ..
    · exact Nat.le_refl _

theorem execute_reply {command : Harness} {controller : Address} {reply : Message}
    (h : (rt.execute command controller).result = some reply) :
    opens (.Harness command) = true ∧ reply.weight = 1 := by
  cases command with
  | Spawned _ | Stopped _ | Pong | Failed _ => cases h
  | Ping =>
    cases h
    exact ⟨rfl, rfl⟩
  | Spawn name | Stop name =>
    simp only [execute] at h
    split at h <;> (cases h; exact ⟨rfl, rfl⟩)

theorem answered_weight {name : ActorName} {actor : LocalActor Empty MemoryInbox}
    {self peer : Address} {reply : Turn} {ran : Ran Empty Shared MemoryInbox Stepped}
    (h : Answered rt name actor self peer reply ran) :
    ran.rt.net.weight ≤ rt.net.weight + (Message.Turn reply).weight := by
  rcases h with ⟨error, hout, _, rfl⟩ | ⟨progress, hout, _, rfl, hrefused, _, rfl⟩ |
    ⟨progress, hout, _, rfl, haccepted⟩
  · exact Nat.le_add_right ..
  · simp only [send_rt]
    exact Shared.send_weight ..
  · simp only [send_rt]
    exact Shared.send_weight ..

/-- An accepted request costs a receipt and a `Close`, and it weighs three. -/
theorem tookTurn_weight {name : ActorName} {actor : LocalActor Empty MemoryInbox}
    {self peer : Address} {turn : Turn} {ran : Ran Empty Shared MemoryInbox Stepped}
    (h : TookTurn rt name actor self peer turn
      (turn.request.map fun request => .Ack ⟨request.id⟩) ran) :
    ran.rt.net.weight + 1 ≤ rt.net.weight + (Message.Turn turn).weight := by
  have hreceipt := receipt_weight rt self peer turn
  simp only [Message.weight]
  rcases h with ⟨error, h⟩ | ⟨progress, h, taken, effects, hsilent⟩ |
    ⟨progress, h, reply, taken, effects, hreply, ran, hran⟩
  · simp only [setActor_net]
    split <;> omega
  · simp only [setActor_net]
    by_cases hrequest : turn.request.isSome = true
    · rw [if_pos hrequest] at hreceipt ⊢
      omega
    · rw [if_neg hrequest] at hreceipt ⊢
      omega
  · obtain ⟨-, -, hreply⟩ := retook_of_handOver hreply
    obtain ⟨party, -, hparty⟩ := Option.bind_eq_some_iff.mp hreply
    obtain ⟨hrequest, response, rfl⟩ := echo_reply hparty
    have hanswered := answered_weight hran
    rw [if_pos hrequest] at hreceipt ⊢
    simp only [Message.weight, Turn.request_close, Option.isSome_none, Bool.false_eq_true,
      if_false] at hanswered
    dsimp only
    omega

/-- What comes of a delivery weighs less than the delivery, unless it is a misdirected reply. -/
theorem delivered_weight {name : ActorName} {actor : LocalActor Empty MemoryInbox}
    {delivery : Delivery} {ran : Ran Empty Shared MemoryInbox Outcome}
    (h : Delivered rt name actor delivery ran) :
    ran.rt.net.weight + 1 ≤
      rt.net.weight + delivery.message.weight + (if misdirected actor delivery then 1 else 0) := by
  have hpos := delivery.message.weight_pos
  rcases h with ⟨hno⟩ | ⟨hok, request, hm⟩ | ⟨hok, ack, hm⟩ | ⟨hok, harness, hm, hkind⟩ |
    ⟨hok, harness, hm, hkind, reply, hreply⟩ | ⟨hok, harness, hm, hkind, hreply⟩ |
    ⟨hok, turn, hm, ran, hran⟩
  · dsimp only
    omega
  · have hsent := sendAndReturn_weight rt delivery.target delivery.origin (.Ack ⟨request.id⟩)
    simp only [hm, Message.weight] at hsent ⊢
    omega
  · dsimp only [setActor_net]
    omega
  · have hsent := sendAndReturn_weight rt delivery.target delivery.origin
      (.Harness (.Failed "not a harness actor"))
    have hfailed : (Message.Harness (.Failed "not a harness actor")).weight = 1 := rfl
    rw [hfailed] at hsent
    -- The answer weighs one: less than a command, as much as a reply.
    by_cases hopens : opens (.Harness harness) = true
    · simp only [hm, Message.weight, hopens, if_true]
      omega
    · have hmisdirected : misdirected actor delivery = true := by
        simp [misdirected, hkind, hok, hm, protocolOf, hopens]
      rw [hmisdirected, if_pos rfl]
      omega
  · obtain ⟨hopens, hweight⟩ := execute_reply hreply
    have hexecuted := execute_weight rt harness delivery.origin
    have hsent := sendAndReturn_weight (rt.execute harness delivery.origin).rt delivery.target
      delivery.origin reply
    simp only [hm, Message.weight, hopens, if_true]
    omega
  · have hexecuted := execute_weight rt harness delivery.origin
    dsimp only
    omega
  · have htook := tookTurn_weight hran
    rw [hm]
    dsimp only
    omega

theorem poll_weight (rt : LocalRuntime Empty Shared MemoryInbox) (name : ActorName) (waker : Waker) :
    (rt.taken name waker).isSome.toNat + (rt.poll name waker).2.1.net.weight ≤
      rt.net.weight + ((rt.taken name waker).any fun delivery =>
        (rt.actors name).any fun actor => misdirected actor delivery).toNat := by
  rcases rt.poll_taken name waker with
    ⟨delivery, actor, net, htaken, hactor, hquiet, hweight, hrt⟩ | ⟨htaken, hweight⟩
  · have hdelivered : (rt.poll name waker).2.1.net.weight + 1 ≤
        net.weight + delivery.message.weight + (if misdirected actor delivery then 1 else 0) := by
      rw [hrt, step_delivery { rt with net } hactor hquiet]
      exact delivered_weight (deliver_delivered { rt with net } name actor delivery)
    simp only [htaken, hactor, Option.isSome_some, Option.any_some, Bool.toNat_true]
    cases hmisdirected : misdirected actor delivery
    · rw [hmisdirected, if_neg Bool.false_ne_true] at hdelivered
      simp only [Bool.toNat_false]
      omega
    · rw [hmisdirected, if_pos rfl] at hdelivered
      simp only [Bool.toNat_true]
      omega
  · rw [htaken]
    simp [hweight]

end

end LocalRuntime

/-! ## Fleets -/

/-- Runtimes with stock parties on one network. The field `net` of each is the network at its last
poll. -/
structure Fleet (ι : Type) where
  net : Shared
  runtimes : ι → LocalRuntime Empty Shared MemoryInbox

/-- What happens to a fleet that nobody sends anything to. -/
inductive Move (ι : Type)
  | Poll (i : ι) (name : ActorName) (waker : Waker)
  | Tick (i : ι) (clock : Instant)

namespace Fleet

variable {ι : Type} [DecidableEq ι]

def runtime (fleet : Fleet ι) (i : ι) : LocalRuntime Empty Shared MemoryInbox :=
  { fleet.runtimes i with net := fleet.net }

def move (fleet : Fleet ι) : Move ι → Fleet ι
  | .Poll i name waker =>
    let rt := ((fleet.runtime i).poll name waker).2.1
    ⟨rt.net, Function.update fleet.runtimes i rt⟩
  | .Tick i clock =>
    ⟨fleet.net, Function.update fleet.runtimes i { fleet.runtimes i with clock }⟩

def processes (fleet : Fleet ι) : Move ι → Bool
  | .Poll i name waker => ((fleet.runtime i).taken name waker).isSome
  | .Tick .. => false

def misdirects (fleet : Fleet ι) : Move ι → Bool
  | .Poll i name waker =>
    ((fleet.runtime i).taken name waker).any fun delivery =>
      ((fleet.runtime i).actors name).any fun actor => LocalRuntime.misdirected actor delivery
  | .Tick .. => false

def processed (fleet : Fleet ι) (moves : List (Move ι)) : Nat :=
  Run.cost move (fun fleet m => (fleet.processes m).toNat) fleet moves

def misdirections (fleet : Fleet ι) (moves : List (Move ι)) : Nat :=
  Run.cost move (fun fleet m => (fleet.misdirects m).toNat) fleet moves

theorem move_weight (fleet : Fleet ι) (m : Move ι) :
    (fleet.processes m).toNat + (fleet.move m).net.weight ≤
      fleet.net.weight + (fleet.misdirects m).toNat := by
  cases m with
  | Tick i clock => simp [processes, misdirects, move]
  | Poll i name waker => exact (fleet.runtime i).poll_weight name waker

theorem processed_le (fleet : Fleet ι) (moves : List (Move ι)) :
    fleet.processed moves ≤ fleet.net.weight + fleet.misdirections moves :=
  Run.cost_le move (fun fleet => fleet.net.weight) move_weight fleet moves

/-- As long as no step misdirects a reply, a run processes at most what its messages weigh. -/
theorem processed_le_weight (fleet : Fleet ι) (moves : List (Move ι))
    (hdirected : Run.Along move (fun fleet m => fleet.misdirects m = false) fleet moves) :
    fleet.processed moves ≤ fleet.net.weight := by
  have hnone : fleet.misdirections moves = 0 := by
    refine Run.cost_eq_zero move ?_ fleet moves hdirected
    intro fleet m hm
    rw [hm]
    rfl
  exact (fleet.processed_le moves).trans_eq (by rw [hnone, Nat.add_zero])

theorem misdirections_le (fleet : Fleet ι) (moves : List (Move ι)) :
    fleet.misdirections moves ≤ fleet.processed moves := by
  refine Run.cost_mono move (fun fleet m => ?_) fleet moves
  cases m with
  | Tick i clock => exact Nat.le_refl _
  | Poll i name waker =>
    simp only [misdirects, processes]
    cases (fleet.runtime i).taken name waker with
    | none => exact Nat.le_refl _
    | some delivery => exact Bool.toNat_le _

/-- A run processes finitely many deliveries if and only if it processes finitely many misdirected
replies. -/
theorem quiesces_iff (fleet : Fleet ι) (schedule : Nat → Move ι) :
    (∃ bound, ∀ n, fleet.processed ((List.range n).map schedule) ≤ bound) ↔
      ∃ bound, ∀ n, fleet.misdirections ((List.range n).map schedule) ≤ bound := by
  constructor
  · rintro ⟨bound, h⟩
    exact ⟨bound, fun n => (misdirections_le ..).trans (h n)⟩
  · rintro ⟨bound, h⟩
    exact ⟨fleet.net.weight + bound, fun n =>
      (processed_le ..).trans (Nat.add_le_add_left (h n) _)⟩

end Fleet

/-! ## A rally of harness replies -/

namespace LocalRuntime

structure Plays (rt : LocalRuntime Empty Shared MemoryInbox) (self peer : Address) : Prop where
  actor : ∃ actor, rt.actors self.name = some actor ∧ actor.kind = .Plain ∧ actor.inbox = ⟨self⟩ ∧
    actor.allowlist.allows peer.endpoint = true ∧ actor.conversations = ∅
  watch : rt.deathWatch = none

structure Served (net : Shared) (self peer : Address) : Prop where
  apart : self ≠ peer
  connected : (self.endpoint, peer.endpoint) ∉ net.partitions ∧
    (peer.endpoint, self.endpoint) ∉ net.partitions
  ball : ∃ reply waker, opens (.Harness reply) = false ∧
    net.mailboxes.lookup self = some ⟨[⟨peer, self, .Harness reply⟩], waker⟩
  idle : ∃ waker, net.mailboxes.lookup peer = some ⟨[], waker⟩

theorem Plays.poll {rt : LocalRuntime Empty Shared MemoryInbox} {self peer : Address}
    (h : Plays rt self peer) (hserved : Served rt.net self peer) (waker : Waker) :
    (rt.taken self.name waker).isSome = true ∧ Served (rt.poll self.name waker).2.1.net peer self ∧
      (rt.poll self.name waker).2.1.actors = rt.actors ∧
      (rt.poll self.name waker).2.1.deathWatch = rt.deathWatch := by
  obtain ⟨⟨actor, hactor, hkind, hinbox, hallows, hnone⟩, hwatch⟩ := h
  obtain ⟨hapart, hconnected, ⟨reply, waker', hreply, hball⟩, ⟨waker'', hidle⟩⟩ := hserved
  have hquiet : actor.affected (· ∈ rt.dead) = [] := by
    rw [LocalActor.affected, hnone]
    rfl
  have hdue : actor.earliestDue = none := by
    rw [LocalActor.earliestDue, hnone]
    rfl
  have hpolled : rt.net.pollNext actor.inbox waker =
      (.Ready (some ⟨peer, self, .Harness reply⟩),
        { rt.net with mailboxes := rt.net.mailboxes.insert self ⟨[], waker'⟩ }) := by
    rw [hinbox]
    simp only [Shared.pollNext, hball]
  generalize hnet : { rt.net with mailboxes := rt.net.mailboxes.insert self ⟨[], waker'⟩ } = net
    at hpolled
  have hrace : nextOrDeadlineOrDeath rt.net actor.inbox (actor.earliestDue.map (·.2.2)) rt.clock
      rt.deathWatch waker = (.Ready (.Delivery (some ⟨peer, self, .Harness reply⟩)), net, none) := by
    simp only [nextOrDeadlineOrDeath, nextOrDeadline, hwatch, hdue, Inbox.next, hpolled]
    rfl
  have htaken : rt.taken self.name waker = some ⟨peer, self, .Harness reply⟩ := by
    simp only [taken, hactor, Option.bind_some, if_pos hquiet, hrace]
  have hpoll : (rt.poll self.name waker).2.1 =
      ({ rt with net }.step self.name (.Delivery (some ⟨peer, self, .Harness reply⟩))).rt := by
    simp only [LocalRuntime.poll, hactor, sweepDead_none hquiet, hrace]
  have hidle' : net.mailboxes.lookup peer = some ⟨[], waker''⟩ := by
    rw [← hnet, AList.lookup_insert_ne hapart.symm, hidle]
  have hsent : net.send self peer (.Harness (.Failed "not a harness actor")) =
      (.ok (), net.push ⟨self, peer, .Harness (.Failed "not a harness actor")⟩) := by
    rw [Shared.send, if_neg (by rw [← hnet]; exact hconnected.1)]
    simp only [hidle']
  have hprocess : process actor.allowlist ⟨peer, self, .Harness reply⟩ = .Harness reply peer :=
    process_admitted hallows
  rw [htaken, hpoll, step_delivery { rt with net } hactor hquiet]
  simp only [deliver, hprocess, hkind, ne_eq, reduceCtorEq, not_false_eq_true, if_true,
    sendAndReturn, send_rt, Transport.send, hsent, Shared.push, hidle']
  refine ⟨rfl, ⟨hapart.symm, ?_, ?_, ?_⟩, trivial, trivial⟩
  · rw [← hnet]
    exact hconnected.symm
  · exact ⟨_, _, rfl, AList.lookup_insert _⟩
  · refine ⟨waker', ?_⟩
    rw [AList.lookup_insert_ne hapart, ← hnet, AList.lookup_insert]

end LocalRuntime

namespace Fleet

open LocalRuntime

variable {ι : Type} [DecidableEq ι]

/-- Two plain actors of different runtimes admit each other, and one has a harness reply of the other
in its inbox. -/
structure Rally (fleet : Fleet ι) (i j : ι) (self peer : Address) : Prop where
  apart : i ≠ j
  here : Plays (fleet.runtimes i) self peer
  there : Plays (fleet.runtimes j) peer self
  served : Served fleet.net self peer

theorem Rally.move {fleet : Fleet ι} {i j : ι} {self peer : Address} (h : fleet.Rally i j self peer)
    (waker : Waker) :
    fleet.processes (.Poll i self.name waker) = true ∧
      (fleet.move (.Poll i self.name waker)).Rally j i peer self := by
  obtain ⟨hapart, ⟨hactor, hwatch⟩, hthere, hserved⟩ := h
  have hplays : Plays (fleet.runtime i) self peer := ⟨hactor, hwatch⟩
  obtain ⟨htaken, hserved', hactors, hwatch'⟩ := hplays.poll hserved waker
  refine ⟨htaken, hapart.symm, ?_, ?_, hserved'⟩
  · simp only [Fleet.move, Function.update_of_ne hapart.symm]
    exact hthere
  · simp only [Fleet.move, Function.update_self]
    refine ⟨?_, hwatch'.trans hwatch⟩
    rw [hactors]
    exact hactor

def volleys (i j : ι) (self peer : Address) (n : Nat) : Move ι :=
  if n % 2 = 0 then .Poll i self.name 0 else .Poll j peer.name 0

/-- One harness reply between them keeps the two actors busy for ever. -/
theorem rally_processed {fleet : Fleet ι} {i j : ι} {self peer : Address}
    (h : fleet.Rally i j self peer) (n : Nat) :
    fleet.processed ((List.range n).map (volleys i j self peer)) = n := by
  -- After each volley the other side is served.
  have hafter : ∀ n, fleet.processed ((List.range n).map (volleys i j self peer)) = n ∧
      if n % 2 = 0 then
        (Run.after move fleet ((List.range n).map (volleys i j self peer))).Rally i j self peer
      else (Run.after move fleet ((List.range n).map (volleys i j self peer))).Rally j i peer self := by
    intro n
    induction n with
    | zero => exact ⟨rfl, h⟩
    | succ n ih =>
      obtain ⟨hprocessed, hrally⟩ := ih
      simp only [List.range_succ, List.map_append, List.map_singleton, processed, Run.cost_append,
        Run.after_append, Run.after_cons, Run.after_nil, Run.cost] at hprocessed ⊢
      rw [hprocessed]
      by_cases heven : n % 2 = 0
      · rw [if_pos heven] at hrally
        rw [if_neg (by omega), volleys, if_pos heven, (hrally.move 0).1]
        exact ⟨rfl, (hrally.move 0).2⟩
      · rw [if_neg heven] at hrally
        rw [if_pos (by omega), volleys, if_neg heven, (hrally.move 0).1]
        exact ⟨rfl, (hrally.move 0).2⟩
  exact (hafter n).1

section

open Sample

/-- Alice and Bob are plain actors and admit each other. A `Pong` from Alice waits for Bob. -/
def pongFleet : Fleet Bool :=
  let alices := ((LocalRuntime.new alice.endpoint .new 0 patience).install alice.name
    (Allowlist.empty.admitEndpoint bob.endpoint) patience .Plain).rt
  let bobs := ((LocalRuntime.new bob.endpoint alices.net 0 patience).install bob.name
    (Allowlist.empty.admitEndpoint alice.endpoint) patience .Plain).rt
  ⟨(bobs.net.send alice bob (.Harness .Pong)).2.1, fun side => if side then bobs else alices⟩

/-- The `Pong` opens nothing, and the deliveries that come of it are not finitely many. -/
theorem pong_never_quiesces :
    opens (.Harness .Pong) = false ∧
      ¬ ∃ bound, ∀ n, pongFleet.processed
        ((List.range n).map (volleys true false bob alice)) ≤ bound := by
  refine ⟨rfl, fun ⟨bound, h⟩ => ?_⟩
  have hrally : pongFleet.Rally true false bob alice := by
    refine ⟨by decide, ⟨⟨_, rfl, rfl, rfl, by decide, rfl⟩, rfl⟩,
      ⟨⟨_, rfl, rfl, rfl, by decide, rfl⟩, rfl⟩, ⟨by decide, by decide, ?_, ?_⟩⟩
    · exact ⟨.Pong, none, rfl, by decide⟩
    · exact ⟨none, by decide⟩
  have := h (bound + 1)
  rw [rally_processed hrally] at this
  omega

end

end Fleet

end Kamiroh
