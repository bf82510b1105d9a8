import Kamiroh.Phone.Basic
import Kamiroh.Runtime.Steps

/-!
# Arming a wait

A due instant is the sum of a clock reading and a patience. The instants of a timer are finite in
number, so the sum can fall outside of them. The phone and the runtime are here with the sums of a
timer, beside the models whose instants have no bound.
-/

namespace Kamiroh

open TurnState

/-! ## The sums of a timer -/

/-- The instants of a timer are the counts of nanoseconds below `range`. A sum outside of them panics
with the text `overflow`, or wraps where there is none. -/
structure Timer where
  range : Nat
  pos : 0 < range
  overflow : Option String

/-- `Duration::MAX`. -/
def Duration.max : Duration := (2 ^ 64 - 1) * 10 ^ 9 + 999999999

/-- An `Instant` counts its seconds in an `i64`. -/
def tokioTimer : Timer :=
  ⟨2 ^ 63 * 10 ^ 9, by decide, some "overflow when adding duration to instant"⟩

/-- A `TestInstant` is a `u128`. Its sums are checked or not as the build says. -/
def testTimer (checks : Bool) : Timer :=
  ⟨2 ^ 128, by decide, if checks then some "attempt to add with overflow" else none⟩

structure Waits where
  ackDue : Option (RequestId × Instant)
  turnDue : Option Instant
deriving DecidableEq

namespace Timer

def add (timer : Timer) (now : Instant) (patience : Duration) : Except String Instant :=
  if now + patience < timer.range then .ok (now + patience)
  else
    match timer.overflow with
    | some message => .error message
    | none => .ok ((now + patience) % timer.range)

def ackDue (timer : Timer) (now : Instant) (deadlines : Deadlines) (posed : Option RequestId) :
    Except String (Option (RequestId × Instant)) :=
  match posed with
  | some id => (timer.add now deadlines.ack).map fun due => some (id, due)
  | none => .ok none

def turnDue (timer : Timer) (now : Instant) (deadlines : Deadlines) (progress : TurnProgress) :
    Except String (Option Instant) :=
  match progress with
  | .Continuing => (timer.add now deadlines.turn).map some
  | .Concluded => .ok none

/-- The two assignments that arm the waits of a turn. A sum that panics leaves its own wait and the next
one as they were. -/
def arm (timer : Timer) (now : Instant) (deadlines : Deadlines) (posed : Option RequestId)
    (progress : TurnProgress) (waits : Waits) : Except String Unit × Waits :=
  match timer.ackDue now deadlines posed with
  | .error message => (.error message, waits)
  | .ok ackDue =>
    match timer.turnDue now deadlines progress with
    | .error message => (.error message, { waits with ackDue })
    | .ok turnDue => (.ok (), ⟨ackDue, turnDue⟩)

/-- Both sums are instants of the timer. -/
def Reaches (timer : Timer) (now : Instant) (deadlines : Deadlines) : Prop :=
  now + deadlines.ack < timer.range ∧ now + deadlines.turn < timer.range

instance (timer : Timer) (now : Instant) (deadlines : Deadlines) :
    Decidable (timer.Reaches now deadlines) := inferInstanceAs (Decidable (_ ∧ _))

end Timer

/-- The waits of a turn, at instants that have no bound. -/
def Waits.exact (now : Instant) (deadlines : Deadlines) (posed : Option RequestId)
    (progress : TurnProgress) : Waits where
  ackDue := posed.map fun id => (id, now + deadlines.ack)
  turnDue :=
    match progress with
    | .Continuing => some (now + deadlines.turn)
    | .Concluded => none

namespace Timer

variable {timer : Timer} {now : Instant} {deadlines : Deadlines}

theorem add_of_lt {patience : Duration} (h : now + patience < timer.range) :
    timer.add now patience = .ok (now + patience) := if_pos h

theorem add_of_panic {patience : Duration} {message : String} (h : ¬ now + patience < timer.range)
    (hoverflow : timer.overflow = some message) : timer.add now patience = .error message := by
  unfold add
  rw [if_neg h, hoverflow]

theorem add_of_wrap (now : Instant) (hoverflow : timer.overflow = none) (patience : Duration) :
    ∃ due, timer.add now patience = .ok due ∧ due < timer.range := by
  unfold add
  split
  · exact ⟨_, rfl, by assumption⟩
  · rw [hoverflow]
    exact ⟨_, rfl, Nat.mod_lt _ timer.pos⟩

theorem arm_concluded (waits : Waits) :
    timer.arm now deadlines none .Concluded waits =
      (.ok (), .exact now deadlines none .Concluded) := rfl

theorem arm_of_reaches {id : RequestId} (h : timer.Reaches now deadlines) (waits : Waits) :
    timer.arm now deadlines (some id) .Continuing waits =
      (.ok (), .exact now deadlines (some id) .Continuing) := by
  simp only [arm, ackDue, turnDue, add_of_lt h.1, add_of_lt h.2]
  rfl

theorem arm_of_panic (id : RequestId) {message : String} (h : ¬ timer.Reaches now deadlines)
    (hoverflow : timer.overflow = some message) (waits : Waits) :
    (timer.arm now deadlines (some id) .Continuing waits).1 = .error message := by
  unfold arm ackDue turnDue
  by_cases hack : now + deadlines.ack < timer.range
  · have hturn : ¬ now + deadlines.turn < timer.range := fun hturn => h ⟨hack, hturn⟩
    rw [add_of_lt hack, add_of_panic hturn hoverflow]
    rfl
  · rw [add_of_panic hack hoverflow]
    rfl

theorem arm_of_wrap (id : RequestId) (h : ¬ timer.Reaches now deadlines)
    (hoverflow : timer.overflow = none) (waits : Waits) :
    ∃ wrapped, timer.arm now deadlines (some id) .Continuing waits = (.ok (), wrapped) ∧
      wrapped ≠ .exact now deadlines (some id) .Continuing := by
  obtain ⟨ack, hack, hacklt⟩ := timer.add_of_wrap now hoverflow deadlines.ack
  obtain ⟨turn, hturn, hturnlt⟩ := timer.add_of_wrap now hoverflow deadlines.turn
  refine ⟨⟨some (id, ack), some turn⟩, ?_, fun hexact => h ?_⟩
  · simp only [arm, ackDue, turnDue, hack, hturn]
    rfl
  · simp only [Waits.exact, Option.map_some, Waits.mk.injEq, Option.some.injEq, Prod.mk.injEq,
      true_and] at hexact
    obtain ⟨rfl, rfl⟩ := hexact
    exact ⟨hacklt, hturnlt⟩

theorem arm_eq_iff (now : Instant) (deadlines : Deadlines) (posed : Option RequestId)
    {progress : TurnProgress} (hprogress : progress = .Continuing ↔ posed.isSome) (waits : Waits) :
    timer.arm now deadlines posed progress waits = (.ok (), .exact now deadlines posed progress) ↔
      (posed.isSome → timer.Reaches now deadlines) := by
  cases posed with
  | none =>
    cases progress with
    | Continuing => simp at hprogress
    | Concluded => exact ⟨fun _ => nofun, fun _ => arm_concluded waits⟩
  | some id =>
    obtain rfl : progress = .Continuing := hprogress.mpr rfl
    refine ⟨fun hexact _ => ?_, fun h => arm_of_reaches (h rfl) waits⟩
    by_contra h
    cases hoverflow : timer.overflow with
    | some message =>
      have hpanic := arm_of_panic id h hoverflow waits
      rw [hexact] at hpanic
      cases hpanic
    | none =>
      obtain ⟨wrapped, harm, hne⟩ := arm_of_wrap id h hoverflow waits
      rw [harm] at hexact
      injection hexact with _ hexact
      exact hne hexact

/-- A build without the checks wraps. -/
example : (testTimer false).turnDue (2 ^ 128 - 1) ⟨1, 2⟩ .Continuing = .ok (some 1) := by decide

end Timer

/-! ## The phone -/

namespace Phone

variable {N : Type}

/-- `sendTurn`, with the sums of a timer. An error outside is the text of a panic. -/
def sendTurnOn [Transport N] (timer : Timer) (phone : Phone) (net : N) (now : Instant) (turn : Turn) :
    Except String (Except PhoneError TurnProgress) × Phone × N :=
  let stepped := phone.state.onOutgoing turn
  match stepped.1 with
  | .error error => (.ok (.error (.Turn error)), { phone with state := stepped.2 }, net)
  | .ok progress =>
    match Transport.send net phone.selfAddress phone.peer (.Turn turn) with
    | (.error text, net) =>
      (.ok (.error (.Transport text)),
        { phone with state := stepped.2.fail.2, ackDue := none, turnDue := none }, net)
    | (.ok (), net) =>
      let armed := timer.arm now phone.deadlines turn.posed progress ⟨phone.ackDue, phone.turnDue⟩
      (armed.1.map fun _ => .ok progress,
        { phone with state := stepped.2, ackDue := armed.2.ackDue, turnDue := armed.2.turnDue }, net)

/-- A phone that panics is dropped. -/
def fannedOn (timer : Timer) (selfAddress peer : Address) (deadlines : Deadlines) (now : Instant)
    (request : Request) : Except String Phone :=
  let phone := converse selfAddress peer deadlines
  let armed := timer.arm now deadlines (some request.id) .Continuing ⟨phone.ackDue, phone.turnDue⟩
  armed.1.map fun _ =>
    { phone with
      state := (phone.state.onOutgoing (.Open request)).2
      ackDue := armed.2.ackDue
      turnDue := armed.2.turnDue }

def openManyOn [FanOut N] (timer : Timer) (net : N) (now : Instant) (selfAddress : Address)
    (endpoint : EndpointId) (names : List ActorName) (request : Request) (deadlines : Deadlines) :
    Except String (Except PhoneError (List Phone)) × N :=
  match FanOut.openMany net selfAddress endpoint names request with
  | (.error text, net) => (.ok (.error (.Transport text)), net)
  | (.ok (), net) =>
    let phones := names.mapM fun name => fannedOn timer selfAddress ⟨endpoint, name⟩ deadlines now request
    (phones.map .ok, net)

theorem posed_of_ok {state : TurnState} {turn : Turn} {progress : TurnProgress}
    (h : (state.onOutgoing turn).1 = .ok progress) : progress = .Continuing ↔ turn.posed.isSome := by
  rcases (onOutgoing_ok_iff ..).mp h with _ | _ | _ <;> simp

theorem sendTurnOn_eq_iff [Transport N] (timer : Timer) (phone : Phone) (net : N) (now : Instant)
    (turn : Turn) :
    phone.sendTurnOn timer net now turn =
        (.ok (phone.sendTurn net now turn).1, (phone.sendTurn net now turn).2) ↔
      ((phone.state.onOutgoing turn).1.isOk →
        (Transport.send net phone.selfAddress phone.peer (.Turn turn)).1.isOk →
        turn.posed.isSome → timer.Reaches now phone.deadlines) := by
  unfold sendTurnOn sendTurn
  cases hlegal : (phone.state.onOutgoing turn).1 with
  | error error => simp [hlegal, Except.isOk, Except.toBool]
  | ok progress =>
    rcases hsent : Transport.send net phone.selfAddress phone.peer (.Turn turn) with ⟨_ | _, net'⟩
    · simp [hlegal, Except.isOk, Except.toBool]
    · have harm := timer.arm_eq_iff now phone.deadlines turn.posed
        (posed_of_ok hlegal) ⟨phone.ackDue, phone.turnDue⟩
      simp only [hlegal, Except.isOk, Except.toBool, true_implies]
      rw [← harm]
      rcases timer.arm now phone.deadlines turn.posed progress ⟨phone.ackDue, phone.turnDue⟩ with
        ⟨_ | _, ackDue, turnDue⟩
      · simp [Except.map]
      · cases progress <;> simp [Except.map, Waits.exact]

theorem fannedOn_eq_iff (timer : Timer) (selfAddress peer : Address) (deadlines : Deadlines)
    (now : Instant) (request : Request) :
    fannedOn timer selfAddress peer deadlines now request =
        .ok (fanned selfAddress peer deadlines now request) ↔ timer.Reaches now deadlines := by
  have harm := timer.arm_eq_iff now deadlines (some request.id) (by simp : .Continuing = _ ↔ _)
    ⟨none, none⟩
  simp only [Option.isSome_some, true_implies] at harm
  rw [← harm]
  simp only [fannedOn, fanned, converse]
  rcases timer.arm now deadlines (some request.id) .Continuing ⟨none, none⟩ with
    ⟨_ | _, ackDue, turnDue⟩
  · simp [Except.map]
  · simp [Except.map, Waits.exact]

theorem mapM_eq_map_iff {α β : Type} {f : α → Except String β} {g : α → β} {as : List α} :
    as.mapM f = .ok (as.map g) ↔ ∀ a ∈ as, f a = .ok (g a) := by
  induction as with
  | nil => simp [pure, Except.pure]
  | cons a as ih =>
    rw [List.mapM_cons, List.map_cons, List.forall_mem_cons, ← ih]
    cases f a with
    | error message => simp [bind, Except.bind]
    | ok b => cases as.mapM f <;> simp [bind, Except.bind, pure, Except.pure]

theorem openManyOn_eq_iff [FanOut N] (timer : Timer) (net : N) (now : Instant) (selfAddress : Address)
    (endpoint : EndpointId) (names : List ActorName) (request : Request) (deadlines : Deadlines) :
    openManyOn timer net now selfAddress endpoint names request deadlines =
        (.ok (openMany net now selfAddress endpoint names request deadlines).1,
          (openMany net now selfAddress endpoint names request deadlines).2) ↔
      ((FanOut.openMany net selfAddress endpoint names request).1.isOk → names ≠ [] →
        timer.Reaches now deadlines) := by
  unfold openManyOn openMany
  rcases FanOut.openMany net selfAddress endpoint names request with ⟨_ | _, net'⟩
  · simp [Except.isOk, Except.toBool]
  · simp only [Except.isOk, Except.toBool, true_implies]
    have hphones : (names.mapM fun name =>
        fannedOn timer selfAddress ⟨endpoint, name⟩ deadlines now request) =
          .ok (names.map fun name => fanned selfAddress ⟨endpoint, name⟩ deadlines now request) ↔
        (names ≠ [] → timer.Reaches now deadlines) := by
      rw [mapM_eq_map_iff]
      simp only [fannedOn_eq_iff]
      cases names with
      | nil => simp
      | cons name names => simp +contextual
    rw [← hphones]
    cases names.mapM fun name => fannedOn timer selfAddress ⟨endpoint, name⟩ deadlines now request with
    | error message => simp [Except.map]
    | ok phones => simp [Except.map]

end Phone

/-! ## The runtime -/

namespace LocalRuntime

variable {P N Ib : Type}

section

variable [Party P] [Transport N]

/-- `answer`, with the sums of a timer. An error is the text of a panic: the machine has moved, and the
reply has not been sent. -/
def answerOn (timer : Timer) (rt : LocalRuntime P N Ib) (name : ActorName) (actor : LocalActor P Ib)
    (self peer : Address) (reply : Turn) : Ran P N Ib (Except String Stepped) :=
  let here := rt.address name
  let ps := actor.peer peer
  let replied := ps.state.onOutgoing reply
  let moved := Effect.Moved here peer ps.state replied.2
  match replied.1 with
  | .error _ =>
    let failed := rt.failExchange name (actor.setPeer peer { ps with state := replied.2 }) peer .IllegalReply
    ⟨.ok failed.result, failed.rt, moved :: failed.effects⟩
  | .ok progress =>
    let armed := timer.arm rt.clock actor.deadlines reply.posed progress ⟨ps.ackDue, ps.turnDue⟩
    let actor := actor.setPeer peer ⟨replied.2, armed.2.ackDue, armed.2.turnDue⟩
    match armed.1 with
    | .error message => ⟨.error message, rt.setActor name actor, [moved]⟩
    | .ok () =>
      let sent := rt.send self peer (.Turn reply)
      match sent.result with
      | .ok () => ⟨.ok .Delivered, sent.rt.setActor name actor, moved :: sent.effects⟩
      | .error _ =>
        let failed := sent.rt.failExchange name actor peer .SendFailed
        ⟨.ok failed.result, failed.rt, moved :: sent.effects ++ failed.effects⟩

def takeTurnOn (timer : Timer) (rt : LocalRuntime P N Ib) (name : ActorName) (actor : LocalActor P Ib)
    (self peer : Address) (turn : Turn) (ack : Option Message) :
    Ran P N Ib (Except String Stepped) :=
  let here := rt.address name
  let ps := actor.peer peer
  let heard := ps.state.onIncoming turn
  let moved := Effect.Moved here peer ps.state heard.2
  match heard.1 with
  | .error error =>
    ⟨.ok .Delivered, rt.setActor name (actor.setPeer peer { ps with state := heard.2 }),
      moved :: rt.emit (.IllegalTurnDropped peer self error)⟩
  | .ok _ =>
    let actor := actor.setPeer peer ⟨heard.2, none, none⟩
    let acked := rt.receipt self peer ack
    let handed := actor.handOver here peer turn
    match handed.1 with
    | none => ⟨.ok .Delivered, acked.rt.setActor name handed.2.1, moved :: acked.effects ++ handed.2.2⟩
    | some reply =>
      let answered := acked.rt.answerOn timer name handed.2.1 self peer reply
      { answered with effects := moved :: acked.effects ++ handed.2.2 ++ answered.effects }

variable [Registry N Ib]

def outcome : Except String Stepped → Outcome
  | .ok stepped => .Returned (.ok stepped)
  | .error message => .Panicked message

def deliverOn (timer : Timer) (rt : LocalRuntime P N Ib) (name : ActorName) (actor : LocalActor P Ib)
    (delivery : Delivery) : Ran P N Ib Outcome :=
  match process actor.allowlist delivery with
  | .Turn turn _ replyTo ack =>
    let rt := { rt with dead := rt.dead.erase delivery.origin.endpoint }
    let taken := rt.takeTurnOn timer name actor delivery.target replyTo turn ack
    { taken with result := outcome taken.result }
  -- No other delivery arms a wait.
  | _ => rt.deliver name actor delivery

def stepOn (timer : Timer) (rt : LocalRuntime P N Ib) (name : ActorName) (waited : Waited) :
    Ran P N Ib Outcome :=
  match rt.actors name, waited with
  | some actor, .Delivery (some delivery) =>
    let swept := rt.sweepDead name actor
    match swept.result with
    | some stepped => { swept with result := .Returned (.ok stepped) }
    | none => rt.deliverOn timer name actor delivery
  -- No other step takes a turn.
  | _, _ => rt.step name waited

end

/-- The step hands a turn to the actor's party, and the party answers. `acked` is the runtime after the
receipt, and `taken` the actor with what the party has become. -/
inductive Replies [Party P] [Transport N] (rt : LocalRuntime P N Ib) (name : ActorName) :
    Waited → LocalRuntime P N Ib → LocalActor P Ib → Address → Address → Turn → Prop
  | reply {actor taken : LocalActor P Ib} {self peer : Address} {turn reply : Turn}
      {progress : TurnProgress} {effects : List Effect} (hactor : rt.actors name = some actor)
      (hquiet : actor.affected (· ∈ rt.dead) = [])
      (hadmitted : actor.allowlist.allows peer.endpoint = true)
      (hlegal : ((actor.peer peer).state.onIncoming turn).1 = .ok progress)
      (hreply : (hear actor peer turn).handOver (rt.address name) peer turn =
        (some reply, taken, effects)) :
      Replies rt name (.Delivery (some ⟨peer, self, .Turn turn⟩))
        ((rt.heardFrom peer.endpoint).receipt self peer
          (turn.request.map fun request => .Ack ⟨request.id⟩)).rt taken self peer reply

/-- A method that returned. -/
def returned {α : Type} (ran : Ran P N Ib α) : Ran P N Ib (Except String α) :=
  ⟨.ok ran.result, ran.rt, ran.effects⟩

theorem outcome_eq_iff (ran : Ran P N Ib (Except String Stepped)) (ran' : Ran P N Ib Stepped) :
    (⟨outcome ran.result, ran.rt, ran.effects⟩ : Ran P N Ib Outcome) =
        ⟨.Returned (.ok ran'.result), ran'.rt, ran'.effects⟩ ↔ ran = returned ran' := by
  obtain ⟨_ | stepped, rt, effects⟩ := ran <;> simp [outcome, returned]

theorem armed_exact (state : TurnState) (reply : Turn) (progress : TurnProgress) (now : Instant)
    (deadlines : Deadlines) :
    (⟨state, (Waits.exact now deadlines reply.posed progress).ackDue,
      (Waits.exact now deadlines reply.posed progress).turnDue⟩ : PeerState) =
      .armed state reply progress now deadlines := by
  cases reply <;> rfl

section

variable [Party P]

theorem failExchange_waits (rt : LocalRuntime P N Ib) (name : ActorName) (actor : LocalActor P Ib)
    (peer : Address) (cause : FailureCause) (state : TurnState) (waits waits' : Waits) :
    rt.failExchange name (actor.setPeer peer ⟨state, waits.ackDue, waits.turnDue⟩) peer cause =
      rt.failExchange name (actor.setPeer peer ⟨state, waits'.ackDue, waits'.turnDue⟩) peer cause := by
  have hmodify (waits : Waits) : Assoc.modify (actor.conversations.insert peer
      ⟨state, waits.ackDue, waits.turnDue⟩) peer PeerState.fail =
        actor.conversations.insert peer ⟨state.fail.2, none, none⟩ := by
    rw [Assoc.modify_of_lookup _ (AList.lookup_insert _), AList.insert_insert]
    rfl
  simp only [failExchange, LocalActor.failExchange, LocalActor.setPeer, AList.lookup_insert, hmodify]

variable [Transport N]

theorem answerOn_eq_iff (timer : Timer) (rt : LocalRuntime P N Ib) (name : ActorName)
    (actor : LocalActor P Ib) (self peer : Address) (reply : Turn) :
    rt.answerOn timer name actor self peer reply = returned (rt.answer name actor self peer reply) ↔
      (((actor.peer peer).state.onOutgoing reply).1.isOk → reply.posed.isSome →
        timer.overflow.isSome ∨ (rt.send self peer (.Turn reply)).result.isOk →
        timer.Reaches rt.clock actor.deadlines) := by
  unfold answerOn answer returned
  cases hlegal : ((actor.peer peer).state.onOutgoing reply).1 with
  | error error => simp [hlegal, Except.isOk, Except.toBool]
  | ok progress =>
    have hprogress := Phone.posed_of_ok hlegal
    simp only [hlegal, ← armed_exact]
    by_cases hreaches : reply.posed.isSome → timer.Reaches rt.clock actor.deadlines
    · rw [(timer.arm_eq_iff rt.clock actor.deadlines reply.posed hprogress _).mpr hreaches]
      refine ⟨fun _ _ hposed _ => hreaches hposed, fun _ => ?_⟩
      cases (rt.send self peer (.Turn reply)).result <;> rfl
    · obtain ⟨hposed, hreaches⟩ := Classical.not_imp.mp hreaches
      obtain ⟨id, hid⟩ := Option.isSome_iff_exists.mp hposed
      obtain rfl := hprogress.mpr hposed
      rw [hid]
      cases hoverflow : timer.overflow with
      | some message =>
        have hpanic := Timer.arm_of_panic id hreaches hoverflow
          ⟨(actor.peer peer).ackDue, (actor.peer peer).turnDue⟩
        simp [hpanic, hreaches, Except.isOk, Except.toBool]
      | none =>
        obtain ⟨wrapped, harm, hne⟩ := Timer.arm_of_wrap id hreaches hoverflow
          ⟨(actor.peer peer).ackDue, (actor.peer peer).turnDue⟩
        rw [harm]
        cases hsent : (rt.send self peer (.Turn reply)).result with
        | error error =>
          -- The exchange fails, and the wrong waits are gone with it.
          simp only [Option.isSome_none, Except.isOk, Except.toBool, Bool.false_eq_true, or_self,
            false_implies, implies_true, iff_true]
          rw [failExchange_waits _ _ _ _ _ _ wrapped]
        | ok _ =>
          simp only [Option.isSome_some, Except.isOk, Except.toBool, or_true, true_implies]
          refine ⟨fun hsame => ?_, fun h => absurd h hreaches⟩
          have hactors := congrArg (fun ran => (ran.rt.actors name).map (·.peer peer)) hsame
          simp only [setActor_self, Option.map_some, LocalActor.peer_setPeer_self, Option.some.injEq,
            PeerState.mk.injEq, true_and] at hactors
          refine absurd ?_ hne
          obtain ⟨ackDue, turnDue⟩ := wrapped
          rw [Waits.mk.injEq]
          exact hactors

theorem takeTurnOn_eq_iff (timer : Timer) (rt : LocalRuntime P N Ib) (name : ActorName)
    (actor : LocalActor P Ib) (self peer : Address) (turn : Turn) (ack : Option Message) :
    rt.takeTurnOn timer name actor self peer turn ack =
        returned (rt.takeTurn name actor self peer turn ack) ↔
      ∀ progress reply taken effects, ((actor.peer peer).state.onIncoming turn).1 = .ok progress →
        (hear actor peer turn).handOver (rt.address name) peer turn = (some reply, taken, effects) →
        (rt.receipt self peer ack).rt.answerOn timer name taken self peer reply =
          returned ((rt.receipt self peer ack).rt.answer name taken self peer reply) := by
  unfold takeTurnOn takeTurn returned hear
  cases hlegal : ((actor.peer peer).state.onIncoming turn).1 with
  | error error => simp [hlegal]
  | ok progress =>
    simp only [hlegal, onIncoming_state _ _ _ hlegal]
    rcases hhanded : (actor.setPeer peer ⟨afterTurn .OweThem turn, none, none⟩).handOver (rt.address name)
      peer turn with ⟨_ | reply, taken, effects⟩
    · simp
    · dsimp only
      constructor
      · rintro h _ _ _ _ _ ⟨⟩
        generalize (rt.receipt self peer ack).rt.answerOn timer name taken self peer reply = ran at h ⊢
        obtain ⟨result, rt', effects'⟩ := ran
        simpa only [Ran.mk.injEq, List.append_cancel_left_eq] using h
      · intro h
        rw [h progress reply taken effects rfl rfl]

variable [Registry N Ib]

theorem deliverOn_turn_eq_iff (timer : Timer) (rt : LocalRuntime P N Ib) (name : ActorName)
    {actor : LocalActor P Ib} {peer : Address} (hadmitted : actor.allowlist.allows peer.endpoint = true)
    (self : Address) (turn : Turn) :
    rt.deliverOn timer name actor ⟨peer, self, .Turn turn⟩ =
        rt.deliver name actor ⟨peer, self, .Turn turn⟩ ↔
      (rt.heardFrom peer.endpoint).takeTurnOn timer name actor self peer turn
          (turn.request.map fun request => .Ack ⟨request.id⟩) =
        returned ((rt.heardFrom peer.endpoint).takeTurn name actor self peer turn
          (turn.request.map fun request => .Ack ⟨request.id⟩)) := by
  have hprocess : process actor.allowlist ⟨peer, self, .Turn turn⟩ =
      .Turn turn self peer (turn.request.map fun request => .Ack ⟨request.id⟩) :=
    process_admitted hadmitted
  rw [deliver_turn rt name hadmitted]
  unfold deliverOn returned
  rw [hprocess]
  exact outcome_eq_iff ..

theorem deliverOn_other (timer : Timer) (rt : LocalRuntime P N Ib) (name : ActorName)
    {actor : LocalActor P Ib} {delivery : Delivery}
    (h : actor.allowlist.allows delivery.origin.endpoint = true → ∀ turn, delivery.message ≠ .Turn turn) :
    rt.deliverOn timer name actor delivery = rt.deliver name actor delivery := by
  unfold deliverOn
  split
  · rename_i hprocess
    unfold process admitDelivery at hprocess
    cases hadmitted : actor.allowlist.allows delivery.origin.endpoint with
    | false => simp [hadmitted] at hprocess
    | true =>
      cases hmessage : delivery.message with
      | Turn turn => exact absurd hmessage (h hadmitted turn)
      | Request _ | Ack _ | Harness _ => simp [hadmitted, hmessage] at hprocess
  · rfl

theorem stepOn_eq_iff (timer : Timer) (rt : LocalRuntime P N Ib) (name : ActorName) (waited : Waited) :
    rt.stepOn timer name waited = rt.step name waited ↔
      ∀ acked taken self peer reply, Replies rt name waited acked taken self peer reply →
        acked.answerOn timer name taken self peer reply =
          returned (acked.answer name taken self peer reply) := by
  constructor
  · rintro hsame acked taken self peer reply ⟨hactor, hquiet, hadmitted, hlegal, hreply⟩
    rw [step_delivery rt hactor hquiet] at hsame
    simp only [stepOn, hactor, sweepDead_none hquiet] at hsame
    rw [deliverOn_turn_eq_iff timer rt name hadmitted, takeTurnOn_eq_iff] at hsame
    exact hsame _ _ _ _ hlegal hreply
  · intro h
    unfold stepOn
    split
    · rename_i actor delivery hactor
      cases hquiet : actor.affected (· ∈ rt.dead) with
      | cons first rest =>
        have hsome : actor.affected (· ∈ rt.dead) ≠ [] := by simp [hquiet]
        obtain ⟨endpoint, -, -, hswept⟩ := sweepDead_some rt name hsome
        simp only [step, hactor, hswept]
      | nil =>
        rw [step_delivery rt hactor hquiet]
        simp only [sweepDead_none hquiet]
        obtain ⟨peer, self, message⟩ := delivery
        by_cases hturn : actor.allowlist.allows peer.endpoint = true ∧ ∃ turn, message = .Turn turn
        · obtain ⟨hadmitted, turn, rfl⟩ := hturn
          rw [deliverOn_turn_eq_iff timer rt name hadmitted, takeTurnOn_eq_iff]
          intro progress reply taken effects hlegal hreply
          exact h _ _ _ _ _ (.reply hactor hquiet hadmitted hlegal hreply)
        · exact deliverOn_other timer rt name fun hadmitted turn hmessage =>
            hturn ⟨hadmitted, turn, hmessage⟩
    · rfl

omit [Registry N Ib] in
theorem Replies.clock {rt acked : LocalRuntime P N Ib} {name : ActorName} {waited : Waited}
    {taken : LocalActor P Ib} {self peer : Address} {reply : Turn}
    (h : Replies rt name waited acked taken self peer reply) : acked.clock = rt.clock := by
  obtain ⟨_, _, _, _, _⟩ := h
  rw [receipt_rt]
  rfl

end

end LocalRuntime

/-! ## The three sites -/

/-- What goes out with a request half is armed, at the instants that it should be and with no panic, just
if both sums are instants of the timer. Nothing else at the three sites depends on the timer. A reply that
the transport refuses is let off by a timer that wraps: its waits go with the exchange. -/
theorem arms_exactly {P N Ib : Type} [Party P] [Transport N] [FanOut N] [Registry N Ib] (timer : Timer) :
    (∀ (phone : Phone) (net : N) (now : Instant) (turn : Turn),
      phone.sendTurnOn timer net now turn =
          (.ok (phone.sendTurn net now turn).1, (phone.sendTurn net now turn).2) ↔
        ((phone.state.onOutgoing turn).1.isOk →
          (Transport.send net phone.selfAddress phone.peer (.Turn turn)).1.isOk →
          turn.posed.isSome → timer.Reaches now phone.deadlines)) ∧
    (∀ (net : N) (now : Instant) (selfAddress : Address) (endpoint : EndpointId)
        (names : List ActorName) (request : Request) (deadlines : Deadlines),
      Phone.openManyOn timer net now selfAddress endpoint names request deadlines =
          (.ok (Phone.openMany net now selfAddress endpoint names request deadlines).1,
            (Phone.openMany net now selfAddress endpoint names request deadlines).2) ↔
        ((FanOut.openMany net selfAddress endpoint names request).1.isOk → names ≠ [] →
          timer.Reaches now deadlines)) ∧
    ∀ (rt : LocalRuntime P N Ib) (name : ActorName) (waited : Waited),
      rt.stepOn timer name waited = rt.step name waited ↔
        ∀ acked taken self peer reply, rt.Replies name waited acked taken self peer reply →
          ((taken.peer peer).state.onOutgoing reply).1.isOk → reply.posed.isSome →
          timer.overflow.isSome ∨ (acked.send self peer (.Turn reply)).result.isOk →
          timer.Reaches rt.clock taken.deadlines := by
  refine ⟨Phone.sendTurnOn_eq_iff timer, Phone.openManyOn_eq_iff timer, fun rt name waited => ?_⟩
  rw [LocalRuntime.stepOn_eq_iff]
  constructor
  · intro h acked taken self peer reply hreplies
    rw [← hreplies.clock]
    exact (LocalRuntime.answerOn_eq_iff ..).mp (h acked taken self peer reply hreplies)
  · intro h acked taken self peer reply hreplies
    rw [LocalRuntime.answerOn_eq_iff, hreplies.clock]
    exact h acked taken self peer reply hreplies

open Sample

/-- Alice has no limit in mind, and opens an exchange with bob. The turn is in his mailbox, she waits for
his answer, and nothing is armed. -/
theorem arming_overflows :
    let net := (Shared.new.register bob).2
    let phone := Phone.converse alice bob ⟨Duration.max, Duration.max⟩
    let sent := phone.sendTurnOn tokioTimer net 1 (.Open (request 1))
    1 < tokioTimer.range ∧ (phone.state.onOutgoing (.Open (request 1))).1 = .ok .Continuing ∧
      sent.1 = .error "overflow when adding duration to instant" ∧
      (sent.2.2.mailboxes.lookup bob).map (·.queue) = some [⟨alice, bob, .Turn (.Open (request 1))⟩] ∧
      sent.2.1.state = .AwaitingTheirTurn (request 1).id ∧ sent.2.1.nextDue = none := by
  decide +kernel

end Kamiroh
