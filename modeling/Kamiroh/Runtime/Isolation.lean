import Kamiroh.Runtime.Revocations
import Kamiroh.Runtime.Shadows

/-!
# Conversations do not bleed into each other

All peers of an actor share one party and one map of conversations. `Seat` is a machine for one peer
alone. A run with a stock party is, for each peer, a run of that peer's seat.
-/

namespace Kamiroh

open TurnState

variable {Q N Ib : Type} [Party Q]

/-! ## A stock party for one peer -/

/-- The stock party as if it knew no peer but `p`. -/
def alone (p : Address) : Boxed (Hosted Q) → Boxed (Hosted Q)
  | .echo party => .echo ⟨(∅ : Assoc Address TurnState).insert p (party.state p)⟩
  | .app (.countdown party) =>
    .app (.countdown ⟨party.rounds, (∅ : Assoc Address Countdown).insert p (party.peer p)⟩)
  | .app (.own party) => .app (.own party)

/-- A stock party treats a peer as if there were no other. -/
theorem onTurn_alone {party : Boxed (Hosted Q)} (hstock : (shadow party).isSome = true) (p : Address)
    (turn : Turn) :
    Party.onTurn (alone p party) p turn =
      (alone p (Party.onTurn party p turn).1, (Party.onTurn party p turn).2) := by
  rcases party with party | party | party
  · have hstate : (⟨(∅ : Assoc Address TurnState).insert p (party.state p)⟩ : EchoParty).state p =
        party.state p := EchoParty.state_insert ⟨∅⟩ p _
    simp only [Party.onTurn, alone, EchoParty.onTurn, hstate]
    cases ((party.state p).onIncoming turn).1 with
    | error error => simp only [AList.insert_insert, EchoParty.state_insert]
    | ok progress =>
      cases turn.request with
      | none => simp only [AList.insert_insert, EchoParty.state_insert]
      | some request => simp only [AList.insert_insert, EchoParty.state_insert]
  · have hpeer : (⟨party.rounds, (∅ : Assoc Address Countdown).insert p (party.peer p)⟩ :
        CountdownParty).peer p = party.peer p := CountdownParty.peer_insert ⟨party.rounds, ∅⟩ p _
    simp only [Party.onTurn, alone, CountdownParty.onTurn, hpeer]
    cases ((party.peer p).state.onIncoming turn).1 with
    | error error => simp only [AList.insert_insert, CountdownParty.peer_insert]
    | ok progress =>
      cases turn.request with
      | none => simp only [AList.insert_insert, CountdownParty.peer_insert]
      | some request =>
        dsimp only
        split <;> simp only [AList.insert_insert, CountdownParty.peer_insert]
  · cases hstock

theorem EchoParty.onTurn_insert (party : EchoParty) (q : Address) (turn : Turn) :
    ∃ s, (party.onTurn q turn).1 = ⟨party.states.insert q s⟩ := by
  simp only [onTurn]
  split
  · exact ⟨_, rfl⟩
  · split <;> exact ⟨_, rfl⟩

theorem CountdownParty.onTurn_insert (party : CountdownParty) (q : Address) (turn : Turn) :
    ∃ c, (party.onTurn q turn).1 = ⟨party.rounds, party.peers.insert q c⟩ := by
  simp only [onTurn]
  split
  · exact ⟨_, rfl⟩
  · split
    · exact ⟨_, rfl⟩
    · split <;> exact ⟨_, rfl⟩

theorem onTurn_alone_of_ne (party : Boxed (Hosted Q)) {p q : Address} (h : p ≠ q) (turn : Turn)
    (hstock : (shadow party).isSome = true) :
    alone p (Party.onTurn party q turn).1 = alone p party := by
  rcases party with party | party | party
  · obtain ⟨s, hturn⟩ := party.onTurn_insert q turn
    simp only [Party.onTurn, hturn, alone, EchoParty.state, AList.lookup_insert_ne h]
  · obtain ⟨c, hturn⟩ := party.onTurn_insert q turn
    simp only [Party.onTurn, hturn, alone, CountdownParty.peer, AList.lookup_insert_ne h]
  · cases hstock

theorem onExchangeFailed_alone {party : Boxed (Hosted Q)} (hstock : (shadow party).isSome = true)
    (p : Address) (cause : FailureCause) :
    Party.onExchangeFailed (alone p party) p cause =
      alone p (Party.onExchangeFailed party p cause) := by
  rcases party with party | party | party
  · have hstate : (⟨party.states.modify p fun s => s.fail.2⟩ : EchoParty).state p =
        (party.state p).fail.2 := by
      simp only [EchoParty.state, Assoc.lookup_modify_self]
      cases party.states.lookup p <;> rfl
    simp only [Party.onExchangeFailed, EchoParty.onExchangeFailed, alone, hstate]
    rw [Assoc.modify_of_lookup _ (AList.lookup_insert _), AList.insert_insert]
  · have hpeer : (⟨party.rounds, party.peers.modify p fun c => { c with state := c.state.fail.2 }⟩ :
        CountdownParty).peer p = { party.peer p with state := (party.peer p).state.fail.2 } := by
      simp only [CountdownParty.peer, Assoc.lookup_modify_self]
      cases party.peers.lookup p <;> rfl
    simp only [Party.onExchangeFailed, CountdownParty.onExchangeFailed, alone, hpeer]
    rw [Assoc.modify_of_lookup _ (AList.lookup_insert _), AList.insert_insert]
  · cases hstock

theorem onTurn_stock (party : Boxed (Hosted Q)) (q : Address) (turn : Turn) :
    (shadow (Party.onTurn party q turn).1).isSome = (shadow party).isSome := by
  rcases party with party | party | party <;> rfl

theorem onExchangeFailed_stock (party : Boxed (Hosted Q)) (q : Address) (cause : FailureCause) :
    (shadow (Party.onExchangeFailed party q cause)).isSome = (shadow party).isSome := by
  rw [onExchangeFailed_shadow, Option.isSome_map]

theorem onExchangeFailed_alone_of_ne (party : Boxed (Hosted Q)) {p q : Address} (h : p ≠ q)
    (cause : FailureCause) (hstock : (shadow party).isSome = true) :
    alone p (Party.onExchangeFailed party q cause) = alone p party := by
  rcases party with party | party | party
  · simp only [Party.onExchangeFailed, EchoParty.onExchangeFailed, alone, EchoParty.state,
      Assoc.lookup_modify_of_ne _ _ h]
  · simp only [Party.onExchangeFailed, CountdownParty.onExchangeFailed, alone, CountdownParty.peer,
      Assoc.lookup_modify_of_ne _ _ h]
  · cases hstock

/-! ## A machine for one peer -/

/-- What an actor holds for one peer. -/
structure Seat (Q : Type) where
  peer : PeerState
  party : Boxed (Hosted Q)

namespace Seat

/-- The reply of the party. Nothing is refused. -/
def answer (deadlines : Deadlines) (now : Instant) (p : Address) (seat : Seat Q) (target : Address)
    (reply : Turn) : Seat Q × List (Address × Message) :=
  match (seat.peer.state.onOutgoing reply).1 with
  | .error _ => (⟨seat.peer.fail, Party.onExchangeFailed seat.party p .IllegalReply⟩, [])
  | .ok progress =>
    ({ seat with peer := .armed (afterTurn .AwaitingTheirTurn reply) reply progress now deadlines },
      [(target, .Turn reply)])

/-- The next turn of the peer, and what is sent back to it. -/
def takeTurn (deadlines : Deadlines) (now : Instant) (p : Address) (seat : Seat Q) (target : Address)
    (turn : Turn) (ack : Option Message) : Seat Q × List (Address × Message) :=
  match (seat.peer.state.onIncoming turn).1 with
  | .error _ => (seat, [])
  | .ok _ =>
    let taken := Party.onTurn seat.party p turn
    let heard : Seat Q := ⟨⟨afterTurn .OweThem turn, none, none⟩, taken.1⟩
    let acked := ack.toList.map fun ack => (target, ack)
    match taken.2 with
    | none => (heard, acked)
    | some reply =>
      let answered := heard.answer deadlines now p target reply
      (answered.1, acked ++ answered.2)

def take (allowlist : Allowlist) (deadlines : Deadlines) (now : Instant) (seat : Seat Q)
    (delivery : Delivery) : Seat Q × List (Address × Message) :=
  match process allowlist delivery with
  | .Denied | .Harness .. => (seat, [])
  | .Request _ _ _ ack => (seat, [(delivery.target, ack)])
  | .AckReceived ack => ({ seat with peer := seat.peer.settleAck ack.id }, [])
  | .Turn turn _ replyTo ack => seat.takeTurn deadlines now replyTo delivery.target turn ack

/-- What is sent to the peer in a run, and the conversation that it ends in. -/
def run (allowlist : Allowlist) (deadlines : Deadlines) (now : Instant) (seat : Seat Q)
    (ds : List Delivery) : List (Address × Message) × Option PeerState :=
  (Run.outputs (Seat.take allowlist deadlines now) seat ds,
    some (Run.after (fun s d => (Seat.take allowlist deadlines now s d).1) seat ds).peer)

theorem run_cons (allowlist : Allowlist) (deadlines : Deadlines) (now : Instant) (seat : Seat Q)
    (d : Delivery) (ds : List Delivery) :
    seat.run allowlist deadlines now (d :: ds) =
      ((seat.take allowlist deadlines now d).2 ++
          ((seat.take allowlist deadlines now d).1.run allowlist deadlines now ds).1,
        ((seat.take allowlist deadlines now d).1.run allowlist deadlines now ds).2) := rfl

end Seat

/-! ## What is sent to a peer -/

def Effect.refused : Effect → Bool
  | Sent _ _ _ accepted => !accepted
  | Handed .. | Told .. | Emitted _ | Moved .. | Failed .. => false

/-- The messages to `p`, each with the address it is sent from. -/
def sentTo (p : Address) (effects : List Effect) : List (Address × Message) :=
  effects.filterMap fun
    | .Sent origin target message _ => if target = p then some (origin, message) else none
    | _ => none

theorem sentTo_append (p : Address) (es es' : List Effect) :
    sentTo p (es ++ es') = sentTo p es ++ sentTo p es' := List.filterMap_append

@[simp] theorem sentTo_moved (p here peer : Address) (before after : TurnState) (es : List Effect) :
    sentTo p (.Moved here peer before after :: es) = sentTo p es := rfl

@[simp] theorem sentTo_handed (p here peer : Address) (turn : Turn) :
    sentTo p [.Handed here peer turn] = [] := rfl

theorem sentTo_of_within {here p : Address} {peers : Address → Prop} {effects : List Effect}
    (h : ∀ e ∈ effects, e.Within here peers) (hp : ¬ peers p) : sentTo p effects = [] := by
  refine List.filterMap_eq_nil_iff.mpr fun e he => ?_
  have hwithin := h e he
  cases e with
  | Sent origin target message accepted =>
    have hne : target ≠ p := fun htarget => hp (htarget ▸ hwithin)
    simp [hne]
  | Handed _ _ _ | Told _ _ _ | Emitted _ | Moved _ _ _ _ | Failed _ _ _ _ => rfl

theorem sentTo_of_cause {p : Address} {effects : List Effect} {cause : FailureCause}
    (h : ∀ e ∈ effects, e.cause = some cause) : sentTo p effects = [] := by
  refine List.filterMap_eq_nil_iff.mpr fun e he => ?_
  have hcause := h e he
  cases e with
  | Sent _ _ _ _ => cases hcause
  | Handed _ _ _ | Told _ _ _ | Emitted _ | Moved _ _ _ _ | Failed _ _ _ _ => rfl

namespace LocalRuntime

/-- The transport refuses none of the messages in these effects. -/
def Unrefused (effects : List Effect) : Prop := ∀ e ∈ effects, e.refused = false

instance (effects : List Effect) : Decidable (Unrefused effects) :=
  inferInstanceAs (Decidable (∀ e ∈ effects, e.refused = false))

theorem unrefused_append {es es' : List Effect} :
    Unrefused (es ++ es') ↔ Unrefused es ∧ Unrefused es' := List.forall_mem_append

section

variable {P : Type}

theorem sentTo_emit (rt : LocalRuntime P N Ib) (event : Event) (p : Address) :
    sentTo p (rt.emit event) = [] := by
  unfold emit
  split <;> rfl

variable [Transport N]

theorem sentTo_send (rt : LocalRuntime P N Ib) (origin target : Address) (message : Message) :
    sentTo target (rt.send origin target message).effects = [(origin, message)] := by
  rw [send_effects]
  simp [sentTo]

theorem sentTo_receipt (rt : LocalRuntime P N Ib) (self peer : Address) (ack : Option Message) :
    sentTo peer (rt.receipt self peer ack).effects = ack.toList.map fun ack => (self, ack) := by
  cases ack with
  | none => rfl
  | some ack => exact sentTo_send rt self peer ack

theorem send_of_unrefused {rt : LocalRuntime P N Ib} {origin target : Address} {message : Message}
    (h : Unrefused (rt.send origin target message).effects) :
    (rt.send origin target message).result.isOk = true := by
  have hsent := h _ (by rw [send_effects]; exact List.mem_singleton_self _)
  simpa [Effect.refused] using hsent

end

/-! ## An actor and its seats -/

/-- The actor after it gave a turn to its stock party. -/
def handed (actor : LocalActor (Hosted Q) Ib) (party : Boxed (Hosted Q)) (peer : Address)
    (turn : Turn) : LocalActor (Hosted Q) Ib :=
  { hear actor peer turn with party := some (Party.onTurn party peer turn).1 }

@[simp] theorem handed_peer (actor : LocalActor (Hosted Q) Ib) (party : Boxed (Hosted Q))
    (peer : Address) (turn : Turn) :
    (handed actor party peer turn).peer peer = ⟨afterTurn .OweThem turn, none, none⟩ :=
  LocalActor.peer_setPeer_self ..

theorem handOver_handed (here : Address) {actor : LocalActor (Hosted Q) Ib}
    {party : Boxed (Hosted Q)} (hparty : actor.party = some party) (peer : Address) (turn : Turn) :
    (hear actor peer turn).handOver here peer turn =
      ((Party.onTurn party peer turn).2, handed actor party peer turn, [.Handed here peer turn]) := by
  have hheard : (hear actor peer turn).party = some party := hparty
  simp only [LocalActor.handOver, hheard]
  rfl

variable [Transport N]

/-- An actor did something for `peer`: its seat with `peer` took that, and the others are as they were. -/
structure Seated (actor : LocalActor (Hosted Q) Ib) (party : Boxed (Hosted Q)) (peer : Address)
    (took : Seat Q × List (Address × Message)) (actor' : LocalActor (Hosted Q) Ib)
    (party' : Boxed (Hosted Q)) (effects : List Effect) : Prop where
  same : actor.SameActor actor'
  hosts : actor'.party = some party'
  stock : (shadow party').isSome = true
  others : ∀ q, q ≠ peer → actor'.peer q = actor.peer q ∧ alone q party' = alone q party
  took : took = (⟨actor'.peer peer, alone peer party'⟩, sentTo peer effects)

theorem Answered.seated {rt : LocalRuntime (Hosted Q) N Ib} {name : ActorName}
    {actor : LocalActor (Hosted Q) Ib} {self peer : Address} {reply : Turn}
    {ran : Ran (Hosted Q) N Ib Stepped} (h : Answered rt name actor self peer reply ran)
    {party : Boxed (Hosted Q)} (hparty : actor.party = some party)
    (hstock : (shadow party).isSome = true) (hunrefused : Unrefused ran.effects) :
    ∃ net actor' party', ran.rt = { rt with net }.setActor name actor' ∧
      Seated actor party peer
        (Seat.answer actor.deadlines rt.clock peer ⟨actor.peer peer, alone peer party⟩ self reply)
        actor' party' ran.effects := by
  rcases h with ⟨error, hout, _, rfl⟩ | ⟨progress, hout, _, rfl, hrefused, _, rfl⟩ |
    ⟨progress, hout, _, rfl, haccepted⟩
  · refine ⟨rt.net, _, Party.onExchangeFailed party peer .IllegalReply, rfl,
      (LocalActor.SameActor.setPeer ..).trans (.failExchange ..), ?_, ?_, fun q hq => ⟨?_, ?_⟩, ?_⟩
    · rw [LocalActor.failExchange_party]
      exact congrArg _ hparty
    · rw [onExchangeFailed_stock, hstock]
    · rw [LocalActor.failExchange_peer, if_neg hq, LocalActor.peer_setPeer_of_ne actor _ hq]
    · exact onExchangeFailed_alone_of_ne party hq _ hstock
    · rw [LocalActor.failExchange_peer, if_pos rfl, LocalActor.peer_setPeer_self, sentTo_moved,
        sentTo_of_cause fun e he => (failExchange_failure he).cause]
      simp only [Seat.answer, hout, onExchangeFailed_alone hstock]
  · -- A refused reply is against the assumption.
    rw [unrefused_append, ← List.singleton_append, unrefused_append] at hunrefused
    cases hrefused.symm.trans (send_of_unrefused hunrefused.1.2)
  · rw [send_rt]
    refine ⟨_, _, party, rfl, .setPeer .., hparty, hstock, fun q hq => ⟨?_, rfl⟩, ?_⟩
    · exact LocalActor.peer_setPeer_of_ne actor _ hq
    · rw [arm, LocalActor.peer_setPeer_self, sentTo_moved, sentTo_send]
      simp only [Seat.answer, hout]

theorem TookTurn.seated {rt : LocalRuntime (Hosted Q) N Ib} {name : ActorName}
    {actor : LocalActor (Hosted Q) Ib} {self peer : Address} {turn : Turn} {ack : Option Message}
    {ran : Ran (Hosted Q) N Ib Stepped} (h : TookTurn rt name actor self peer turn ack ran)
    {party : Boxed (Hosted Q)} (hparty : actor.party = some party)
    (hstock : (shadow party).isSome = true) (hunrefused : Unrefused ran.effects) :
    ∃ net actor' party', ran.rt = { rt with net }.setActor name actor' ∧
      Seated actor party peer
        (Seat.takeTurn actor.deadlines rt.clock peer ⟨actor.peer peer, alone peer party⟩ self turn ack)
        actor' party' ran.effects := by
  have hhanded := handOver_handed (rt.address name) hparty peer turn
  have hsame : actor.SameActor (handed actor party peer turn) := ⟨rfl, rfl, rfl, rfl⟩
  have hothers : ∀ q, q ≠ peer → (handed actor party peer turn).peer q = actor.peer q ∧
      alone q (Party.onTurn party peer turn).1 = alone q party := fun q hq =>
    ⟨LocalActor.peer_setPeer_of_ne actor _ hq, onTurn_alone_of_ne party hq turn hstock⟩
  have hnext := (onTurn_stock party peer turn).trans hstock
  rcases h with ⟨error, hin⟩ | ⟨progress, hin, taken, effects, hsilent⟩ |
    ⟨progress, hin, reply, taken, effects, hreply, ran, hran⟩
  · refine ⟨rt.net, _, party, rfl, .setPeer .., hparty, hstock,
      fun q hq => ⟨LocalActor.peer_setPeer_of_ne actor _ hq, rfl⟩, ?_⟩
    rw [LocalActor.peer_setPeer_self, sentTo_moved,
      sentTo_emit]
    simp only [Seat.takeTurn, hin]
  · rw [hhanded, Prod.mk.injEq, Prod.mk.injEq] at hsilent
    obtain ⟨hnone, rfl, rfl⟩ := hsilent
    rw [receipt_rt]
    refine ⟨_, _, _, rfl, hsame, rfl, hnext, hothers, ?_⟩
    simp only [Seat.takeTurn, hin, onTurn_alone hstock, hnone, handed_peer, sentTo_append,
      sentTo_moved, sentTo_receipt, sentTo_handed, List.append_nil]
  · rw [hhanded, Prod.mk.injEq, Prod.mk.injEq] at hreply
    obtain ⟨hsome, rfl, rfl⟩ := hreply
    rw [unrefused_append] at hunrefused
    obtain ⟨net, actor', party', hrt, hseated⟩ := hran.seated rfl hnext hunrefused.2
    have htook := hseated.took
    rw [receipt_rt] at hrt htook
    rw [handed_peer] at htook
    refine ⟨net, actor', party', hrt, hsame.trans hseated.same, hseated.hosts, hseated.stock,
      fun q hq => ?_, ?_⟩
    · exact ⟨(hseated.others q hq).1.trans (hothers q hq).1,
        (hseated.others q hq).2.trans (hothers q hq).2⟩
    · simp only [Seat.takeTurn, hin, onTurn_alone hstock, hsome, sentTo_append, sentTo_moved,
        sentTo_receipt, sentTo_handed, List.append_nil]
      have hdeadlines : (handed actor party peer turn).deadlines = actor.deadlines := rfl
      rw [hdeadlines] at htook
      rw [htook]

/-! ## A run of deliveries -/

/-- The actor hosts a stock party, and is in no live exchange with an endpoint that counts as dead. -/
structure Hosts (rt : LocalRuntime (Hosted Q) N Ib) (name : ActorName)
    (actor : LocalActor (Hosted Q) Ib) (party : Boxed (Hosted Q)) : Prop where
  installed : rt.actors name = some actor
  hosts : actor.party = some party
  stock : (shadow party).isSome = true
  quiet : actor.affected (· ∈ rt.dead) = []

omit [Party Q] [Transport N] in
theorem quiet_heardFrom {rt : LocalRuntime (Hosted Q) N Ib} {actor actor' : LocalActor (Hosted Q) Ib}
    (hquiet : actor.affected (· ∈ rt.dead) = []) {peer : Address}
    (hothers : ∀ q, q ≠ peer → actor'.peer q = actor.peer q) :
    actor'.affected (· ∈ (rt.heardFrom peer.endpoint).dead) = [] := by
  rw [LocalActor.affected_eq_nil] at hquiet ⊢
  intro q hq
  obtain ⟨hne, hdead⟩ := Finset.mem_erase.mp (decide_eq_true_eq.mp hq)
  have hpeer : q ≠ peer := fun h => hne (congrArg Address.endpoint h)
  rw [hothers q hpeer]
  exact hquiet q (decide_eq_true_eq.mpr hdead)

variable [Registry N Ib]

theorem Delivered.seated {rt : LocalRuntime (Hosted Q) N Ib} {name : ActorName}
    {actor : LocalActor (Hosted Q) Ib} {delivery : Delivery} {ran : Ran (Hosted Q) N Ib Outcome}
    (h : Delivered rt name actor delivery ran) (hactor : rt.actors name = some actor)
    {party : Boxed (Hosted Q)} (hparty : actor.party = some party)
    (hstock : (shadow party).isSome = true) (hplain : ∀ harness, delivery.message ≠ .Harness harness)
    (hunrefused : Unrefused ran.effects) :
    ∃ net actor' party', ran.rt = { rt with net }.setActor name actor' ∧
      Seated actor party delivery.origin
        (Seat.take actor.allowlist actor.deadlines rt.clock
          ⟨actor.peer delivery.origin, alone delivery.origin party⟩ delivery)
        actor' party' ran.effects := by
  have hsame : rt = { rt with net := rt.net }.setActor name actor := (setActor_eq_self rt hactor).symm
  rcases h with ⟨hno⟩ | ⟨hok, request, hm⟩ | ⟨hok, ack, hm⟩ | ⟨hok, harness, hm, hkind⟩ |
    ⟨hok, harness, hm, hkind, reply, hreply⟩ | ⟨hok, harness, hm, hkind, hreply⟩ |
    ⟨hok, turn, hm, ran, hran⟩
  · refine ⟨rt.net, actor, party, hsame, .refl actor, hparty, hstock, fun _ _ => ⟨rfl, rfl⟩, ?_⟩
    rw [sentTo_emit]
    simp only [Seat.take, process_denied.mpr hno]
  · simp only [sendAndReturn, send_rt]
    refine ⟨_, actor, party, (setActor_eq_self
      { rt with net := (Transport.send rt.net delivery.target delivery.origin _).2 } hactor).symm,
      .refl actor, hparty, hstock, fun _ _ => ⟨rfl, rfl⟩, ?_⟩
    rw [sentTo_send]
    simp only [Seat.take, process_admitted hok, hm]
  · refine ⟨rt.net, _, party, rfl, ⟨rfl, rfl, rfl, rfl⟩, hparty, hstock, fun q hq => ⟨?_, rfl⟩, ?_⟩
    · rw [LocalActor.peer_modify _ _ _ _ rfl, if_neg hq]
    · rw [LocalActor.peer_modify _ _ _ _ rfl, if_pos rfl]
      simp only [Seat.take, process_admitted hok, hm]
      rfl
  · exact absurd hm (hplain harness)
  · exact absurd hm (hplain harness)
  · exact absurd hm (hplain harness)
  · obtain ⟨net, actor', party', hrt, hseated⟩ := hran.seated hparty hstock hunrefused
    refine ⟨net, actor', party', hrt, hseated.same, hseated.hosts, hseated.stock, hseated.others, ?_⟩
    rw [← hseated.took]
    simp only [Seat.take, process_admitted hok, hm]

/-- The calls that take these deliveries one after the other. -/
def deliveries (name : ActorName) (ds : List Delivery) : List (Call (Hosted Q) N) :=
  ds.map fun d => .Step name (.Delivery (some d))

/-- What is sent to `p` while the actor takes these deliveries, and its conversation with `p` then. -/
def towards (rt : LocalRuntime (Hosted Q) N Ib) (name : ActorName) (p : Address) (ds : List Delivery) :
    List (Address × Message) × Option PeerState :=
  (sentTo p (rt.effects (deliveries name ds)),
    ((rt.after (deliveries name ds)).actors name).map fun actor => actor.peer p)

theorem step_seated {rt : LocalRuntime (Hosted Q) N Ib} {name : ActorName}
    {actor : LocalActor (Hosted Q) Ib} {party : Boxed (Hosted Q)} (h : Hosts rt name actor party)
    {delivery : Delivery} (hplain : ∀ harness, delivery.message ≠ .Harness harness)
    (hunrefused : Unrefused (rt.step name (.Delivery (some delivery))).effects) :
    ∃ actor' party', (rt.step name (.Delivery (some delivery))).rt.clock = rt.clock ∧
      Hosts (rt.step name (.Delivery (some delivery))).rt name actor' party' ∧
      Seated actor party delivery.origin
        (Seat.take actor.allowlist actor.deadlines rt.clock
          ⟨actor.peer delivery.origin, alone delivery.origin party⟩ delivery)
        actor' party' (rt.step name (.Delivery (some delivery))).effects ∧
      ∀ p, p ≠ delivery.origin →
        sentTo p (rt.step name (.Delivery (some delivery))).effects = [] := by
  have hwithin : ∀ e ∈ (rt.step name (.Delivery (some delivery))).effects,
      e.Within (rt.address name) (· = delivery.origin) := by
    intro e he
    rcases step_arose h.installed he with ⟨_, endpoint, hdead, peer, hpeer, -⟩ | _ | ⟨-, _, -, rfl⟩ |
      ⟨-, _, -, _, -, _, rfl⟩ | ⟨-, _, -, _, -, _, hran, hturned⟩
    · -- A tombstone would have been swept before.
      rcases hdead with hdead | hdead
      · rw [LocalActor.affected_of_quiet h.quiet hdead] at hpeer
        cases hpeer
      · cases hdead
    · trivial
    · rfl
    · exact (hran.turned hturned).within
  have hran := deliver_delivered rt name actor delivery
  rw [step_delivery rt h.installed h.quiet] at hunrefused hwithin ⊢
  generalize rt.deliver name actor delivery = ran at hran hunrefused hwithin
  obtain ⟨net, actor', party', hrt, hseated⟩ :=
    hran.seated h.installed h.hosts h.stock hplain hunrefused
  refine ⟨actor', party', by rw [hrt]; rfl, ⟨?_, hseated.hosts, hseated.stock, ?_⟩, hseated,
    fun p hp => ?_⟩
  · rw [hrt, setActor_self]
  · rw [hrt]
    exact quiet_heardFrom h.quiet fun q hq => (hseated.others q hq).1
  · exact sentTo_of_within hwithin hp

theorem towards_cons (rt : LocalRuntime (Hosted Q) N Ib) (name : ActorName) (p : Address)
    (d : Delivery) (ds : List Delivery) :
    rt.towards name p (d :: ds) =
      (sentTo p (rt.step name (.Delivery (some d))).effects ++
          ((rt.step name (.Delivery (some d))).rt.towards name p ds).1,
        ((rt.step name (.Delivery (some d))).rt.towards name p ds).2) := by
  simp only [towards, effects, deliveries, List.map_cons, Run.outputs, sentTo_append, after,
    Run.after_cons]
  rfl

/-- A run of the actor is, for each peer, a run of its seat. -/
theorem run_seated {rt : LocalRuntime (Hosted Q) N Ib} {name : ActorName}
    {actor : LocalActor (Hosted Q) Ib} {party : Boxed (Hosted Q)} (h : Hosts rt name actor party)
    {ds : List Delivery} (hplain : ∀ d ∈ ds, ∀ harness, d.message ≠ .Harness harness)
    (hunrefused : Unrefused (rt.effects (deliveries name ds))) (p : Address) :
    rt.towards name p ds =
      Seat.run actor.allowlist actor.deadlines rt.clock ⟨actor.peer p, alone p party⟩
        (ds.filter fun d => d.origin = p) := by
  induction ds generalizing rt actor party with
  | nil => simp [towards, deliveries, after, effects, Run.outputs, h.installed, Seat.run, sentTo]
  | cons d ds ih =>
    obtain ⟨hd, hds⟩ := List.forall_mem_cons.mp hplain
    have hfirst := unrefused_append.mp hunrefused
    obtain ⟨actor', party', hclock, hhosts, hseated, hothers⟩ := step_seated h hd hfirst.1
    rw [towards_cons, ih hhosts hds hfirst.2, hseated.same.allowlist, hseated.same.deadlines, hclock]
    by_cases hp : d.origin = p
    · subst hp
      rw [List.filter_cons_of_pos (by simp), Seat.run_cons, hseated.took]
    · have hne : p ≠ d.origin := fun h => hp h.symm
      rw [List.filter_cons_of_neg (by simpa using hp), hothers p hne, (hseated.others p hne).1,
        (hseated.others p hne).2, List.nil_append]

/-- In any order of the deliveries that keeps each peer's own order, every peer gets the messages and is
left in the conversation that it would have if it were alone. -/
theorem conversations_isolated {rt : LocalRuntime (Hosted Q) N Ib} {name : ActorName}
    {actor : LocalActor (Hosted Q) Ib} (hactor : rt.actors name = some actor)
    (hstock : actor.shadow.isSome = true) (hquiet : actor.affected (· ∈ rt.dead) = [])
    {ds ds' : List Delivery} (hplain : ∀ d ∈ ds, ∀ harness, d.message ≠ .Harness harness)
    (hmixed : ∀ p, (ds.filter fun d => d.origin = p) = ds'.filter fun d => d.origin = p)
    (hunrefused : Unrefused (rt.effects (deliveries name ds)))
    (hunrefused' : Unrefused (rt.effects (deliveries name ds'))) (p : Address)
    (halone : Unrefused (rt.effects (deliveries name (ds.filter fun d => d.origin = p)))) :
    rt.towards name p ds = rt.towards name p ds' ∧
      rt.towards name p ds = rt.towards name p (ds.filter fun d => d.origin = p) := by
  obtain ⟨s, hs⟩ := Option.isSome_iff_exists.mp hstock
  obtain ⟨party, hparty, hshadow⟩ := Option.bind_eq_some_iff.mp hs
  have hhosts : Hosts rt name actor party := ⟨hactor, hparty, by rw [hshadow]; rfl, hquiet⟩
  have hplain' : ∀ d ∈ ds', ∀ harness, d.message ≠ .Harness harness := by
    intro d hd
    have hmem : d ∈ ds'.filter fun d' => d'.origin = d.origin := List.mem_filter.mpr ⟨hd, by simp⟩
    rw [← hmixed] at hmem
    exact hplain d (List.mem_filter.mp hmem).1
  have hplain'' : ∀ d ∈ ds.filter (fun d => d.origin = p), ∀ harness, d.message ≠ .Harness harness :=
    fun d hd => hplain d (List.mem_filter.mp hd).1
  rw [run_seated hhosts hplain hunrefused, run_seated hhosts hplain' hunrefused',
    run_seated hhosts hplain'' halone, ← hmixed, List.filter_filter]
  simp

open Sample

/-- Bob counts down, and everyone's inbox is there. -/
def countingRuntime : LocalRuntime (Hosted Empty) Shared MemoryInbox :=
  (bobsRuntime (Hosted Empty)).after
    [.Elsewhere (fun net => ((net.register alice).2.register carol).2) 0,
      .InstallParty bob.name
        ((Allowlist.empty.admitEndpoint alice.endpoint).admitEndpoint carol.endpoint) patience
        (.app (.countdown (.new 1)))]

/-- Alice opens, then opens once more out of turn. -/
def alices : List Delivery :=
  [⟨alice, bob, .Turn (.Open (request 1))⟩, ⟨alice, bob, .Turn (.Open (request 3))⟩]

/-- Carol opens, and sends a plain request. -/
def carols : List Delivery :=
  [⟨carol, bob, .Turn (.Open (request 2))⟩, ⟨carol, bob, .Request (request 4)⟩]

theorem conversations_isolated_alice :
    countingRuntime.towards bob.name alice (alices ++ carols) =
        countingRuntime.towards bob.name alice (carols ++ alices) ∧
      countingRuntime.towards bob.name alice (alices ++ carols) =
        countingRuntime.towards bob.name alice alices := by
  obtain ⟨actor, hactor⟩ : ∃ actor, countingRuntime.actors bob.name = some actor := ⟨_, rfl⟩
  have hfacts : (countingRuntime.actors bob.name).all
      (fun actor => actor.shadow.isSome && actor.affected (· ∈ countingRuntime.dead) = []) = true := by
    decide +kernel
  rw [hactor, Option.all_some, Bool.and_eq_true, decide_eq_true_eq] at hfacts
  have hmixed : ∀ p, ((alices ++ carols).filter fun d => d.origin = p) =
      (carols ++ alices).filter fun d => d.origin = p := by
    intro p
    by_cases ha : alice = p
    · subst ha
      decide +kernel
    · by_cases hc : carol = p
      · subst hc
        decide +kernel
      · simp [alices, carols, ha, hc]
  have hown : (alices ++ carols).filter (fun d => d.origin = alice) = alices := by decide +kernel
  have h := conversations_isolated hactor hfacts.1 hfacts.2 (by simp [alices, carols]) hmixed
    (by decide +kernel) (by decide +kernel) alice (by decide +kernel)
  rwa [hown] at h

end LocalRuntime

end Kamiroh
