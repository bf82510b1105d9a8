import Kamiroh.Runtime.Steps

/-!
# The effects of a step, one by one

`step_did` says what a step does as a whole. Here each single effect has its origin: the failure of an
exchange, a turn of a peer, or a delivery that is no turn.
-/

namespace Kamiroh.LocalRuntime

variable {P N Ib : Type}

/-! ## The failure of an exchange -/

inductive Failure (here peer : Address) (cause : FailureCause) : Effect → Prop
  | failed (before : TurnState) : Failure here peer cause (.Failed here peer before cause)
  | told : Failure here peer cause (.Told here peer cause)
  | reported : Failure here peer cause (.Emitted (.ExchangeFailed here peer cause))

theorem mem_emit {rt : LocalRuntime P N Ib} {event : Event} {e : Effect} (he : e ∈ rt.emit event) :
    e = .Emitted event := by
  unfold emit at he
  split at he
  · exact List.mem_singleton.mp he
  · cases he

section

variable [Party P]

theorem mem_failExchange {here peer : Address} {actor : LocalActor P Ib}
    {cause : FailureCause} {e : Effect} (he : e ∈ (actor.failExchange here peer cause).2) :
    Failure here peer cause e := by
  rw [LocalActor.failExchange_snd, List.mem_append] at he
  rcases he with he | he
  · simp only [Option.mem_toList, Option.map_eq_some_iff] at he
    obtain ⟨ps, -, rfl⟩ := he
    exact .failed ps.state
  · split at he
    · cases List.mem_singleton.mp he
      exact .told
    · cases he

theorem failExchange_failure {rt : LocalRuntime P N Ib} {name : ActorName} {actor : LocalActor P Ib}
    {peer : Address} {cause : FailureCause} {e : Effect}
    (he : e ∈ (rt.failExchange name actor peer cause).effects) :
    Failure (rt.address name) peer cause e := by
  rcases List.mem_append.mp he with he | he
  · exact mem_failExchange he
  · cases mem_emit he
    exact .reported

theorem failEach_failure {rt : LocalRuntime P N Ib} {name : ActorName} {actor : LocalActor P Ib}
    {cause : FailureCause} {peers : List Address} {e : Effect}
    (he : e ∈ (rt.failEach name actor cause peers).2) :
    ∃ peer ∈ peers, Failure (rt.address name) peer cause e := by
  induction peers generalizing actor with
  | nil => cases he
  | cons peer peers ih =>
    rcases List.mem_append.mp he with he | he
    · have hfailed : e ∈ (rt.failExchange name actor peer cause).effects := he
      exact ⟨peer, List.mem_cons_self, failExchange_failure hfailed⟩
    · obtain ⟨peer', hpeer', hfailure⟩ := ih he
      exact ⟨peer', List.mem_cons_of_mem peer hpeer', hfailure⟩

end

/-! ## A turn of a peer -/

inductive Turned (here self peer : Address) : Effect → Prop
  | moved (before after : TurnState) : Turned here self peer (.Moved here peer before after)
  | dropped (error : TurnError) : Turned here self peer (.Emitted (.IllegalTurnDropped peer self error))
  | sent (message : Message) (accepted : Bool) : Turned here self peer (.Sent self peer message accepted)
  | handed (turn : Turn) : Turned here self peer (.Handed here peer turn)
  | failed (cause : FailureCause) (hcause : cause = .IllegalReply ∨ cause = .SendFailed) (e : Effect)
      (h : Failure here peer cause e) : Turned here self peer e

section

variable [Transport N]

theorem mem_send {rt : LocalRuntime P N Ib} {origin target : Address} {message : Message} {e : Effect}
    (he : e ∈ (rt.send origin target message).effects) :
    ∃ accepted, e = .Sent origin target message accepted := by
  rw [send_effects, List.mem_singleton] at he
  exact ⟨_, he⟩

theorem mem_receipt {rt : LocalRuntime P N Ib} {self peer : Address} {ack : Option Message} {e : Effect}
    (he : e ∈ (rt.receipt self peer ack).effects) :
    ∃ message accepted, e = .Sent self peer message accepted := by
  cases ack with
  | none => cases he
  | some ack =>
    obtain ⟨accepted, rfl⟩ := mem_send he
    exact ⟨ack, accepted, rfl⟩

variable [Party P]

omit [Transport N] in
theorem mem_handOver {here peer : Address} {actor : LocalActor P Ib} {turn : Turn} {e : Effect}
    (he : e ∈ (actor.handOver here peer turn).2.2) : e = .Handed here peer turn := by
  unfold LocalActor.handOver at he
  split at he
  · exact List.mem_singleton.mp he
  · cases he

theorem Answered.turned {rt : LocalRuntime P N Ib} {name : ActorName} {actor : LocalActor P Ib}
    {self peer : Address} {reply : Turn} {ran : Ran P N Ib Stepped}
    (h : Answered rt name actor self peer reply ran) {e : Effect} (he : e ∈ ran.effects) :
    Turned (rt.address name) self peer e := by
  have hsent : e ∈ (rt.send self peer (.Turn reply)).effects → Turned (rt.address name) self peer e := by
    intro he
    obtain ⟨accepted, rfl⟩ := mem_send he
    exact .sent _ accepted
  rcases h with ⟨error, hout, _, rfl⟩ | ⟨progress, hout, _, rfl, hrefused, _, rfl⟩ |
    ⟨progress, hout, _, rfl, haccepted⟩
  · rcases List.mem_cons.mp he with rfl | he
    · exact .moved _ _
    · exact .failed _ (Or.inl rfl) e (failExchange_failure he)
  · rcases List.mem_append.mp he with he | he
    · rcases List.mem_cons.mp he with rfl | he
      · exact .moved _ _
      · exact hsent he
    · rw [send_rt] at he
      exact .failed _ (Or.inr rfl) e (failExchange_failure he)
  · rcases List.mem_cons.mp he with rfl | he
    · exact .moved _ _
    · exact hsent he

theorem TookTurn.turned {rt : LocalRuntime P N Ib} {name : ActorName} {actor : LocalActor P Ib}
    {self peer : Address} {turn : Turn} {ack : Option Message} {ran : Ran P N Ib Stepped}
    (h : TookTurn rt name actor self peer turn ack ran) {e : Effect} (he : e ∈ ran.effects) :
    Turned (rt.address name) self peer e := by
  have hreceipt : e ∈ (rt.receipt self peer ack).effects → Turned (rt.address name) self peer e := by
    intro he
    obtain ⟨message, accepted, rfl⟩ := mem_receipt he
    exact .sent message accepted
  have hhanded : e ∈ ((hear actor peer turn).handOver (rt.address name) peer turn).2.2 →
      Turned (rt.address name) self peer e := by
    intro he
    cases mem_handOver he
    exact .handed turn
  rcases h with ⟨error, hin⟩ | ⟨progress, hin, taken, effects, hsilent⟩ |
    ⟨progress, hin, reply, taken, effects, hreply, ran, hran⟩
  · rcases List.mem_cons.mp he with rfl | he
    · exact .moved _ _
    · cases mem_emit he
      exact .dropped error
  · rw [hsilent] at hhanded
    simp only [List.cons_append, List.mem_cons, List.mem_append] at he
    rcases he with rfl | he | he
    · exact .moved _ _
    · exact hreceipt he
    · exact hhanded he
  · rw [hreply] at hhanded
    simp only [List.cons_append, List.mem_cons, List.mem_append] at he
    rcases he with rfl | (he | he) | he
    · exact .moved _ _
    · exact hreceipt he
    · exact hhanded he
    · have hanswered := hran.turned he
      rw [receipt_rt] at hanswered
      exact hanswered

end

/-! ## A step -/

section

variable [Party P] [Transport N]

/-- Where an effect of a step comes from. The turn of a peer keeps how it was taken. -/
inductive Arose (rt : LocalRuntime P N Ib) (name : ActorName) (actor : LocalActor P Ib) (e : Effect) :
    Waited → Prop
  | vanished (waited : Waited) (endpoint : EndpointId)
      (hdead : endpoint ∈ rt.dead ∨ waited = .PeerDeath endpoint) (peer : Address)
      (hpeer : peer ∈ actor.affected (· = endpoint))
      (h : Failure (rt.address name) peer .Disconnected e) : Arose rt name actor e waited
  | elapsed (hquiet : actor.affected (· ∈ rt.dead) = []) (peer : Address) (kind : DeadlineKind)
      (due : Instant) (hdue : actor.earliestDue = some (peer, kind, due))
      (h : Failure (rt.address name) peer (.DeadlineElapsed kind) e) :
      Arose rt name actor e .DeadlineElapsed
  | denied (hquiet : actor.affected (· ∈ rt.dead) = []) (delivery : Delivery)
      (hno : actor.allowlist.allows delivery.origin.endpoint = false)
      (h : e = .Emitted (.DeliveryDenied delivery.origin delivery.target)) :
      Arose rt name actor e (.Delivery (some delivery))
  | answered (hquiet : actor.affected (· ∈ rt.dead) = []) (delivery : Delivery)
      (hok : actor.allowlist.allows delivery.origin.endpoint = true) (message : Message)
      (hmessage : ∀ turn, message ≠ .Turn turn) (accepted : Bool)
      (h : e = .Sent delivery.target delivery.origin message accepted) :
      Arose rt name actor e (.Delivery (some delivery))
  | turn (hquiet : actor.affected (· ∈ rt.dead) = []) (delivery : Delivery)
      (hok : actor.allowlist.allows delivery.origin.endpoint = true) (turn : Turn)
      (hturn : delivery.message = .Turn turn) (ran : Ran P N Ib Stepped)
      (hran : TookTurn (rt.heardFrom delivery.origin.endpoint) name actor delivery.target
        delivery.origin turn (turn.request.map fun request => .Ack ⟨request.id⟩) ran)
      (h : e ∈ ran.effects) : Arose rt name actor e (.Delivery (some delivery))

variable [Registry N Ib]

omit [Party P] [Transport N] in
theorem execute_harness {rt : LocalRuntime P N Ib} {command : Harness} {controller : Address}
    {reply : Message} (h : (rt.execute command controller).result = some reply) :
    ∃ harness, reply = .Harness harness := by
  cases command with
  | Ping =>
    cases h
    exact ⟨_, rfl⟩
  | Spawn _ | Stop _ =>
    simp only [execute] at h
    split at h <;> (cases h; exact ⟨_, rfl⟩)
  | Spawned _ | Stopped _ | Pong | Failed _ => cases h

theorem step_arose {rt : LocalRuntime P N Ib} {name : ActorName} {actor : LocalActor P Ib}
    (hactor : rt.actors name = some actor) {waited : Waited} {e : Effect}
    (he : e ∈ (rt.step name waited).effects) : Arose rt name actor e waited := by
  have hdid := step_did hactor waited
  generalize rt.step name waited = ran at hdid he
  rcases hdid with ⟨_, endpoint, hdead, hlive, _, rfl⟩ | ⟨endpoint, hquiet, _, rfl⟩ |
    ⟨hquiet, peer, kind, due, hdue, _, rfl⟩ | ⟨hquiet, hdue⟩ | ⟨hquiet⟩ |
    ⟨hquiet, delivery, ran, hran⟩
  · obtain ⟨peer, hpeer, hfailure⟩ := failEach_failure he
    exact .vanished waited endpoint (Or.inl hdead) peer hpeer hfailure
  · obtain ⟨peer, hpeer, hfailure⟩ := failEach_failure he
    exact .vanished _ endpoint (Or.inr rfl) peer hpeer hfailure
  · exact .elapsed hquiet peer kind due hdue (failExchange_failure he)
  · cases he
  · cases he
  · have hsent : ∀ {rt' : LocalRuntime P N Ib} {message : Message},
        actor.allowlist.allows delivery.origin.endpoint = true → (∀ turn, message ≠ .Turn turn) →
        e ∈ (rt'.sendAndReturn delivery.target delivery.origin message).effects →
        Arose rt name actor e (.Delivery (some delivery)) := by
      intro rt' message hok hmessage he
      obtain ⟨accepted, rfl⟩ := mem_send he
      exact .answered hquiet delivery hok message hmessage accepted rfl
    rcases hran with ⟨hno⟩ | ⟨hok, request, hm⟩ | ⟨hok, ack, hm⟩ | ⟨hok, harness, hm, hkind⟩ |
      ⟨hok, harness, hm, hkind, reply, hreply⟩ | ⟨hok, harness, hm, hkind, hreply⟩ |
      ⟨hok, turn, hm, ran, hran⟩
    · exact .denied hquiet delivery hno (mem_emit he)
    · exact hsent hok (by simp) he
    · cases he
    · exact hsent hok (by simp) he
    · obtain ⟨harness', rfl⟩ := execute_harness hreply
      exact hsent hok (by simp) he
    · cases he
    · exact .turn hquiet delivery hok turn hm ran hran he

end

end Kamiroh.LocalRuntime
