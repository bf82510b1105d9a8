import Kamiroh.Runtime.Deadlines
import Kamiroh.Runtime.Effects

/-!
# Failures, their events and their notifications

What a call tells its party is what it reports to the observer, and what it reports are the exchanges
whose machines it leaves in `Failed`.
-/

namespace Kamiroh

open TurnState

/-! ## What an effect says of a failure -/

namespace Effect

/-- The failure that the observer hears of: where, with which peer, why. -/
def reported : Effect → Option (Address × Address × FailureCause)
  | Emitted (.ExchangeFailed here peer cause) => some (here, peer, cause)
  | _ => none

/-- The failure that the party hears of. -/
def told : Effect → Option (Address × Address × FailureCause)
  | Told here peer cause => some (here, peer, cause)
  | _ => none

def quiet (effect : Effect) : Prop := effect.reported = none ∧ effect.told = none

end Effect

/-- In these effects of the actor at `here`, the failures with `peers` are reported, one after another, and
told to the party, if there is one. -/
structure Loud (here : Address) (party : Bool) (cause : FailureCause) (peers : List Address)
    (effects : List Effect) : Prop where
  reported : effects.filterMap Effect.reported = peers.map fun peer => (here, peer, cause)
  told : effects.filterMap Effect.told = if party then peers.map fun peer => (here, peer, cause) else []

section

variable {here : Address} {party : Bool} {cause : FailureCause} {peers peers' : List Address}
  {effects effects' : List Effect}

theorem Loud.append (h : Loud here party cause peers effects) (h' : Loud here party cause peers' effects') :
    Loud here party cause (peers ++ peers') (effects ++ effects') := by
  refine ⟨?_, ?_⟩
  · rw [List.filterMap_append, h.reported, h'.reported, List.map_append]
  · rw [List.filterMap_append, h.told, h'.told]
    cases party <;> simp

theorem loud_of_quiet (h : ∀ e ∈ effects, e.quiet) : Loud here party cause [] effects := by
  refine ⟨List.filterMap_eq_nil_iff.mpr fun e he => (h e he).1, ?_⟩
  rw [List.filterMap_eq_nil_iff.mpr fun e he => (h e he).2]
  cases party <;> rfl

theorem Loud.after_quiet (h : Loud here party cause peers effects') (hquiet : ∀ e ∈ effects, e.quiet) :
    Loud here party cause peers (effects ++ effects') := (loud_of_quiet hquiet).append h

end

theorem Effect.quiet_moved (here peer : Address) (before after : TurnState) :
    (Effect.Moved here peer before after).quiet := ⟨rfl, rfl⟩

theorem afterTurn_ne_failed {waiter : RequestId → TurnState} (hwaiter : ∀ x, waiter x ≠ .Failed)
    (turn : Turn) : afterTurn waiter turn ≠ .Failed := by
  unfold afterTurn
  split
  · exact hwaiter _
  · simp

namespace LocalRuntime

variable {P N Ib : Type}

theorem quiet_emit (rt : LocalRuntime P N Ib) {event : Event}
    (h : (Effect.Emitted event).reported = none) : ∀ e ∈ rt.emit event, e.quiet := by
  intro e he
  cases mem_emit he
  exact ⟨h, rfl⟩

theorem quiet_send [Transport N] (rt : LocalRuntime P N Ib) (origin target : Address)
    (message : Message) : ∀ e ∈ (rt.send origin target message).effects, e.quiet := by
  intro e he
  obtain ⟨accepted, rfl⟩ := mem_send he
  exact ⟨rfl, rfl⟩

theorem quiet_receipt [Transport N] (rt : LocalRuntime P N Ib) (self peer : Address)
    (ack : Option Message) : ∀ e ∈ (rt.receipt self peer ack).effects, e.quiet := by
  intro e he
  obtain ⟨message, accepted, rfl⟩ := mem_receipt he
  exact ⟨rfl, rfl⟩

variable [Party P]

theorem quiet_handOver (here : Address) (actor : LocalActor P Ib) (peer : Address) (turn : Turn) :
    ∀ e ∈ (actor.handOver here peer turn).2.2, e.quiet := by
  intro e he
  cases mem_handOver he
  exact ⟨rfl, rfl⟩

/-! ## Failing exchanges -/

theorem loud_failExchange {rt : LocalRuntime P N Ib} (hobserver : rt.observer = true) (name : ActorName)
    (actor : LocalActor P Ib) (peer : Address) (cause : FailureCause) :
    Loud (rt.address name) actor.party.isSome cause [peer]
      ((actor.failExchange (rt.address name) peer cause).2 ++
        rt.emit (.ExchangeFailed (rt.address name) peer cause)) := by
  have hemit : rt.emit (.ExchangeFailed (rt.address name) peer cause) =
      [.Emitted (.ExchangeFailed (rt.address name) peer cause)] := by
    simp only [emit, hobserver, if_true]
  rw [hemit, LocalActor.failExchange_snd]
  refine ⟨?_, ?_⟩
  · cases actor.conversations.lookup peer <;> cases actor.party <;> rfl
  · cases actor.conversations.lookup peer <;> cases actor.party <;> rfl

theorem loud_failEach {rt : LocalRuntime P N Ib} (hobserver : rt.observer = true) (name : ActorName)
    (actor : LocalActor P Ib) (cause : FailureCause) (peers : List Address) :
    Loud (rt.address name) actor.party.isSome cause peers (rt.failEach name actor cause peers).2 := by
  induction peers generalizing actor with
  | nil => exact loud_of_quiet (by simp [failEach])
  | cons p peers ih =>
    refine (loud_failExchange hobserver name actor p cause).append ?_
    rw [← LocalActor.failExchange_party_isSome (rt.address name) actor p cause]
    exact ih _

/-! ## A turn -/

variable [Transport N]

/-- How a legal turn of `peer` ends: what is loud about it, and where it leaves the machine. -/
inductive Ended (here : Address) (party : Bool) (peer : Address) (effects : List Effect)
    (after : TurnState) : Prop
  | kept (hafter : after ≠ .Failed) (h : ∀ cause, Loud here party cause [] effects)
  | failed (cause : FailureCause) (hafter : after = .Failed) (h : Loud here party cause [peer] effects)
  | closed (hafter : after = .Idle) (origin : Address) (answer : Response)
      (hsent : .Sent origin peer (.Turn (.Close answer)) false ∈ effects)
      (h : Loud here party .SendFailed [peer] effects)

omit [Party P] [Transport N] in
theorem Ended.after_quiet {here : Address} {party : Bool} {peer : Address} {es es' : List Effect}
    {after : TurnState} (h : Ended here party peer es' after) (hquiet : ∀ e ∈ es, e.quiet) :
    Ended here party peer (es ++ es') after := by
  rcases h with ⟨hafter, h⟩ | ⟨cause, hafter, h⟩ | ⟨hafter, origin, answer, hsent, h⟩
  · exact .kept hafter fun cause => (h cause).after_quiet hquiet
  · exact .failed cause hafter (h.after_quiet hquiet)
  · exact .closed hafter origin answer (List.mem_append_right es hsent) (h.after_quiet hquiet)

/-- An `Open` is legal outside an exchange, so a machine that refuses is in one. -/
theorem live_of_illegal {s : TurnState} {reply : Turn} {error : TurnError}
    (h : (s.onOutgoing reply).1 = .error error)
    (hlegal : (∃ r, reply = .Open r) ∨ s.live = true) : s.live = true := by
  rcases hlegal with ⟨r, rfl⟩ | hlive
  · cases s with
    | Idle | Failed => cases h
    | AwaitingTheirTurn x | OweThem x => rfl
  · exact hlive

theorem Answered.ended {rt : LocalRuntime P N Ib} (hobserver : rt.observer = true)
    {name : ActorName} {actor : LocalActor P Ib} {self peer : Address} {reply : Turn}
    {ran : Ran P N Ib Stepped} (h : Answered rt name actor self peer reply ran)
    (hlegal : (∃ r, reply = .Open r) ∨ (actor.peer peer).state.live = true) :
    ∃ actor', ran.rt.actors name = some actor' ∧
      Ended (rt.address name) actor.party.isSome peer ran.effects (actor'.peer peer).state := by
  have hmoved : ∀ before after : TurnState, ∀ e ∈ [Effect.Moved (rt.address name) peer before after],
      e.quiet := by
    intro before after e he
    cases List.mem_singleton.mp he
    exact Effect.quiet_moved ..
  rcases h with ⟨error, hout, _, rfl⟩ | ⟨progress, hout, _, rfl, hrefused, _, rfl⟩ |
    ⟨progress, hout, _, rfl, haccepted⟩
  · have hlive := live_of_illegal hout hlegal
    have hloud := loud_failExchange hobserver name (actor.setPeer peer (actor.peer peer)) peer .IllegalReply
    refine ⟨_, setActor_self .., .failed .IllegalReply ?_ (hloud.after_quiet (hmoved _ _))⟩
    rw [LocalActor.failExchange_peer, if_pos rfl, LocalActor.peer_setPeer_self, PeerState.fail_of_live hlive]
  · have hquiet : ∀ e ∈ Effect.Moved (rt.address name) peer (actor.peer peer).state
        (afterTurn .AwaitingTheirTurn reply) :: (rt.send self peer (.Turn reply)).effects, e.quiet := by
      rw [List.forall_mem_cons]
      exact ⟨Effect.quiet_moved .., quiet_send rt self peer _⟩
    have hobserver' : (rt.send self peer (.Turn reply)).rt.observer = true := by
      rw [send_rt]
      exact hobserver
    have haddress : (rt.send self peer (.Turn reply)).rt.address name = rt.address name := by
      rw [send_rt]
      rfl
    have hloud : Loud (rt.address name) actor.party.isSome .SendFailed [peer]
        ((rt.send self peer (.Turn reply)).rt.failExchange name (rt.arm actor peer reply progress) peer
          .SendFailed).effects := by
      rw [← haddress]
      exact loud_failExchange hobserver' name (rt.arm actor peer reply progress) peer .SendFailed
    have harmed : (rt.arm actor peer reply progress).peer peer = _ := LocalActor.peer_setPeer_self ..
    refine ⟨_, setActor_self .., ?_⟩
    rw [LocalActor.failExchange_peer, if_pos rfl, harmed]
    cases hposed : reply.request with
    | some r =>
      -- The machine waits for an answer, and now it fails.
      refine .failed .SendFailed ?_ (hloud.after_quiet hquiet)
      simp [PeerState.armed, afterTurn, Turn.posed, hposed, TurnState.fail]
    | none =>
      -- The reply closed the exchange, and the machine is idle already.
      obtain ⟨answer, rfl⟩ : ∃ answer, reply = .Close answer := by
        cases reply <;> simp_all
      refine .closed rfl self answer ?_ (hloud.after_quiet hquiet)
      refine List.mem_append_left _ (List.mem_cons_of_mem _ ?_)
      rw [send_effects, hrefused]
      exact List.mem_singleton_self _
  · refine ⟨_, setActor_self .., .kept ?_ fun cause => loud_of_quiet ?_⟩
    · rw [arm, LocalActor.peer_setPeer_self]
      exact afterTurn_ne_failed (by simp) reply
    · rw [List.forall_mem_cons]
      exact ⟨Effect.quiet_moved .., quiet_send rt self peer _⟩

theorem TookTurn.ended {rt : LocalRuntime P N Ib} (hobserver : rt.observer = true)
    {name : ActorName} {actor : LocalActor P Ib} {self peer : Address} {turn : Turn}
    {ack : Option Message} {ran : Ran P N Ib Stepped}
    (h : TookTurn rt name actor self peer turn ack ran)
    (hopens : ∀ progress, ((actor.peer peer).state.onIncoming turn).1 = .ok progress →
      turn.request = none → ∀ reply, actor.reply peer turn = some reply → ∃ r, reply = .Open r) :
    ∃ actor', ran.rt.actors name = some actor' ∧ (∀ q, q ≠ peer → actor'.peer q = actor.peer q) ∧
      ((∃ error, ((actor.peer peer).state.onIncoming turn).1 = .error error ∧
          actor'.peer peer = actor.peer peer ∧ ∀ e ∈ ran.effects, e.quiet) ∨
        (∃ progress, ((actor.peer peer).state.onIncoming turn).1 = .ok progress ∧
          Ended (rt.address name) actor.party.isSome peer ran.effects (actor'.peer peer).state)) := by
  have hothers := h.retook
  have hquiet : ∀ reply taken effects,
      (hear actor peer turn).handOver (rt.address name) peer turn = (reply, taken, effects) →
      ∀ e ∈ Effect.Moved (rt.address name) peer (actor.peer peer).state (afterTurn .OweThem turn) ::
        (rt.receipt self peer ack).effects ++ effects, e.quiet := by
    intro reply taken effects hhanded
    have heffects := quiet_handOver (rt.address name) (hear actor peer turn) peer turn
    rw [hhanded] at heffects
    simp only [List.cons_append, List.forall_mem_cons, List.forall_mem_append]
    exact ⟨Effect.quiet_moved .., quiet_receipt rt self peer ack, heffects⟩
  obtain ⟨net, actor', hrt, hretook, -⟩ := hothers
  have hinstalled : ran.rt.actors name = some actor' := by rw [hrt, setActor_self]
  refine ⟨actor', hinstalled, hretook.others, ?_⟩
  rcases h with ⟨error, hin⟩ | ⟨progress, hin, taken, effects, hsilent⟩ |
    ⟨progress, hin, reply, taken, effects, hreply, ran, hran⟩
  · cases hinstalled.symm.trans (setActor_self ..)
    refine Or.inl ⟨error, hin, LocalActor.peer_setPeer_self .., ?_⟩
    rw [List.forall_mem_cons]
    exact ⟨Effect.quiet_moved .., quiet_emit rt rfl⟩
  · cases hinstalled.symm.trans (setActor_self ..)
    obtain ⟨-, hpeer, -⟩ := retook_of_handOver hsilent
    refine Or.inr ⟨progress, hin, .kept ?_ fun cause => loud_of_quiet (hquiet _ _ _ hsilent)⟩
    rw [hpeer]
    exact afterTurn_ne_failed (by simp) turn
  · obtain ⟨hretook', hpeer, hsome⟩ := retook_of_handOver hreply
    have hobserver' : (rt.receipt self peer ack).rt.observer = true := by
      rw [receipt_rt]
      exact hobserver
    have haddress : (rt.receipt self peer ack).rt.address name = rt.address name := by
      rw [receipt_rt]
      rfl
    have hlegal : (∃ r, reply = .Open r) ∨ (taken.peer peer).state.live = true := by
      cases hrequest : turn.request with
      | none => exact Or.inl (hopens progress hin hrequest reply hsome)
      | some r =>
        rw [hpeer]
        refine Or.inr ?_
        simp [afterTurn, Turn.posed, hrequest]
    obtain ⟨actor'', hactor'', hended⟩ := hran.ended hobserver' hlegal
    cases hinstalled.symm.trans hactor''
    rw [haddress, hretook'.party] at hended
    exact Or.inr ⟨progress, hin, hended.after_quiet (hquiet _ _ _ hreply)⟩

/-! ## What a call says and what it does -/

variable [Registry N Ib]

omit [Party P] [Transport N] [Registry N Ib] in
/-- The machine of the actor `name` for its conversation with `peer`. -/
def turnState (rt : LocalRuntime P N Ib) (name : ActorName) (peer : Address) : TurnState :=
  (rt.actors name).elim .Idle fun actor => (actor.peer peer).state

/-- The exchange of the actor `name` with `peer` is live before the call, or the call takes an `Open` of
the peer, which is legal outside of an exchange and makes one live. -/
def Engaged (rt : LocalRuntime P N Ib) (call : Call P N) (name : ActorName) (peer : Address) : Prop :=
  (rt.turnState name peer).live = true ∨ ∃ request, rt.Reaches call name peer (.Turn (.Open request))

/-- The exchange is live in the call, and the call leaves the machine in `Failed`. -/
def Fails (rt : LocalRuntime P N Ib) (call : Call P N) (name : ActorName) (peer : Address) : Prop :=
  rt.Engaged call name peer ∧ (rt.next call).turnState name peer = .Failed

/-- The exchange was concluded by a `Close` that the transport refused, and the machine is idle. -/
structure RefusedClose (rt : LocalRuntime P N Ib) (call : Call P N) (name : ActorName) (peer : Address) :
    Prop where
  engaged : rt.Engaged call name peer
  idle : (rt.next call).turnState name peer = .Idle
  sent : ∃ origin answer, .Sent origin peer (.Turn (.Close answer)) false ∈ (rt.exec call).2

/-- The actor takes an `Open` of `peer` outside of an exchange: a new one begins. -/
def Opened (rt : LocalRuntime P N Ib) (call : Call P N) (name : ActorName) (peer : Address) : Prop :=
  (rt.turnState name peer).live = false ∧ ∃ request, rt.Reaches call name peer (.Turn (.Open request))

def reportedOf (here : Address) (effects : List Effect) : List (Address × FailureCause) :=
  ((effects.filterMap Effect.reported).filter (·.1 = here)).map (·.2)

def toldOf (here : Address) (effects : List Effect) : List (Address × FailureCause) :=
  ((effects.filterMap Effect.told).filter (·.1 = here)).map (·.2)

def hasParty (rt : LocalRuntime P N Ib) (name : ActorName) : Bool :=
  (rt.actors name).all (·.party.isSome)

/-- The failures that a call reports of the actor `name`, each of them once and as its party hears of it,
are the exchanges that fail in it, and the `Close` that was refused. -/
structure Accounted (rt : LocalRuntime P N Ib) (call : Call P N) (name : ActorName) : Prop where
  told : toldOf (rt.address name) (rt.exec call).2 =
    if rt.hasParty name then reportedOf (rt.address name) (rt.exec call).2 else []
  once : ((reportedOf (rt.address name) (rt.exec call).2).map (·.1)).Nodup
  failed : ∀ peer cause, (peer, cause) ∈ reportedOf (rt.address name) (rt.exec call).2 →
    rt.Fails call name peer ∨ cause = .SendFailed ∧ rt.RefusedClose call name peer
  reported : ∀ peer, rt.Fails call name peer →
    ∃ cause, (peer, cause) ∈ reportedOf (rt.address name) (rt.exec call).2

section

variable {rt : LocalRuntime P N Ib} {call : Call P N} {name : ActorName}

omit [Party P] [Transport N] [Registry N Ib] in
theorem turnState_of_actor {actor : LocalActor P Ib} (h : rt.actors name = some actor) (peer : Address) :
    rt.turnState name peer = (actor.peer peer).state := by
  simp only [turnState, h, Option.elim_some]

omit [Party P] [Transport N] [Registry N Ib] in
theorem turnState_of_none (h : rt.actors name = none) (peer : Address) : rt.turnState name peer = .Idle := by
  simp only [turnState, h, Option.elim_none]

theorem not_fails {peer : Address}
    (hkept : (rt.next call).turnState name peer = rt.turnState name peer ∨
      (rt.next call).turnState name peer = .Idle)
    (hopen : ∀ request, rt.Reaches call name peer (.Turn (.Open request)) →
      (rt.turnState name peer).live = true) : ¬ rt.Fails call name peer := by
  rintro ⟨hengaged, hfailed⟩
  have hlive : (rt.turnState name peer).live = true := by
    rcases hengaged with hlive | ⟨request, hreached⟩
    · exact hlive
    · exact hopen request hreached
  rcases hkept with hkept | hidle
  · rw [← hkept, hfailed] at hlive
    cases hlive
  · cases hidle.symm.trans hfailed

/-- What a call says and does, as far as the actor `name` is concerned. -/
structure Reckoned (rt : LocalRuntime P N Ib) (call : Call P N) (name : ActorName) (cause : FailureCause)
    (peers : List Address) : Prop where
  loud : Loud (rt.address name) (rt.hasParty name) cause peers (rt.exec call).2
  nodup : peers.Nodup
  failed : ∀ peer ∈ peers, rt.Fails call name peer ∨ cause = .SendFailed ∧ rt.RefusedClose call name peer
  spared : ∀ peer, peer ∉ peers → ¬ rt.Fails call name peer

omit [Party P] [Transport N] [Registry N Ib] in
theorem reportedOf_loud {here : Address} {party : Bool} {cause : FailureCause} {peers : List Address}
    {effects : List Effect} (h : Loud here party cause peers effects) :
    reportedOf here effects = peers.map (·, cause) ∧
      toldOf here effects = if party then peers.map (·, cause) else [] := by
  unfold reportedOf toldOf
  rw [h.reported, h.told]
  cases party <;> simp [List.filter_map, Function.comp_def]

omit [Party P] [Transport N] [Registry N Ib] in
theorem reportedOf_elsewhere {here there : Address} {party : Bool} {cause : FailureCause}
    {peers : List Address} {effects : List Effect} (h : Loud here party cause peers effects)
    (hne : here ≠ there) : reportedOf there effects = [] ∧ toldOf there effects = [] := by
  unfold reportedOf toldOf
  rw [h.reported, h.told]
  cases party <;> simp [List.filter_map, Function.comp_def, hne]

theorem Reckoned.accounted {cause : FailureCause} {peers : List Address}
    (h : Reckoned rt call name cause peers) : rt.Accounted call name := by
  obtain ⟨hreported, htold⟩ := reportedOf_loud h.loud
  refine ⟨by rw [htold, hreported], ?_, ?_, ?_⟩
  · rw [hreported, List.map_map]
    simpa [Function.comp_def] using h.nodup
  · intro peer cause' hmem
    rw [hreported] at hmem
    obtain ⟨peer', hpeer', heq⟩ := List.mem_map.mp hmem
    cases heq
    exact h.failed _ hpeer'
  · intro peer hfails
    rw [hreported]
    refine ⟨cause, List.mem_map.mpr ⟨peer, ?_, rfl⟩⟩
    by_contra hmem
    exact h.spared peer hmem hfails

theorem reckoned_nothing (hquiet : ∀ e ∈ (rt.exec call).2, e.quiet)
    (hkept : ∀ peer, (rt.next call).turnState name peer = rt.turnState name peer ∨
      (rt.next call).turnState name peer = .Idle)
    (hopen : ∀ peer request, rt.Reaches call name peer (.Turn (.Open request)) →
      (rt.turnState name peer).live = true) : ∃ cause peers, Reckoned rt call name cause peers :=
  ⟨.SendFailed, [], loud_of_quiet hquiet, List.nodup_nil, by simp,
    fun peer _ => not_fails (hkept peer) (hopen peer)⟩

/-- The call fails live exchanges, one after another. `listed` is the actor with the changes made before. -/
theorem reckoned_failEach (hobserver : rt.observer = true) {actor listed : LocalActor P Ib}
    {rt' : LocalRuntime P N Ib} {cause : FailureCause} {peers : List Address}
    (hexec : rt.exec call = (rt'.setActor name (rt'.failEach name listed cause peers).1,
      (rt'.failEach name listed cause peers).2))
    (hactor : rt.actors name = some actor) (hconversations : listed.conversations = actor.conversations)
    (hparty : listed.party = actor.party) (hendpoint : rt'.endpoint = rt.endpoint)
    (hobserver' : rt'.observer = rt.observer) (hnodup : peers.Nodup)
    (hlive : ∀ p ∈ peers, (actor.peer p).state.live = true)
    (hnone : ∀ peer message, ¬ rt.Reaches call name peer message) :
    ∃ cause peers, Reckoned rt call name cause peers := by
  have hafter : (rt.next call).actors name = some (rt'.failEach name listed cause peers).1 := by
    rw [next, hexec]
    exact setActor_self ..
  have hpeer : ∀ p, listed.peer p = actor.peer p := fun p => by simp only [LocalActor.peer, hconversations]
  have hbefore := turnState_of_actor hactor
  have hstate : ∀ p, (rt.next call).turnState name p =
      (if p ∈ peers then (actor.peer p).fail else actor.peer p).state := fun p => by
    rw [turnState_of_actor hafter, failEach_peer, hpeer]
  refine ⟨cause, peers, ?_, hnodup, fun p hp => Or.inl ⟨Or.inl ?_, ?_⟩, fun p hp => not_fails (Or.inl ?_) ?_⟩
  · have hloud := loud_failEach (hobserver'.trans hobserver) name listed cause peers
    rwa [hexec, hasParty, hactor, Option.all_some, ← hparty, address, ← hendpoint]
  · rw [hbefore]
    exact hlive p hp
  · rw [hstate, if_pos hp, PeerState.fail_of_live (hlive p hp)]
  · rw [hstate, if_neg hp, hbefore]
  · exact fun request hreached => absurd hreached (hnone p _)

omit [Party P] [Transport N] in
theorem installInner_turnState (rt : LocalRuntime P N Ib) (own : ActorName) (allowlist : Allowlist)
    (deadlines : Deadlines) (kind : ActorKind) (party : Option (Boxed P)) (name : ActorName) (peer : Address) :
    (rt.installInner own allowlist deadlines kind party).rt.turnState name peer = rt.turnState name peer ∨
      (rt.installInner own allowlist deadlines kind party).rt.turnState name peer = .Idle := by
  rcases rt.installInner_actors own allowlist deadlines kind party name with hkept | ⟨-, -, inbox, hactor⟩
  · left
    simp only [turnState, hkept]
  · exact Or.inr (turnState_of_actor hactor peer)

omit [Party P] [Transport N] in
theorem execute_turnState (rt : LocalRuntime P N Ib) (command : Harness) (controller : Address)
    (name : ActorName) (peer : Address) :
    (rt.execute command controller).rt.turnState name peer = rt.turnState name peer ∨
      (rt.execute command controller).rt.turnState name peer = .Idle := by
  cases command with
  | Ping | Spawned _ | Stopped _ | Pong | Failed _ => exact Or.inl rfl
  | Spawn spawned =>
    have hspawned : (rt.execute (.Spawn spawned) controller).rt =
        (rt.installParty spawned (Allowlist.empty.admitEndpoint controller.endpoint)
          rt.spawnDeadlines (.echo .new)).rt := by
      simp only [execute]
      split <;> rfl
    rw [hspawned]
    exact installInner_turnState ..
  | Stop stopped =>
    simp only [execute]
    split
    · by_cases hname : name = stopped
      · subst hname
        exact Or.inr (turnState_of_none (by simp) peer)
      · simp only [turnState, Function.update_of_ne hname, true_or]
    · exact Or.inl rfl

theorem turnState_of_other (hname : call.name ≠ some name) (peer : Address) :
    (rt.next call).turnState name peer = rt.turnState name peer ∨
      (rt.next call).turnState name peer = .Idle := by
  have hframed := exec_framed rt call
  unfold next
  generalize (rt.exec call).1 = rt' at hframed
  rcases hframed with _ | _ | ⟨own, allowlist, deadlines, kind, party⟩ | ⟨own, hown, dead, -, net, actor⟩ |
    ⟨own, delivery, hcall, command, net⟩
  · exact Or.inl rfl
  · exact Or.inl rfl
  · exact installInner_turnState ..
  · left
    have hne : name ≠ own := fun heq => hname (heq ▸ hown)
    simp only [turnState, setActor_of_ne _ _ hne]
  · exact execute_turnState (rt.heardFrom delivery.origin.endpoint) command delivery.origin name peer

omit [Party P] [Transport N] [Registry N Ib] in
theorem not_reaches (hcall : ∀ delivery, call ≠ .Step name (.Delivery (some delivery))) (peer : Address)
    (message : Message) : ¬ rt.Reaches call name peer message := by
  rintro ⟨actor, target, hstep, -⟩
  exact hcall _ hstep

/-- A party answers an accepted `Close` with an `Open`, if with anything. -/
def OpensAfterClose (rt : LocalRuntime P N Ib) (call : Call P N) : Prop :=
  ∀ actor peer answer progress reply, rt.Takes call actor peer (.Close answer) →
    ((actor.peer peer).state.onIncoming (.Close answer)).1 = .ok progress →
    actor.reply peer (.Close answer) = some reply → ∃ r, reply = .Open r

omit [Party P] [Transport N] [Registry N Ib] in
theorem live_of_refused {s : TurnState} {request : Request} {error : TurnError}
    (h : (s.onIncoming (.Open request)).1 = .error error) : s.live = true := by
  cases s with
  | Idle | Failed => cases h
  | AwaitingTheirTurn x | OweThem x => rfl

theorem TookTurn.reckoned (hobserver : rt.observer = true) {actor : LocalActor P Ib}
    (hactor : rt.actors name = some actor) (hquiet : actor.affected (· ∈ rt.dead) = [])
    {origin target : Address} (hok : actor.allowlist.allows origin.endpoint = true) {turn : Turn}
    (hopens : rt.OpensAfterClose (.Step name (.Delivery (some ⟨origin, target, .Turn turn⟩))))
    {ack : Option Message} {ran : Ran P N Ib Stepped}
    (h : TookTurn (rt.heardFrom origin.endpoint) name actor target origin turn ack ran)
    (hnext : rt.next (.Step name (.Delivery (some ⟨origin, target, .Turn turn⟩))) = ran.rt)
    (heffects : (rt.exec (.Step name (.Delivery (some ⟨origin, target, .Turn turn⟩)))).2 = ran.effects) :
    ∃ cause peers,
      Reckoned rt (.Step name (.Delivery (some ⟨origin, target, .Turn turn⟩))) name cause peers := by
  have hbefore := turnState_of_actor hactor
  have hparty : rt.hasParty name = actor.party.isSome := by rw [hasParty, hactor, Option.all_some]
  have hobserver' : (rt.heardFrom origin.endpoint).observer = true := hobserver
  obtain ⟨actor', hactor', hothers, hended⟩ := h.ended hobserver' fun progress hin hrequest reply hreply => by
    obtain ⟨answer, rfl⟩ : ∃ answer, turn = .Close answer := by
      cases turn <;> simp_all
    exact hopens actor origin answer progress reply ⟨name, target, rfl, hactor, hquiet, hok⟩ hin hreply
  rw [← hnext] at hactor'
  have hafter := turnState_of_actor hactor'
  have hreached : ∀ peer message, rt.Reaches (.Step name (.Delivery (some ⟨origin, target, .Turn turn⟩))) name
      peer message → peer = origin ∧ message = .Turn turn := by
    rintro peer message ⟨_, _, hcall, -⟩
    cases hcall
    exact ⟨rfl, rfl⟩
  have hspared : ∀ peer, peer ≠ origin →
      ¬ rt.Fails (.Step name (.Delivery (some ⟨origin, target, .Turn turn⟩))) name peer := by
    intro peer hpeer
    refine not_fails (Or.inl ?_) fun request hopen => absurd (hreached _ _ hopen).1 hpeer
    rw [hafter, hbefore, hothers peer hpeer]
  rcases hended with ⟨error, hin, hsame, hsilent⟩ | ⟨progress, hin, hended⟩
  · refine reckoned_nothing (by rwa [heffects]) (fun peer => Or.inl ?_) fun peer request hopen => ?_
    · rw [hafter, hbefore]
      by_cases hpeer : peer = origin
      · rw [hpeer, hsame]
      · rw [hothers peer hpeer]
    · obtain ⟨rfl, hturn⟩ := hreached _ _ hopen
      cases hturn
      rw [hbefore]
      exact live_of_refused hin
  · have hengaged : rt.Engaged (.Step name (.Delivery (some ⟨origin, target, .Turn turn⟩))) name origin := by
      rcases ((onIncoming_ok_iff ..).mp hin).opens_or_live (fun _ => rfl) with ⟨request, rfl⟩ | hlive
      · exact Or.inr ⟨request, actor, target, rfl, hactor, hquiet, hok⟩
      · exact Or.inl (by rwa [hbefore])
    rcases hended with ⟨hstate, hloud⟩ | ⟨cause, hstate, hloud⟩ | ⟨hstate, here, answer, hsent, hloud⟩
    · refine ⟨.SendFailed, [], ?_, List.nodup_nil, by simp, fun peer _ => ?_⟩
      · rw [heffects, hparty]
        exact hloud _
      · by_cases hpeer : peer = origin
        · rw [hpeer]
          exact fun hfails => hstate ((hafter origin).symm.trans hfails.2)
        · exact hspared peer hpeer
    · refine ⟨cause, [origin], ?_, List.nodup_singleton _, fun peer hpeer => ?_, fun peer hpeer => ?_⟩
      · rw [heffects, hparty]
        exact hloud
      · cases List.mem_singleton.mp hpeer
        exact Or.inl ⟨hengaged, (hafter origin).trans hstate⟩
      · exact hspared peer (List.ne_of_not_mem_cons hpeer)
    · refine ⟨.SendFailed, [origin], ?_, List.nodup_singleton _, fun peer hpeer => ?_, fun peer hpeer => ?_⟩
      · rw [heffects, hparty]
        exact hloud
      · cases List.mem_singleton.mp hpeer
        refine Or.inr ⟨rfl, hengaged, (hafter origin).trans hstate, here, answer, ?_⟩
        rwa [heffects]
      · exact hspared peer (List.ne_of_not_mem_cons hpeer)

theorem Delivered.reckoned (hobserver : rt.observer = true) {actor : LocalActor P Ib}
    (hactor : rt.actors name = some actor) {delivery : Delivery} (hquiet : actor.affected (· ∈ rt.dead) = [])
    (hopens : rt.OpensAfterClose (.Step name (.Delivery (some delivery))))
    (h : Delivered (rt.heardFrom delivery.origin.endpoint) name actor delivery
      (rt.step name (.Delivery (some delivery)))) :
    ∃ cause peers, Reckoned rt (.Step name (.Delivery (some delivery))) name cause peers := by
  obtain ⟨origin, target, message⟩ := delivery
  have hbefore := turnState_of_actor hactor
  have hnext : (rt.next (.Step name (.Delivery (some ⟨origin, target, message⟩)))) =
      (rt.step name (.Delivery (some ⟨origin, target, message⟩))).rt := rfl
  have heffects : (rt.exec (.Step name (.Delivery (some ⟨origin, target, message⟩)))).2 =
      (rt.step name (.Delivery (some ⟨origin, target, message⟩))).effects := rfl
  generalize rt.step name (.Delivery (some ⟨origin, target, message⟩)) = ran at h hnext heffects
  -- The call takes no turn, and what it says is not loud.
  have hother : (∀ e ∈ ran.effects, e.quiet) → (∀ peer, ran.rt.turnState name peer = rt.turnState name peer ∨
      ran.rt.turnState name peer = .Idle) → (∀ turn, actor.allowlist.allows origin.endpoint = true →
      message ≠ .Turn turn) →
      ∃ cause peers, Reckoned rt (.Step name (.Delivery (some ⟨origin, target, message⟩))) name cause peers := by
    intro hquiet hkept hturn
    refine reckoned_nothing (by rwa [heffects]) (by rwa [hnext]) ?_
    rintro peer request ⟨actor', target', hcall, hactor', -, hadmitted⟩
    cases hcall
    cases hactor.symm.trans hactor'
    exact absurd rfl (hturn _ hadmitted)
  have hsent : ∀ {rt' : LocalRuntime P N Ib} {message : Message} (peer : Address),
      (rt'.sendAndReturn target origin message).rt.turnState name peer = rt'.turnState name peer := by
    intro rt' message peer
    simp only [sendAndReturn, send_rt]
    rfl
  rcases h with ⟨hno⟩ | ⟨hok, request, rfl⟩ | ⟨hok, ack, rfl⟩ | ⟨hok, harness, rfl, hkind⟩ |
    ⟨hok, harness, rfl, hkind, reply, hreply⟩ | ⟨hok, harness, rfl, hkind, hreply⟩ |
    ⟨hok, turn, rfl, ran, hran⟩
  · refine hother (quiet_emit _ rfl) (fun _ => Or.inl rfl) fun _ hok => ?_
    cases hno.symm.trans hok
  · exact hother (quiet_send _ _ _ _) (fun peer => Or.inl (hsent peer)) fun _ _ => by simp
  · refine hother (by simp) (fun peer => Or.inl ?_) fun _ _ => by simp
    rw [turnState_of_actor (setActor_self ..), hbefore, LocalActor.peer_modify _ _ _ _ rfl]
    split
    · rename_i heq
      rw [heq, PeerState.settleAck_state]
    · rfl
  · exact hother (quiet_send _ _ _ _) (fun peer => Or.inl (hsent peer)) fun _ _ => by simp
  · refine hother (quiet_send _ _ _ _) (fun peer => ?_) fun _ _ => by simp
    rw [hsent]
    exact execute_turnState (rt.heardFrom origin.endpoint) harness origin name peer
  · exact hother (by simp)
      (fun peer => execute_turnState (rt.heardFrom origin.endpoint) harness origin name peer)
      fun _ _ => by simp
  · exact hran.reckoned hobserver hactor hquiet hok hopens hnext heffects

theorem exec_reckoned (hobserver : rt.observer = true) (hwaiting : rt.Each PeerState.Waiting)
    (hopens : rt.OpensAfterClose call) (hname : call.name = some name) :
    ∃ cause peers, Reckoned rt call name cause peers := by
  have hnothing : (∀ peer message, ¬ rt.Reaches call name peer message) → (rt.exec call).2 = [] →
      (∀ peer, (rt.next call).turnState name peer = rt.turnState name peer ∨
        (rt.next call).turnState name peer = .Idle) → ∃ cause peers, Reckoned rt call name cause peers :=
    fun hnone heffects hkept => reckoned_nothing (by simp [heffects]) hkept
      fun peer request hreached => absurd hreached (hnone peer _)
  have hfailEach := @reckoned_failEach _ _ _ _ _ _ rt call name hobserver
  cases call with
  | Install own allowlist deadlines kind | InstallParty own allowlist deadlines party =>
    refine hnothing (not_reaches (by simp)) ?_ fun peer => ?_
    · simp only [exec, install, installParty, installInner_effects]
    · exact installInner_turnState ..
  | Elsewhere net clock => cases hname
  | Rehash own conversations =>
    cases hname
    refine hnothing (not_reaches (by simp)) rfl fun peer => Or.inl ?_
    simp only [next, exec, rehash]
    split
    · rename_i actor hactor
      split
      · rename_i hperm
        rw [turnState_of_actor (setActor_self ..), turnState_of_actor hactor]
        simp only [LocalActor.peer, AList.perm_lookup hperm]
      · rfl
    · rfl
  | Admit own endpoint =>
    cases hname
    refine hnothing (not_reaches (by simp)) ?_ fun peer => Or.inl ?_
    · simp only [exec, admitEndpoint]
      split <;> rfl
    · simp only [next, exec, admitEndpoint]
      split
      · rename_i actor hactor
        rw [turnState_of_actor (setActor_self ..), turnState_of_actor hactor]
        rfl
      · rfl
  | Revoke own endpoint =>
    cases hname
    cases hactor : rt.actors name with
    | none =>
      refine hnothing (not_reaches (by simp)) ?_ fun peer => Or.inl ?_
      · simp only [exec, revoke, hactor]
      · simp only [next, exec, revoke, hactor]
    | some actor =>
      let listed : LocalActor P Ib := { actor with allowlist := actor.allowlist.revoke endpoint }
      have hexec : rt.exec (.Revoke name endpoint) =
          (rt.setActor name (rt.failEach name listed .Revoked (listed.affected (· = endpoint))).1,
            (rt.failEach name listed .Revoked (listed.affected (· = endpoint))).2) := by
        simp only [exec, revoke, hactor, listed]
      exact hfailEach hexec hactor rfl rfl rfl rfl (Assoc.keysWhere_nodup ..)
        (fun p hp => (LocalActor.mem_affected.mp hp).1) (not_reaches (by simp))
  | Step own waited =>
    cases hname
    cases hactor : rt.actors name with
    | none =>
      have hstep : rt.step name waited = ⟨.Returned (.error .UnknownActor), rt, []⟩ := by
        simp only [step, hactor]
      refine hnothing ?_ ?_ fun peer => Or.inl ?_
      · rintro _ _ ⟨actor, _, _, hsome, -⟩
        cases hactor.symm.trans hsome
      · rw [exec, hstep]
      · rw [next, exec, hstep]
    | some actor =>
      have hdid := step_did hactor waited
      generalize hran : rt.step name waited = ran at hdid
      have hexec : rt.exec (.Step name waited) = (ran.rt, ran.effects) := by rw [exec, hran]
      rcases hdid with ⟨_, endpoint, hdead, hlive, _, rfl⟩ | ⟨endpoint, hquiet, _, rfl⟩ |
        ⟨hquiet, peer, kind, due, hdue, _, rfl⟩ | ⟨hquiet, hdue⟩ | ⟨hquiet⟩ |
        ⟨hquiet, delivery, ran, hdelivered⟩
      · refine hfailEach hexec hactor rfl rfl rfl rfl (Assoc.keysWhere_nodup ..)
          (fun p hp => (LocalActor.mem_affected.mp hp).1) ?_
        -- The sweep comes before the delivery.
        rintro _ _ ⟨actor', _, _, hactor', hquiet, -⟩
        cases hactor.symm.trans hactor'
        exact absurd (LocalActor.affected_of_quiet hquiet hdead) hlive
      · exact hfailEach hexec hactor rfl rfl rfl rfl (Assoc.keysWhere_nodup ..)
          (fun p hp => (LocalActor.mem_affected.mp hp).1) (not_reaches (by simp))
      · have hone : rt.exec (.Step name .DeadlineElapsed) =
            (rt.setActor name (rt.failEach name actor (.DeadlineElapsed kind) [peer]).1,
              (rt.failEach name actor (.DeadlineElapsed kind) [peer]).2) :=
          hexec.trans (congrArg (Prod.mk _) (List.append_nil _).symm)
        refine hfailEach hone hactor rfl rfl rfl rfl (List.nodup_singleton peer) (fun p hp => ?_)
          (not_reaches (by simp))
        rw [List.mem_singleton.mp hp]
        exact (hwaiting name actor hactor peer).live (LocalActor.earliestDue_armed hdue)
      · exact hnothing (not_reaches (by simp)) (congrArg Prod.snd hexec)
          fun peer => Or.inl (by rw [next, hexec])
      · exact hnothing (not_reaches (by simp)) (congrArg Prod.snd hexec)
          fun peer => Or.inl (by rw [next, hexec])
      · rw [← hran] at hdelivered
        exact hdelivered.reckoned hobserver hactor hquiet hopens

end

theorem exec_effects_nil {rt : LocalRuntime P N Ib} {call : Call P N} (h : call.name = none) :
    (rt.exec call).2 = [] := by
  cases call <;> first | rfl | cases h

theorem exec_accounted {rt : LocalRuntime P N Ib} (hobserver : rt.observer = true)
    (hwaiting : rt.Each PeerState.Waiting) {call : Call P N} (hopens : rt.OpensAfterClose call)
    (name : ActorName) : rt.Accounted call name := by
  by_cases hname : call.name = some name
  · obtain ⟨cause, peers, hreckoned⟩ := exec_reckoned hobserver hwaiting hopens hname
    exact hreckoned.accounted
  · -- Another actor's failures are not this one's.
    have hnothing : reportedOf (rt.address name) (rt.exec call).2 = [] ∧
        toldOf (rt.address name) (rt.exec call).2 = [] := by
      cases hown : call.name with
      | none =>
        rw [exec_effects_nil hown]
        exact ⟨rfl, rfl⟩
      | some own =>
        obtain ⟨cause, peers, hreckoned⟩ := exec_reckoned hobserver hwaiting hopens hown
        refine reportedOf_elsewhere hreckoned.loud fun heq => hname ?_
        have hsame : own = name := congrArg Address.name heq
        rw [hown, hsame]
    obtain ⟨hreported, htold⟩ := hnothing
    refine ⟨?_, ?_, ?_, fun peer hfails => absurd hfails (not_fails (turnState_of_other hname peer) ?_)⟩
    · rw [htold, hreported, ite_self]
    · rw [hreported]
      exact List.nodup_nil
    · rw [hreported]
      simp
    · exact fun request hreached => absurd hreached
        (not_reaches (fun delivery hcall => hname (by rw [hcall, Call.name])) peer _)

/-! ## A run -/

/-- A new exchange begins in the course of the calls. -/
def Reopens (rt : LocalRuntime P N Ib) (calls : List (Call P N)) (name : ActorName) (peer : Address) : Prop :=
  ∃ ahead call rest, calls = ahead ++ call :: rest ∧ (rt.after ahead).Opened call name peer

/-- The observer hears that the exchange of the actor `name` with `peer` failed. -/
def Reports (rt : LocalRuntime P N Ib) (call : Call P N) (name : ActorName) (peer : Address) : Prop :=
  ∃ cause, (peer, cause) ∈ reportedOf (rt.address name) (rt.exec call).2

section

variable {rt : LocalRuntime P N Ib} {call : Call P N} {name : ActorName} {peer : Address}

theorem not_live_next (hover : (rt.turnState name peer).live = false) (hnew : ¬ rt.Opened call name peer) :
    ((rt.next call).turnState name peer).live = false := by
  cases hactor' : (rt.next call).actors name with
  | none => rw [turnState_of_none hactor', live_idle]
  | some actor' =>
    rw [turnState_of_actor hactor']
    rcases exec_became hactor' peer with hfresh | ⟨actor, hactor, -, -, hkept⟩ | ⟨actor, hactor, hfailed⟩ |
      ⟨actor, hactor, -, ack, -, hsettled⟩ |
      ⟨actor, hactor, target, turn, hcall, hquiet, hadmitted, ran, hran, -, hrt⟩
    · rw [hfresh, PeerState.default_state, live_idle]
    · rwa [hkept, ← turnState_of_actor hactor]
    · rw [hfailed, PeerState.fail_state, fail_not_live]
    · rwa [hsettled, PeerState.settleAck_state, ← turnState_of_actor hactor]
    · rw [turnState_of_actor hactor] at hover
      have hillegal : ∀ progress, ((actor.peer peer).state.onIncoming turn).1 ≠ .ok progress := by
        intro progress hin
        rcases ((onIncoming_ok_iff ..).mp hin).opens_or_live (fun _ => rfl) with ⟨request, rfl⟩ | hlive
        · exact hnew ⟨by rwa [turnState_of_actor hactor], request, actor, target, hcall, hactor, hquiet, hadmitted⟩
        · rw [hover] at hlive
          cases hlive
      obtain ⟨net, taken, hrt', -, htook⟩ := hran.retook
      rw [hrt', setActor_self] at hrt
      cases hrt
      generalize actor'.peer peer = ps at htook
      rcases htook with ⟨error, -⟩ | ⟨progress, hin, -⟩ | ⟨progress, hin, state, hlive⟩ | ⟨progress, hin, -⟩
      · exact hover
      · exact absurd hin (hillegal progress)
      · exact hlive
      · exact absurd hin (hillegal progress)

theorem reopens_of_engaged {calls : List (Call P N)} (hover : (rt.turnState name peer).live = false)
    (hengaged : (rt.after calls).Engaged call name peer) : rt.Reopens (calls ++ [call]) name peer := by
  induction calls generalizing rt with
  | nil =>
    rcases hengaged with hlive | hopen
    · exact absurd (hover.symm.trans hlive) (by simp)
    · exact ⟨[], call, [], rfl, hover, hopen⟩
  | cons first calls ih =>
    by_cases hopened : rt.Opened first name peer
    · exact ⟨[], first, calls ++ [call], rfl, hopened⟩
    · obtain ⟨ahead, reopening, rest, heq, hnew⟩ := ih (not_live_next hover hopened) hengaged
      exact ⟨first :: ahead, reopening, rest, by rw [List.cons_append, heq, List.cons_append], hnew⟩

theorem Accounted.engaged (h : rt.Accounted call name) (hreports : rt.Reports call name peer) :
    rt.Engaged call name peer ∧ ((rt.next call).turnState name peer).live = false := by
  obtain ⟨cause, hcause⟩ := hreports
  rcases h.failed peer cause hcause with ⟨hengaged, hfailed⟩ | ⟨-, hrefused⟩
  · exact ⟨hengaged, by rw [hfailed, live_failed]⟩
  · exact ⟨hrefused.engaged, by rw [hrefused.idle, live_idle]⟩

end

theorem observer_after (rt : LocalRuntime P N Ib) (calls : List (Call P N)) :
    (rt.after calls).observer = rt.observer :=
  Run.invariant_all next (I := fun rt' => rt'.observer = rt.observer)
    (fun rt' call h => (exec_same rt' call).observer.trans h) rt calls rfl

theorem endpoint_after (rt : LocalRuntime P N Ib) (calls : List (Call P N)) :
    (rt.after calls).endpoint = rt.endpoint :=
  Run.invariant_all next (I := fun rt' => rt'.endpoint = rt.endpoint)
    (fun rt' call h => (exec_same rt' call).endpoint.trans h) rt calls rfl

theorem told_of_run {rt : LocalRuntime P N Ib} {name : ActorName} (calls : List (Call P N))
    (hrun : Run.Along next (fun rt call => rt.Accounted call name) rt calls)
    (hparty : Run.Along next (fun rt _ => rt.hasParty name = true) rt calls) :
    toldOf (rt.address name) (rt.effects calls) = reportedOf (rt.address name) (rt.effects calls) := by
  induction calls generalizing rt with
  | nil => rfl
  | cons call calls ih =>
    have haddress : (rt.exec call).1.address name = rt.address name := by
      rw [address, address, (exec_same rt call).endpoint]
    have hcall := hrun.1.told
    rw [hparty.1, if_pos rfl] at hcall
    have hrest := ih hrun.2 hparty.2
    rw [next, haddress] at hrest
    simp only [effects, Run.outputs, toldOf, reportedOf, List.filterMap_append, List.filter_append,
      List.map_append] at hrest hcall ⊢
    rw [hcall]
    exact congrArg _ hrest

/-- Failure accounting. In every run in which the parties answer a `Close` with an `Open` or not at all,
each call reports of each actor exactly the exchanges that it makes `Failed`, and the `Close` that the
transport refused, once each. Over any stretch in which an actor has a party, that party is told the
failures that the observer hears of. What is over, because it was concluded or failed, is not reported
until a new exchange has begun, and so nothing is reported twice. -/
theorem failure_accounting (rt : LocalRuntime P N Ib) (hfresh : rt.Fresh)
    (hobserver : rt.observer = true) (before stretch : List (Call P N))
    (hrun : Run.Along next OpensAfterClose rt (before ++ stretch)) :
    Run.Along next (fun rt call => ∀ name, rt.Accounted call name) (rt.after before) stretch ∧
    (∀ name, Run.Along next (fun rt _ => rt.hasParty name = true) (rt.after before) stretch →
      toldOf (rt.address name) ((rt.after before).effects stretch) =
        reportedOf (rt.address name) ((rt.after before).effects stretch)) ∧
    ∀ name peer pre mid call post, stretch = pre ++ mid ++ call :: post →
      let start := (rt.after before).after pre
      (start.after mid).Reports call name peer →
        ((start.turnState name peer).live = false → start.Reopens (mid ++ [call]) name peer) ∧
        ∀ first calls, mid = first :: calls → start.Reports first name peer →
          (start.next first).Reopens (calls ++ [call]) name peer := by
  have hobserver' := (observer_after rt before).trans hobserver
  have hwaiting := waiting_after (hfresh.each _) before
  have hstretch := ((Run.along_append next rt before stretch).mp hrun).2
  have haccounted : Run.Along next (fun rt call => ∀ name, rt.Accounted call name) (rt.after before) stretch := by
    refine Run.along_of_invariant next (I := fun rt => rt.observer = true ∧ rt.Each PeerState.Waiting) ?_ ?_
      _ _ ⟨hobserver', hwaiting⟩ hstretch
    · exact fun rt call ⟨hobs, hwait⟩ _ =>
        ⟨(exec_same rt call).observer.trans hobs, waiting_exec hwait call⟩
    · exact fun rt call ⟨hobs, hwait⟩ hopens name => exec_accounted hobs hwait hopens name
  refine ⟨haccounted, fun name hparty => ?_, ?_⟩
  · have htold := told_of_run stretch (Run.along_imp next (fun _ _ h => h name) _ _ haccounted) hparty
    rwa [address, endpoint_after] at htold
  · intro name peer pre mid call post hsplit start hreports
    rw [hsplit, List.append_assoc, Run.along_append, Run.along_append] at haccounted
    obtain ⟨-, hmid, hcall, -⟩ := haccounted
    obtain ⟨hengaged, -⟩ := (hcall name).engaged hreports
    refine ⟨fun hover => reopens_of_engaged hover hengaged, ?_⟩
    rintro first calls rfl hfirst
    exact reopens_of_engaged ((hmid.1 name).engaged hfirst).2 hengaged

section

open Sample

/-- Bob's party asks back, and each time the transport refuses it: two exchanges, two reports. -/
theorem failure_accounting_countdown :
    let rt := (bobsRuntime CountdownParty).after
      [.InstallParty bob.name (Allowlist.empty.admitEndpoint alice.endpoint) patience (.app (.new 1))]
    let calls : List (Call CountdownParty Shared) :=
      [.Step bob.name (opened bob alice 1), .Step bob.name (opened bob alice 2)]
    reportedOf bob (rt.effects calls) = [(alice, .SendFailed), (alice, .SendFailed)] ∧
      toldOf bob (rt.effects calls) = reportedOf bob (rt.effects calls) ∧
      (rt.next (.Step bob.name (opened bob alice 1))).Reopens [.Step bob.name (opened bob alice 2)]
        bob.name alice := by
  intro rt calls
  have h := failure_accounting (bobsRuntime CountdownParty) (bobsRuntime_fresh _) rfl
    [.InstallParty bob.name (Allowlist.empty.admitEndpoint alice.endpoint) patience (.app (.new 1))] calls
    ⟨?_, ?_, ?_, trivial⟩
  · refine ⟨by decide, h.2.1 bob.name ⟨by decide, by decide, trivial⟩, ?_⟩
    have hreports : ((rt.after []).after [.Step bob.name (opened bob alice 1)]).Reports
        (.Step bob.name (opened bob alice 2)) bob.name alice := ⟨.SendFailed, by decide⟩
    exact (h.2.2 bob.name alice [] [.Step bob.name (opened bob alice 1)] _ [] rfl hreports).2 _ [] rfl
      ⟨.SendFailed, by decide⟩
  all_goals
    rintro _ _ _ _ _ ⟨_, _, hcall, _⟩
    cases hcall

end

end LocalRuntime

/-- Asks back once, and answers the `Close` with another one. -/
inductive Chatty
  | mk

instance : Party Chatty where
  onTurn
    | .mk, _, .Open r => (.mk, some (.Continue ⟨r.id, []⟩ (Sample.request 2)))
    | .mk, _, .Continue _ r => (.mk, some (.Close ⟨r.id, []⟩))
    | .mk, _, .Close a => (.mk, some (.Close a))
  onExchangeFailed party _ _ := party

namespace LocalRuntime

section

open Sample

/-- A concluded exchange is reported failed: the machine is idle after the call. -/
theorem concluded_reported_failed :
    let rt := (bobsRuntime Chatty).after
      [.Elsewhere (fun net => (net.register alice).2) 0,
        .InstallParty bob.name (Allowlist.empty.admitEndpoint alice.endpoint) patience (.app .mk),
        .Step bob.name (opened bob alice 1)]
    let call : Call Chatty Shared :=
      .Step bob.name (.Delivery (some ⟨alice, bob, .Turn (.Close ⟨(request 2).id, []⟩)⟩))
    reportedOf bob (rt.exec call).2 = [(alice, .IllegalReply)] ∧
      (rt.next call).turnState bob.name alice = .Idle ∧ ¬ rt.Accounted call bob.name := by
  intro rt call
  have hreported : reportedOf bob (rt.exec call).2 = [(alice, .IllegalReply)] := by decide
  have hidle : (rt.next call).turnState bob.name alice = .Idle := by decide
  refine ⟨hreported, hidle, fun h => ?_⟩
  have hmem : (alice, .IllegalReply) ∈ reportedOf bob (rt.exec call).2 := by
    rw [hreported]
    exact List.mem_singleton_self _
  rcases h.failed alice .IllegalReply hmem with ⟨-, hfailed⟩ | ⟨hcause, -⟩
  · cases hidle.symm.trans hfailed
  · cases hcause

end

end LocalRuntime

end Kamiroh
