import Kamiroh.Runtime.Steps

/-!
# What a call does to the conversations

Every call leaves the conversations of an actor as they are, or it changes them one by one in a way
that `PeerTook`, a failure or a settled ack describes. `exec_each` is the invariant rule that follows,
and `Framed` says what a call leaves alone.
-/

namespace Kamiroh

open TurnState

variable {P N Ib : Type} [Party P]

def LocalActor.reply (actor : LocalActor P Ib) (peer : Address) (turn : Turn) : Option Turn :=
  actor.party.bind fun party => (Party.onTurn party peer turn).2

theorem LocalActor.handOver_fst (here : Address) (actor : LocalActor P Ib) (peer : Address)
    (turn : Turn) : (actor.handOver here peer turn).1 = actor.reply peer turn := by
  unfold handOver reply
  split
  · rename_i party h
    rw [h]
    rfl
  · rename_i h
    rw [h]
    rfl

/-- What a turn makes of its conversation, when the party replies `reply` to it. -/
inductive PeerTook (ps : PeerState) (turn : Turn) (reply : Option Turn) : PeerState → Prop
  | illegal (error : TurnError) (h : (ps.state.onIncoming turn).1 = .error error) :
      PeerTook ps turn reply ps
  | silent (progress : TurnProgress) (h : (ps.state.onIncoming turn).1 = .ok progress)
      (hreply : reply = none) : PeerTook ps turn reply ⟨afterTurn .OweThem turn, none, none⟩
  | failed (progress : TurnProgress) (h : (ps.state.onIncoming turn).1 = .ok progress)
      (state : TurnState) (hlive : state.live = false) : PeerTook ps turn reply ⟨state, none, none⟩
  | replied (progress : TurnProgress) (h : (ps.state.onIncoming turn).1 = .ok progress)
      (answer : Turn) (hreply : reply = some answer) (progress' : TurnProgress)
      (h' : ((afterTurn .OweThem turn).onOutgoing answer).1 = .ok progress') (now : Instant)
      (deadlines : Deadlines) :
      PeerTook ps turn reply
        (.armed (afterTurn .AwaitingTheirTurn answer) answer progress' now deadlines)

namespace LocalRuntime

/-! ## One conversation for another -/

/-- `actor'` is `actor` with another state of the conversation with `peer`. -/
structure Retook (actor : LocalActor P Ib) (peer : Address) (actor' : LocalActor P Ib) : Prop where
  others : ∀ q, q ≠ peer → actor'.peer q = actor.peer q
  allowlist : actor'.allowlist = actor.allowlist
  party : actor'.party.isSome = actor.party.isSome

omit [Party P] in
theorem Retook.setPeer (actor : LocalActor P Ib) (peer : Address) (ps : PeerState) :
    Retook actor peer (actor.setPeer peer ps) :=
  ⟨fun _ hq => LocalActor.peer_setPeer_of_ne actor ps hq, rfl, rfl⟩

omit [Party P] in
theorem Retook.trans {actor actor' actor'' : LocalActor P Ib} {peer : Address}
    (h : Retook actor peer actor') (h' : Retook actor' peer actor'') : Retook actor peer actor'' :=
  ⟨fun q hq => (h'.others q hq).trans (h.others q hq), h'.allowlist.trans h.allowlist,
    h'.party.trans h.party⟩

theorem Retook.failExchange (here : Address) (actor : LocalActor P Ib) (peer : Address)
    (cause : FailureCause) : Retook actor peer (actor.failExchange here peer cause).1 :=
  ⟨fun q hq => by rw [LocalActor.failExchange_peer, if_neg hq], by simp, by simp⟩

theorem Retook.handOver (here : Address) (actor : LocalActor P Ib) (peer : Address) (turn : Turn) :
    Retook actor peer (actor.handOver here peer turn).2.1 :=
  ⟨fun q _ => by simp, by unfold LocalActor.handOver; split <;> rfl, by simp⟩

theorem retook_of_handOver {here : Address} {actor taken : LocalActor P Ib} {peer : Address}
    {turn : Turn} {reply : Option Turn} {effects : List Effect}
    (h : (hear actor peer turn).handOver here peer turn = (reply, taken, effects)) :
    Retook actor peer taken ∧ taken.peer peer = ⟨afterTurn .OweThem turn, none, none⟩ ∧
      actor.reply peer turn = reply := by
  have hretook := (Retook.setPeer actor peer ⟨afterTurn .OweThem turn, none, none⟩).trans
    (Retook.handOver here _ peer turn)
  have hpeer := LocalActor.handOver_peer here (hear actor peer turn) peer peer turn
  have hreply := LocalActor.handOver_fst here (hear actor peer turn) peer turn
  rw [h] at hpeer hreply
  rw [← hear, h] at hretook
  exact ⟨hretook, hpeer.trans (LocalActor.peer_setPeer_self ..), hreply.symm⟩

variable [Transport N]

theorem Answered.retook {rt : LocalRuntime P N Ib} {name : ActorName} {actor : LocalActor P Ib}
    {self peer : Address} {reply : Turn} {ran : Ran P N Ib Stepped}
    (h : Answered rt name actor self peer reply ran) :
    ∃ net actor', ran.rt = { rt with net }.setActor name actor' ∧ Retook actor peer actor' ∧
      ((∃ progress, ((actor.peer peer).state.onOutgoing reply).1 = .ok progress ∧
          actor'.peer peer =
            .armed (afterTurn .AwaitingTheirTurn reply) reply progress rt.clock actor.deadlines) ∨
        ∃ state : TurnState, state.live = false ∧ actor'.peer peer = ⟨state, none, none⟩) := by
  rcases h with ⟨error, hout, _, rfl⟩ | ⟨progress, hout, _, rfl, hrefused, _, rfl⟩ |
    ⟨progress, hout, _, rfl, haccepted⟩
  · refine ⟨rt.net, _, rfl, (Retook.setPeer ..).trans (Retook.failExchange ..), Or.inr ?_⟩
    exact ⟨_, fail_not_live _, by rw [LocalActor.failExchange_peer, if_pos rfl]; rfl⟩
  · rw [send_rt]
    refine ⟨_, _, rfl, (Retook.setPeer ..).trans (Retook.failExchange ..), Or.inr ?_⟩
    exact ⟨_, fail_not_live _, by rw [LocalActor.failExchange_peer, if_pos rfl]; rfl⟩
  · rw [send_rt]
    exact ⟨_, _, rfl, Retook.setPeer .., Or.inl ⟨progress, hout, LocalActor.peer_setPeer_self ..⟩⟩

theorem TookTurn.retook {rt : LocalRuntime P N Ib} {name : ActorName} {actor : LocalActor P Ib}
    {self peer : Address} {turn : Turn} {ack : Option Message} {ran : Ran P N Ib Stepped}
    (h : TookTurn rt name actor self peer turn ack ran) :
    ∃ net actor', ran.rt = { rt with net }.setActor name actor' ∧ Retook actor peer actor' ∧
      PeerTook (actor.peer peer) turn (actor.reply peer turn) (actor'.peer peer) := by
  rcases h with ⟨error, h⟩ | ⟨progress, h, taken, effects, hsilent⟩ |
    ⟨progress, h, reply, taken, effects, hreply, ran, hran⟩
  · refine ⟨rt.net, _, rfl, Retook.setPeer .., ?_⟩
    rw [LocalActor.peer_setPeer_self]
    exact .illegal error h
  · obtain ⟨hretook, hpeer, hnone⟩ := retook_of_handOver hsilent
    rw [receipt_rt]
    refine ⟨_, taken, rfl, hretook, ?_⟩
    rw [hpeer]
    exact .silent progress h hnone
  · obtain ⟨hretook, hpeer, hsome⟩ := retook_of_handOver hreply
    obtain ⟨net, actor', hrt, hretook', hactor'⟩ := hran.retook
    rw [receipt_rt] at hrt
    refine ⟨net, actor', hrt, hretook.trans hretook', ?_⟩
    rcases hactor' with ⟨progress', hout, hps⟩ | ⟨state, hlive, hps⟩
    · rw [hpeer] at hout
      rw [hps]
      exact .replied progress h reply hsome progress' hout _ _
    · rw [hps]
      exact .failed progress h state hlive

/-! ## The frame of a call -/

section

variable [Registry N Ib]

theorem Delivered.frame {rt : LocalRuntime P N Ib} {name : ActorName} {actor : LocalActor P Ib}
    (hactor : rt.actors name = some actor) {delivery : Delivery} {ran : Ran P N Ib Outcome}
    (h : Delivered rt name actor delivery ran) :
    ∃ net, (∃ actor', ran.rt = { rt with net }.setActor name actor') ∨
      ∃ command, ran.rt = { (rt.execute command delivery.origin).rt with net } := by
  have hsent : ∀ origin target message,
      (rt.sendAndReturn origin target message).rt =
        { rt with net := (Transport.send rt.net origin target message).2 }.setActor name actor := by
    intro origin target message
    simp only [sendAndReturn, send_rt]
    exact (setActor_eq_self
      { rt with net := (Transport.send rt.net origin target message).2 } hactor).symm
  rcases h with _ | _ | _ | _ | ⟨_, harness, _, _, reply, _⟩ | ⟨_, harness, _, _, _⟩ |
    ⟨_, turn, _, ran, hran⟩
  · exact ⟨rt.net, Or.inl ⟨actor, (setActor_eq_self rt hactor).symm⟩⟩
  · exact ⟨_, Or.inl ⟨actor, hsent ..⟩⟩
  · exact ⟨rt.net, Or.inl ⟨_, rfl⟩⟩
  · exact ⟨_, Or.inl ⟨actor, hsent ..⟩⟩
  · simp only [sendAndReturn, send_rt]
    exact ⟨_, Or.inr ⟨harness, rfl⟩⟩
  · exact ⟨_, Or.inr ⟨harness, rfl⟩⟩
  · obtain ⟨net, actor', hrt, -⟩ := hran.retook
    exact ⟨net, Or.inl ⟨actor', hrt⟩⟩

/-- The tombstones after a step that comes to the race. -/
def buried (dead : Finset EndpointId) : Waited → Finset EndpointId
  | .PeerDeath endpoint => insert endpoint dead
  | .Delivery (some delivery) => dead.erase delivery.origin.endpoint
  | .Delivery none | .DeadlineElapsed => dead

/-- What a call leaves as it is. `own` says nothing of the actor that the call is about. -/
inductive Framed (rt : LocalRuntime P N Ib) (call : Call P N) : LocalRuntime P N Ib → Prop
  | same : Framed rt call rt
  | elsewhere (net : N) (clock : Instant) : Framed rt call { rt with net, clock }
  | installed (name : ActorName) (allowlist : Allowlist) (deadlines : Deadlines) (kind : ActorKind)
      (party : Option (Boxed P)) :
      Framed rt call (rt.installInner name allowlist deadlines kind party).rt
  | own (name : ActorName) (hname : call.name = some name) (dead : Finset EndpointId)
      (hdead : dead = rt.dead ∨ ∃ waited, call = .Step name waited ∧ dead = buried rt.dead waited)
      (net : N) (actor : LocalActor P Ib) :
      Framed rt call ({ rt with dead, net }.setActor name actor)
  | executed (name : ActorName) (delivery : Delivery)
      (hcall : call = .Step name (.Delivery (some delivery))) (command : Harness) (net : N) :
      Framed rt call
        { ((rt.heardFrom delivery.origin.endpoint).execute command delivery.origin).rt with net }

theorem exec_framed (rt : LocalRuntime P N Ib) (call : Call P N) :
    Framed rt call (rt.exec call).1 := by
  cases call with
  | Install _ _ _ _ | InstallParty _ _ _ _ => exact .installed ..
  | Elsewhere _ _ => exact .elsewhere ..
  | Admit name _ =>
    simp only [exec, admitEndpoint]
    split
    · exact .own name rfl _ (Or.inl rfl) _ _
    · exact .same
  | Revoke name _ =>
    simp only [exec, revoke]
    split
    · exact .own name rfl _ (Or.inl rfl) _ _
    · exact .same
  | Rehash name _ =>
    simp only [exec, rehash]
    split
    · split
      · exact .own name rfl _ (Or.inl rfl) _ _
      · exact .same
    · exact .same
  | Step name waited =>
    simp only [exec]
    cases hactor : rt.actors name with
    | none =>
      simp only [step, hactor]
      exact .same
    | some actor =>
      have hdid := step_did hactor waited
      generalize rt.step name waited = ran at hdid
      rcases hdid with ⟨_, _, _, _, _, rfl⟩ | ⟨endpoint, _, _, rfl⟩ | ⟨_, _, _, _, _, _, rfl⟩ | _ | _ |
        ⟨_, delivery, ran, hran⟩
      · exact .own name rfl _ (Or.inl rfl) _ _
      · exact .own name rfl _ (Or.inr ⟨_, rfl, rfl⟩) rt.net _
      · exact .own name rfl _ (Or.inl rfl) _ _
      · exact .same
      · exact .same
      · have hheard : (rt.heardFrom delivery.origin.endpoint).actors name = some actor := hactor
        rcases hran.frame hheard with ⟨net, ⟨actor', hrt⟩ | ⟨command, hrt⟩⟩
        · rw [hrt]
          exact .own name rfl _ (Or.inr ⟨_, rfl, rfl⟩) net actor'
        · rw [hrt]
          exact .executed name delivery rfl command net

end

/-! ## What a call does to one conversation -/

omit [Party P] [Transport N] in
theorem installInner_actors [Registry N Ib] (rt : LocalRuntime P N Ib) (own : ActorName)
    (allowlist : Allowlist) (deadlines : Deadlines) (kind : ActorKind) (party : Option (Boxed P))
    (name : ActorName) :
    (rt.installInner own allowlist deadlines kind party).rt.actors name = rt.actors name ∨
      name = own ∧ rt.actors name = none ∧ ∃ inbox,
        (rt.installInner own allowlist deadlines kind party).rt.actors name =
          some ⟨inbox, allowlist, kind, deadlines, party, ∅⟩ := by
  unfold installInner
  split
  · exact Or.inl rfl
  · rename_i hfree
    split
    · exact Or.inl rfl
    · by_cases hname : name = own
      · subst hname
        exact Or.inr ⟨rfl, by simpa using hfree, _, setActor_self ..⟩
      · exact Or.inl (setActor_of_ne _ _ hname)

variable [Registry N Ib]

/-- In this call the actor `name` processes a message of an admitted peer. -/
def Reaches (rt : LocalRuntime P N Ib) (call : Call P N) (name : ActorName) (peer : Address)
    (message : Message) : Prop :=
  ∃ actor target, call = .Step name (.Delivery (some ⟨peer, target, message⟩)) ∧
    rt.actors name = some actor ∧ actor.affected (· ∈ rt.dead) = [] ∧
    actor.allowlist.allows peer.endpoint = true

/-- The actor `name` processes no ack and no turn of `p`. -/
def Spared (rt : LocalRuntime P N Ib) (call : Call P N) (name : ActorName) (p : Address) : Prop :=
  ∀ message, rt.Reaches call name p message →
    (∀ ack, message ≠ .Ack ack) ∧ ∀ turn, message ≠ .Turn turn

/-- What a call makes of the conversation of the actor `name` with `p`. -/
inductive Became (rt : LocalRuntime P N Ib) (call : Call P N) (name : ActorName) (p : Address)
    (actor' : LocalActor P Ib) : Prop
  | fresh (h : actor'.peer p = default)
  | kept (actor : LocalActor P Ib) (hactor : rt.actors name = some actor)
      (hdeadlines : actor'.deadlines = actor.deadlines) (hspared : rt.Spared call name p)
      (h : actor'.peer p = actor.peer p)
  | failed (actor : LocalActor P Ib) (hactor : rt.actors name = some actor)
      (h : actor'.peer p = (actor.peer p).fail)
  | settled (actor : LocalActor P Ib) (hactor : rt.actors name = some actor)
      (hdeadlines : actor'.deadlines = actor.deadlines) (ack : Ack)
      (hreached : rt.Reaches call name p (.Ack ack))
      (h : actor'.peer p = (actor.peer p).settleAck ack.id)
  | took (actor : LocalActor P Ib) (hactor : rt.actors name = some actor) (target : Address) (turn : Turn)
      (hcall : call = .Step name (.Delivery (some ⟨p, target, .Turn turn⟩)))
      (hquiet : actor.affected (· ∈ rt.dead) = [])
      (hadmitted : actor.allowlist.allows p.endpoint = true) (ran : Ran P N Ib Stepped)
      (hran : TookTurn (rt.heardFrom p.endpoint) name actor target p turn
        (turn.request.map fun request => .Ack ⟨request.id⟩) ran)
      (heffects : ran.effects = (rt.step name (.Delivery (some ⟨p, target, .Turn turn⟩))).effects)
      (hrt : ran.rt.actors name = some actor')

section

variable {rt : LocalRuntime P N Ib} {call : Call P N} {name : ActorName} {p : Address}
  {actor actor' : LocalActor P Ib}

omit [Party P] [Transport N] [Registry N Ib] in
theorem spared_of_call (h : ∀ target message,
    call = .Step name (.Delivery (some ⟨p, target, message⟩)) →
      (∀ ack, message ≠ .Ack ack) ∧ ∀ turn, message ≠ .Turn turn) : rt.Spared call name p := by
  rintro message ⟨_, target, hcall, -⟩
  exact h target message hcall

theorem Became.setActor {rt' : LocalRuntime P N Ib} (hrt : rt'.actors = rt.actors) {own : ActorName}
    (hname : call.name = some own) {taken : LocalActor P Ib}
    (h : (rt'.setActor own taken).actors name = some actor')
    (htaken : Became rt call own p taken) : Became rt call name p actor' := by
  by_cases hown : name = own
  · subst hown
    rw [setActor_self] at h
    cases h
    exact htaken
  · rw [setActor_of_ne rt' taken hown, hrt] at h
    refine .kept actor' h rfl (spared_of_call fun target message hcall => ?_) rfl
    rw [hcall] at hname
    exact absurd (Option.some.inj hname) hown

theorem Became.failEach (hactor : rt.actors name = some actor) (rt' : LocalRuntime P N Ib)
    (listed : LocalActor P Ib) (hlisted : listed.peer p = actor.peer p)
    (hdeadlines : listed.deadlines = actor.deadlines) (hspared : rt.Spared call name p)
    (cause : FailureCause) (peers : List Address) :
    Became rt call name p (rt'.failEach name listed cause peers).1 := by
  by_cases hp : p ∈ peers
  · exact .failed actor hactor (by rw [failEach_peer, if_pos hp, hlisted])
  · refine .kept actor hactor ((failEach_same ..).deadlines.trans hdeadlines) hspared ?_
    rw [failEach_peer, if_neg hp, hlisted]

theorem installInner_became (hspared : rt.Spared call name p) (own : ActorName)
    (allowlist : Allowlist) (deadlines : Deadlines) (kind : ActorKind) (party : Option (Boxed P))
    (h : (rt.installInner own allowlist deadlines kind party).rt.actors name = some actor') :
    Became rt call name p actor' := by
  rcases rt.installInner_actors own allowlist deadlines kind party name with
    hkept | ⟨-, -, inbox, hactor⟩
  · exact .kept actor' (hkept.symm.trans h) rfl hspared rfl
  · cases hactor.symm.trans h
    exact .fresh rfl

theorem execute_became {rt' : LocalRuntime P N Ib} (hrt : rt'.actors = rt.actors)
    (hspared : rt.Spared call name p) (command : Harness) (controller : Address)
    (h : (rt'.execute command controller).rt.actors name = some actor') :
    Became rt call name p actor' := by
  have hsame : rt'.actors name = some actor' → Became rt call name p actor' := fun h =>
    .kept actor' (hrt ▸ h) rfl hspared rfl
  cases command with
  | Ping | Spawned _ | Stopped _ | Pong | Failed _ => exact hsame h
  | Spawn spawned =>
    have h : (rt'.installParty spawned (Allowlist.empty.admitEndpoint controller.endpoint)
        rt'.spawnDeadlines (.echo .new)).rt.actors name = some actor' := by
      simp only [execute] at h
      split at h <;> exact h
    rcases rt'.installInner_actors spawned (Allowlist.empty.admitEndpoint controller.endpoint)
      rt'.spawnDeadlines .Plain (some (.echo .new)) name with hkept | ⟨-, -, inbox, hactor⟩
    · exact hsame (hkept.symm.trans h)
    · cases hactor.symm.trans h
      exact .fresh rfl
  | Stop stopped =>
    simp only [execute] at h
    split at h
    · by_cases hname : name = stopped
      · subst hname
        simp at h
      · simp only [Function.update_of_ne hname] at h
        exact hsame h
    · exact hsame h

theorem Delivered.became {own : ActorName} {delivery : Delivery} {ran : Ran P N Ib Outcome}
    (hran : Delivered (rt.heardFrom delivery.origin.endpoint) own actor delivery ran)
    (hactor : rt.actors own = some actor) (hquiet : actor.affected (· ∈ rt.dead) = [])
    (hstep : rt.step own (.Delivery (some delivery)) = ran) (h : ran.rt.actors name = some actor') :
    Became rt (.Step own (.Delivery (some delivery))) name p actor' := by
  obtain ⟨origin, target, message⟩ := delivery
  have hheard : (rt.heardFrom origin.endpoint).actors = rt.actors := rfl
  have hother : (∀ ack, message ≠ .Ack ack) → (∀ turn, message ≠ .Turn turn) →
      rt.Spared (.Step own (.Delivery (some ⟨origin, target, message⟩))) name p := fun hack hturn =>
    spared_of_call fun _ _ hcall => by
      cases hcall
      exact ⟨hack, hturn⟩
  rcases hran with ⟨hno⟩ | ⟨hok, request, rfl⟩ | ⟨hok, ack, rfl⟩ | ⟨hok, harness, rfl, hkind⟩ |
    ⟨hok, harness, rfl, hkind, reply, hreply⟩ | ⟨hok, harness, rfl, hkind, hreply⟩ |
    ⟨hok, turn, rfl, ran, hran⟩
  · refine .kept actor' h rfl ?_ rfl
    rintro message' ⟨actor₁, target', hcall, hactor₁, -, hadmitted⟩
    cases hcall
    cases hactor.symm.trans hactor₁
    cases hno.symm.trans hadmitted
  · simp only [sendAndReturn, send_rt] at h
    exact .kept actor' h rfl (hother (by simp) (by simp)) rfl
  · refine .setActor rfl rfl h ?_
    by_cases hp : p = origin
    · subst hp
      refine .settled actor hactor rfl ack ⟨actor, target, rfl, hactor, hquiet, hok⟩ ?_
      rw [LocalActor.peer_modify _ _ _ _ rfl, if_pos rfl]
    · refine .kept actor hactor rfl (spared_of_call fun _ _ hcall => ?_) ?_
      · cases hcall
        exact absurd rfl hp
      · rw [LocalActor.peer_modify _ _ _ _ rfl, if_neg hp]
  · simp only [sendAndReturn, send_rt] at h
    exact .kept actor' h rfl (hother (by simp) (by simp)) rfl
  · simp only [sendAndReturn, send_rt] at h
    exact execute_became hheard (hother (by simp) (by simp)) harness origin h
  · exact execute_became hheard (hother (by simp) (by simp)) harness origin h
  · obtain ⟨net, taken, hrt, hretook, -⟩ := hran.retook
    obtain ⟨net', taken', hrt', hsame⟩ := hran.same
    have htaken : taken' = taken := by
      have hinstalled := congrArg (fun rt => rt.actors own) (hrt'.symm.trans hrt)
      simp only [setActor_self] at hinstalled
      exact Option.some.inj hinstalled
    subst htaken
    simp only [hrt] at h
    refine .setActor rfl rfl h ?_
    by_cases hp : p = origin
    · subst hp
      refine .took actor hactor target turn rfl hquiet hok ran hran ?_ ?_
      · rw [hstep]
      · rw [hrt, setActor_self]
    · refine .kept actor hactor ?_ (spared_of_call fun _ _ hcall => ?_) (hretook.others p hp)
      · exact hsame.deadlines
      · cases hcall
        exact absurd rfl hp

theorem step_became {own : ActorName} {waited : Waited}
    (h : (rt.step own waited).rt.actors name = some actor') (p : Address) :
    Became rt (.Step own waited) name p actor' := by
  cases hactor : rt.actors own with
  | none =>
    simp only [step, hactor] at h
    refine .kept actor' h rfl ?_ rfl
    rintro message ⟨actor, target, hcall, hsome, -⟩
    cases hcall
    cases hactor.symm.trans hsome
  | some actor =>
    have hdid := step_did hactor waited
    generalize hran : rt.step own waited = ran at hdid h
    rcases hdid with ⟨_, endpoint, hdead, hlive, _, rfl⟩ | ⟨endpoint, hquiet, _, rfl⟩ |
      ⟨hquiet, peer, kind, due, hdue, _, rfl⟩ | ⟨hquiet, hdue⟩ | ⟨hquiet⟩ |
      ⟨hquiet, delivery, ran, hdelivered⟩
    · refine .setActor rfl rfl h (.failEach hactor rt _ rfl rfl ?_ _ _)
      -- The sweep comes before the delivery.
      rintro message ⟨actor₁, target, hcall, hactor₁, hquiet, -⟩
      cases hactor.symm.trans hactor₁
      exact absurd (LocalActor.affected_of_quiet hquiet hdead) hlive
    · refine .setActor rfl rfl h ?_
      exact .failEach hactor _ _ rfl rfl (spared_of_call (by simp)) _ _
    · refine .setActor rfl rfl h ?_
      by_cases hp : p = peer
      · exact .failed actor hactor (by rw [hp, LocalActor.failExchange_peer, if_pos rfl])
      · refine .kept actor hactor (LocalActor.SameActor.failExchange ..).deadlines
          (spared_of_call (by simp)) ?_
        rw [LocalActor.failExchange_peer, if_neg hp]
    · exact .kept actor' h rfl (spared_of_call (by simp)) rfl
    · exact .kept actor' h rfl (spared_of_call (by simp)) rfl
    · exact hdelivered.became hactor hquiet hran h

theorem exec_became (h : (rt.exec call).1.actors name = some actor') (p : Address) :
    Became rt call name p actor' := by
  have hother : ∀ {own}, (∀ waited, call ≠ .Step own waited) → rt.Spared call own p := fun hne =>
    spared_of_call fun _ _ hcall => absurd hcall (hne _)
  cases call with
  | Install own allowlist deadlines kind => exact installInner_became (hother (by simp)) _ _ _ _ _ h
  | InstallParty own allowlist deadlines party =>
    exact installInner_became (hother (by simp)) _ _ _ _ _ h
  | Elsewhere net clock => exact .kept actor' h rfl (hother (by simp)) rfl
  | Admit own endpoint =>
    simp only [exec, admitEndpoint] at h
    split at h
    · rename_i actor hactor
      refine .setActor rfl rfl h (.kept actor hactor rfl (spared_of_call (by simp)) rfl)
    · exact .kept actor' h rfl (hother (by simp)) rfl
  | Revoke own endpoint =>
    simp only [exec, revoke] at h
    split at h
    · rename_i actor hactor
      refine .setActor rfl rfl h ?_
      let listed : LocalActor P Ib := { actor with allowlist := actor.allowlist.revoke endpoint }
      exact .failEach hactor rt listed rfl rfl (hother (by simp)) _ _
    · exact .kept actor' h rfl (hother (by simp)) rfl
  | Rehash own conversations =>
    simp only [exec, rehash] at h
    split at h
    · rename_i actor hactor
      split at h
      · rename_i hperm
        refine .setActor rfl rfl h (.kept actor hactor rfl (spared_of_call (by simp)) ?_)
        simp only [LocalActor.peer, AList.perm_lookup hperm]
      · exact .kept actor' h rfl (hother (by simp)) rfl
    · exact .kept actor' h rfl (hother (by simp)) rfl
  | Step own waited => exact step_became h p

end

/-! ## The invariant rule -/

def Each (rt : LocalRuntime P N Ib) (J : PeerState → Prop) : Prop :=
  ∀ name actor, rt.actors name = some actor → ∀ p, J (actor.peer p)

def Takes (rt : LocalRuntime P N Ib) (call : Call P N) (actor : LocalActor P Ib) (peer : Address)
    (turn : Turn) : Prop :=
  ∃ name target, call = .Step name (.Delivery (some ⟨peer, target, .Turn turn⟩)) ∧
    rt.actors name = some actor ∧ actor.affected (· ∈ rt.dead) = [] ∧
    actor.allowlist.allows peer.endpoint = true

/-- A property of conversations that failures, acks and turns keep, is kept by every call. -/
theorem exec_each {J : PeerState → Prop} (hdefault : J default) (hfail : ∀ ps, J ps → J ps.fail)
    (hsettle : ∀ ps id, J ps → J (ps.settleAck id)) {rt : LocalRuntime P N Ib} (h : rt.Each J)
    (call : Call P N)
    (hturn : ∀ actor peer turn, rt.Takes call actor peer turn → ∀ ps,
      PeerTook (actor.peer peer) turn (actor.reply peer turn) ps → J ps) :
    (rt.exec call).1.Each J := by
  intro name actor' hactor' p
  rcases exec_became hactor' p with hfresh | ⟨actor, hactor, -, -, hkept⟩ | ⟨actor, hactor, hfailed⟩ |
    ⟨actor, hactor, -, ack, -, hsettled⟩ |
    ⟨actor, hactor, target, turn, hcall, hquiet, hadmitted, ran, hran, -, hrt⟩
  · rw [hfresh]
    exact hdefault
  · rw [hkept]
    exact h name actor hactor p
  · rw [hfailed]
    exact hfail _ (h name actor hactor p)
  · rw [hsettled]
    exact hsettle _ _ (h name actor hactor p)
  · obtain ⟨net, taken, hrt', -, htook⟩ := hran.retook
    rw [hrt', setActor_self] at hrt
    cases hrt
    exact hturn actor p turn ⟨name, target, hcall, hactor, hquiet, hadmitted⟩ _ htook

/-! ## What no call changes -/

structure Same (rt rt' : LocalRuntime P N Ib) : Prop where
  endpoint : rt'.endpoint = rt.endpoint
  spawnDeadlines : rt'.spawnDeadlines = rt.spawnDeadlines
  observer : rt'.observer = rt.observer
  deathWatch : rt'.deathWatch = rt.deathWatch

omit [Party P] [Transport N] in
theorem installInner_same (rt : LocalRuntime P N Ib) (name : ActorName) (allowlist : Allowlist)
    (deadlines : Deadlines) (kind : ActorKind) (party : Option (Boxed P)) :
    Same rt (rt.installInner name allowlist deadlines kind party).rt := by
  unfold installInner
  split
  · exact ⟨rfl, rfl, rfl, rfl⟩
  · split <;> exact ⟨rfl, rfl, rfl, rfl⟩

omit [Party P] [Transport N] in
theorem execute_same (rt : LocalRuntime P N Ib) (command : Harness) (controller : Address) :
    Same rt (rt.execute command controller).rt := by
  cases command with
  | Ping | Spawned _ | Stopped _ | Pong | Failed _ => exact ⟨rfl, rfl, rfl, rfl⟩
  | Spawn name =>
    simp only [execute]
    split <;> exact installInner_same ..
  | Stop name =>
    simp only [execute]
    split <;> exact ⟨rfl, rfl, rfl, rfl⟩

omit [Party P] [Transport N] in
theorem Framed.setup {rt rt' : LocalRuntime P N Ib} {call : Call P N} (h : Framed rt call rt') :
    Same rt rt' := by
  rcases h with _ | _ | ⟨name, allowlist, deadlines, kind, party⟩ | _ |
    ⟨name, delivery, hcall, command, net⟩
  · exact ⟨rfl, rfl, rfl, rfl⟩
  · exact ⟨rfl, rfl, rfl, rfl⟩
  · exact installInner_same ..
  · exact ⟨rfl, rfl, rfl, rfl⟩
  · obtain ⟨hendpoint, hspawn, hobserver, hwatch⟩ :=
      execute_same (rt.heardFrom delivery.origin.endpoint) command delivery.origin
    exact ⟨hendpoint, hspawn, hobserver, hwatch⟩

theorem exec_same (rt : LocalRuntime P N Ib) (call : Call P N) : Same rt (rt.exec call).1 :=
  (exec_framed rt call).setup

end LocalRuntime

end Kamiroh
