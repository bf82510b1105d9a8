import Kamiroh.Phone.Waits
import Kamiroh.Runtime.Failures

/-!
# A phone and a hosted conversation run one choreography

The rules of one conversation are written twice in the source: as the methods of `Phone`, and inline in
`LocalRuntime`. Here both sides live through the same events, and after each they hold the same state
and the same waits.
-/

namespace Kamiroh

open TurnState

variable {P M N Ib : Type}

/-! ## What both sides hold -/

namespace Phone

/-- What a phone holds of its conversation, in the form in which a runtime holds it. -/
def held (phone : Phone) : PeerState := ⟨phone.state, phone.ackDue, phone.turnDue⟩

@[simp] theorem held_state (phone : Phone) : phone.held.state = phone.state := rfl

@[simp] theorem held_stopped (phone : Phone) (state : TurnState) :
    (phone.stopped state).held = ⟨state, none, none⟩ := rfl

@[simp] theorem held_awaiting (phone : Phone) (turn : Turn) (progress : TurnProgress)
    (now : Instant) :
    (phone.awaiting turn progress now).held =
      .armed (afterTurn .AwaitingTheirTurn turn) turn progress now phone.deadlines := by
  cases turn <;> rfl

theorem held_noteAck (phone : Phone) (ack : Ack) :
    (phone.noteAck ack).2.held = phone.held.settleAck ack.id := by
  obtain ⟨selfAddress, peer, deadlines, state, ackDue, turnDue⟩ := phone
  unfold noteAck PeerState.settleAck held
  cases ackDue with
  | none => rfl
  | some due =>
    dsimp only
    split <;> rfl

/-- The two sides break a tie alike: the ack comes first. -/
theorem earlier_waits (phone : Phone) (peer : Address) :
    (phone.held.waits peer).foldl LocalActor.earlier none =
      phone.nextDue.map fun due => (peer, due.1, due.2) := by
  obtain ⟨selfAddress, _, deadlines, state, ackDue, turnDue⟩ := phone
  unfold nextDue PeerState.waits held
  rcases ackDue with _ | ⟨id, ackAt⟩ <;> rcases turnDue with _ | turnAt
  · rfl
  · rfl
  · rfl
  · by_cases h : ackAt ≤ turnAt
    · simp [LocalActor.earlier, h, Nat.not_lt.mpr h]
    · simp [LocalActor.earlier, h, Nat.not_le.mp h]

end Phone

/-! ## An actor with one conversation -/

namespace LocalActor

/-- All conversations but the one with `peer` are as if they had never been. -/
def Only (actor : LocalActor P Ib) (peer : Address) : Prop := ∀ p, p ≠ peer → actor.peer p = default

theorem Only.setPeer {actor : LocalActor P Ib} {peer : Address} (h : actor.Only peer)
    (ps : PeerState) : (actor.setPeer peer ps).Only peer := by
  intro p hp
  rw [peer_setPeer_of_ne actor ps hp, h p hp]

theorem Only.affected {actor : LocalActor P Ib} {peer : Address} (h : actor.Only peer)
    (endpoints : EndpointId → Bool) :
    actor.affected endpoints =
      if (actor.peer peer).state.live && endpoints peer.endpoint then [peer] else [] := by
  have honly : ∀ p ∈ actor.affected endpoints, p = peer := by
    intro p hp
    by_contra hne
    have hlive := (mem_affected.mp hp).1
    rw [h p hne] at hlive
    cases hlive
  split
  · rename_i hpeer
    have hmem : peer ∈ actor.affected endpoints := mem_affected.mpr (by simpa using hpeer)
    have hnodup : (actor.affected endpoints).Nodup := Assoc.keysWhere_nodup ..
    by_contra hne
    rcases (hnodup.ne_singleton_iff peer).mp hne with hnil | ⟨p, hp, hpne⟩
    · rw [hnil] at hmem
      cases hmem
    · exact hpne (honly p hp)
  · rename_i hpeer
    refine List.eq_nil_iff_forall_not_mem.mpr fun p hp => hpeer ?_
    obtain rfl := honly p hp
    simpa using mem_affected.mp hp

theorem Only.quiet {actor : LocalActor P Ib} {peer : Address} (h : actor.Only peer)
    {dead : Finset EndpointId} (hburied : peer.endpoint ∈ dead → (actor.peer peer).state.live = false) :
    actor.affected (· ∈ dead) = [] := by
  rw [h.affected, if_neg]
  intro hboth
  obtain ⟨hlive, hdead⟩ := by simpa using hboth
  rw [hburied hdead] at hlive
  cases hlive

theorem Only.waits {actor : LocalActor P Ib} {peer : Address} (h : actor.Only peer) :
    (actor.conversations.entries.flatMap fun e => e.2.waits e.1) = (actor.peer peer).waits peer := by
  have hlookup : ∀ p, p ≠ peer → ∀ ps, actor.conversations.lookup p = some ps → ps.waits p = [] := by
    intro p hp ps hps
    have hdefault := h p hp
    rw [LocalActor.peer, hps, Option.getD_some] at hdefault
    rw [hdefault]
    rfl
  rw [Assoc.flatMap_entries_of_only hlookup, LocalActor.peer]
  cases actor.conversations.lookup peer <;> rfl

theorem Only.earliestDue {actor : LocalActor P Ib} {phone : Phone} {peer : Address}
    (h : actor.Only peer) (hheld : phone.held = actor.peer peer) :
    actor.earliestDue = phone.nextDue.map fun due => (peer, due.1, due.2) := by
  rw [LocalActor.earliestDue, h.waits, ← hheld, phone.earlier_waits]

/-- `actor'` is `actor` with `ps` for the conversation with `peer`. The party may have changed. -/
structure Carries (actor actor' : LocalActor P Ib) (peer : Address) (ps : PeerState) : Prop where
  took : actor'.peer peer = ps
  others : ∀ q, q ≠ peer → actor'.peer q = actor.peer q
  same : actor.SameActor actor'

theorem Carries.setPeer (actor : LocalActor P Ib) (peer : Address) (ps : PeerState) :
    Carries actor (actor.setPeer peer ps) peer ps :=
  ⟨peer_setPeer_self .., fun _ hq => peer_setPeer_of_ne actor ps hq, .setPeer ..⟩

theorem Carries.trans {actor actor' actor'' : LocalActor P Ib} {peer : Address} {ps ps' : PeerState}
    (h : Carries actor actor' peer ps) (h' : Carries actor' actor'' peer ps') :
    Carries actor actor'' peer ps' :=
  ⟨h'.took, fun q hq => (h'.others q hq).trans (h.others q hq), h.same.trans h'.same⟩

theorem Carries.failExchange [Party P] (here : Address) (actor : LocalActor P Ib) (peer : Address)
    (cause : FailureCause) :
    Carries actor (actor.failExchange here peer cause).1 peer (actor.peer peer).fail :=
  ⟨by rw [failExchange_peer, if_pos rfl], fun q hq => by rw [failExchange_peer, if_neg hq],
    .failExchange ..⟩

theorem Carries.handOver [Party P] (here : Address) (actor : LocalActor P Ib) (peer : Address)
    (turn : Turn) :
    Carries actor (actor.handOver here peer turn).2.1 peer (actor.peer peer) :=
  ⟨handOver_peer .., fun _ _ => handOver_peer .., .handOver ..⟩

theorem Carries.settleAck (actor : LocalActor P Ib) (peer : Address) (id : RequestId) :
    Carries actor
      { actor with conversations := actor.conversations.modify peer fun ps => ps.settleAck id } peer
      ((actor.peer peer).settleAck id) := by
  have hpeer := fun q => peer_modify actor peer q (fun ps => ps.settleAck id) rfl
  exact ⟨by rw [hpeer, if_pos rfl], fun q hq => by rw [hpeer, if_neg hq], ⟨rfl, rfl, rfl, rfl⟩⟩

end LocalActor

namespace Choreography

open LocalRuntime

/-! ## The events -/

/-- What happens in the conversation. A turn comes with the party's answer, should the turn be taken,
and with the line on which the phone sends the same answer. `Revoked` stands for a revocation and the
admission after it, `Elsewhere` for what others do to the runtime's network while time passes. -/
inductive Event (M N : Type)
  | Turn (turn : Turn) (reply : Option Turn) (line : M)
  | Ack (ack : Ack)
  | DeadlineElapsed
  | Died
  | Revoked
  | Elsewhere (net : N → N) (clock : Instant)

structure Sides (P N Ib : Type) where
  phone : Phone
  rt : LocalRuntime P N Ib

/-- What the phone is told of an event, and the cause that it returns. -/
def heed [Transport M] (phone : Phone) (now : Instant) : Event M N → Option FailureCause × Phone
  | .Turn turn reply line =>
    let heard := phone.onIncoming turn
    match heard.1, reply with
    | .ok _, some reply => (none, (heard.2.sendTurn line now reply).2.1)
    | _, _ => (none, heard.2)
  | .Ack ack => (none, (phone.noteAck ack).2)
  | .DeadlineElapsed => phone.onDeadlineElapsed
  | .Died => phone.onPeerDeath phone.peer.endpoint
  | .Revoked => phone.onRevoked phone.peer.endpoint
  | .Elsewhere _ _ => (none, phone)

/-- What the runtime goes through in an event. -/
def calls (here peer : Address) : Event M N → List (Call P N)
  | .Turn turn _ _ => [.Step here.name (.Delivery (some ⟨peer, here, .Turn turn⟩))]
  | .Ack ack => [.Step here.name (.Delivery (some ⟨peer, here, .Ack ack⟩))]
  | .DeadlineElapsed => [.Step here.name .DeadlineElapsed]
  | .Died => [.Step here.name (.PeerDeath peer.endpoint)]
  | .Revoked => [.Revoke here.name peer.endpoint, .Admit here.name peer.endpoint]
  | .Elsewhere net clock => [.Elsewhere net clock]

section

variable [Party P] [Transport M] [Transport N] [Registry N Ib]

def Sides.next (here peer : Address) (s : Sides P N Ib) (event : Event M N) : Sides P N Ib :=
  ⟨(heed s.phone s.rt.clock event).2, s.rt.after (calls here peer event)⟩

def ackOf (turn : Turn) : Option Message := turn.request.map fun request => .Ack ⟨request.id⟩

/-- The event is the same one on both sides: the answer is what the party behind the actor gives, it is
legal, and the two transports take it or refuse it alike. -/
def Alike (here peer : Address) (s : Sides P N Ib) : Event M N → Prop
  | .Turn turn reply line =>
    ∀ actor progress, s.rt.actors here.name = some actor →
      ((actor.peer peer).state.onIncoming turn).1 = .ok progress →
      actor.reply peer turn = reply ∧ ∀ answer, reply = some answer →
        ((afterTurn .OweThem turn).onOutgoing answer).1.isOk = true ∧
        (Transport.send line here peer (.Turn answer)).1.isOk =
          (Transport.send (receiptNet s.rt.net here peer (ackOf turn)) here peer (.Turn answer)).1.isOk
  | _ => True

/-! ## The relation -/

structure Coupled (here peer : Address) (s : Sides P N Ib) (actor : LocalActor P Ib) : Prop where
  address : s.rt.address here.name = here
  installed : s.rt.actors here.name = some actor
  admitted : actor.allowlist.allows peer.endpoint = true
  only : actor.Only peer
  buried : peer.endpoint ∈ s.rt.dead → (actor.peer peer).state.live = false
  selfAddress : s.phone.selfAddress = here
  peerAddress : s.phone.peer = peer
  deadlines : s.phone.deadlines = actor.deadlines
  held : s.phone.held = actor.peer peer

/-- The phones of one conversation. -/
structure Kept (phone phone' : Phone) : Prop where
  selfAddress : phone'.selfAddress = phone.selfAddress
  peer : phone'.peer = phone.peer
  deadlines : phone'.deadlines = phone.deadlines

variable {here peer : Address} {s : Sides P N Ib} {actor actor' : LocalActor P Ib}

omit [Party P] [Transport N] [Registry N Ib] in
theorem Coupled.quiet (h : Coupled here peer s actor) : actor.affected (· ∈ s.rt.dead) = [] :=
  h.only.quiet h.buried

omit [Party P] [Transport N] [Registry N Ib] in
theorem Coupled.carry (h : Coupled here peer s actor) {phone : Phone} (hkept : Kept s.phone phone)
    (hcarries : LocalActor.Carries actor actor' peer phone.held) {dead : Finset EndpointId}
    (hdead : peer.endpoint ∈ dead → phone.state.live = false) (net : N) :
    Coupled here peer ⟨phone, { s.rt with dead, net }.setActor here.name actor'⟩ actor' where
  address := h.address
  installed := setActor_self ..
  admitted := by rw [hcarries.same.allowlist, h.admitted]
  only := fun q hq => by rw [hcarries.others q hq, h.only q hq]
  buried := by rw [hcarries.took]; exact hdead
  selfAddress := hkept.selfAddress.trans h.selfAddress
  peerAddress := hkept.peer.trans h.peerAddress
  deadlines := by rw [hkept.deadlines, h.deadlines, hcarries.same.deadlines]
  held := hcarries.took.symm

end

/-! ## One event -/

section

variable [Party P] [Transport M] [Transport N] [Registry N Ib] {here peer : Address}
  {s : Sides P N Ib} {actor : LocalActor P Ib}

theorem after_singleton (rt : LocalRuntime P N Ib) (call : Call P N) : rt.after [call] = (rt.exec call).1 :=
  rfl

theorem effects_singleton (rt : LocalRuntime P N Ib) (call : Call P N) :
    rt.effects [call] = (rt.exec call).2 := List.append_nil _

theorem step_ack (h : Coupled here peer s actor) (ack : Ack) :
    (s.rt.step here.name (.Delivery (some ⟨peer, here, .Ack ack⟩))).rt =
      { s.rt with dead := s.rt.dead.erase peer.endpoint }.setActor here.name
        { actor with
          conversations := actor.conversations.modify peer fun ps => ps.settleAck ack.id } := by
  rw [step_delivery s.rt h.installed h.quiet, deliver_ack s.rt here.name h.admitted]
  rfl

omit [Party P] [Transport N] [Registry N Ib] in
theorem kept_noteAck (phone : Phone) (ack : Ack) : Kept phone (phone.noteAck ack).2 := by
  rcases phone.noteAck_cases ack with ⟨hack, -⟩ | hack <;> rw [hack] <;> exact ⟨rfl, rfl, rfl⟩

theorem Coupled.ack (h : Coupled here peer s actor) (ack : Ack) :
    ∃ actor', Coupled here peer (s.next here peer (.Ack ack : Event M N)) actor' := by
  have hcarries : LocalActor.Carries actor
      { actor with conversations := actor.conversations.modify peer fun ps => ps.settleAck ack.id } peer
      (s.phone.noteAck ack).2.held := by
    rw [Phone.held_noteAck, h.held]
    exact LocalActor.Carries.settleAck ..
  have hdead : peer.endpoint ∈ s.rt.dead.erase peer.endpoint →
      (s.phone.noteAck ack).2.state.live = false :=
    fun hmem => absurd rfl (Finset.mem_erase.mp hmem).1
  have hnext := h.carry (kept_noteAck s.phone ack) hcarries hdead s.rt.net
  simp only [Sides.next, calls, after_singleton, exec, step_ack h]
  exact ⟨_, hnext⟩

theorem step_turn (h : Coupled here peer s actor) (turn : Turn) :
    ∃ ran, TookTurn (s.rt.heardFrom peer.endpoint) here.name actor here peer turn (ackOf turn) ran ∧
      (s.rt.step here.name (.Delivery (some ⟨peer, here, .Turn turn⟩))).rt = ran.rt := by
  rw [step_delivery s.rt h.installed h.quiet, deliver_turn s.rt here.name h.admitted]
  exact ⟨_, takeTurn_tookTurn .., rfl⟩

omit [Party P] [Registry N Ib] in
theorem send_isOk (rt : LocalRuntime P N Ib) (origin target : Address) (message : Message) :
    (rt.send origin target message).result.isOk = (Transport.send rt.net origin target message).1.isOk := by
  unfold LocalRuntime.send
  split <;> simp_all [Except.isOk, Except.toBool]

omit [Party P] [Transport N] [Registry N Ib] in
theorem kept_heard {phone : Phone} {turn : Turn} {ran : Except PhoneError TurnProgress × Phone}
    (h : Phone.Heard phone turn ran) : Kept phone ran.2 := by
  rcases h with _ | _ <;> exact ⟨rfl, rfl, rfl⟩

omit [Party P] [Transport N] [Registry N Ib] in
theorem kept_sent {phone : Phone} {line : M} {now : Instant} {turn : Turn}
    {ran : Except PhoneError TurnProgress × Phone × M} (h : Phone.Sent phone line now turn ran) :
    Kept phone ran.2.1 := by
  rcases h with _ | _ | _ <;> exact ⟨rfl, rfl, rfl⟩

omit [Registry N Ib] in
/-- The actor answers as the phone sends: on opposite sides of the send, the waits come out equal. -/
theorem answered_held {rt : LocalRuntime P N Ib} {taken : LocalActor P Ib} {phone : Phone}
    (hheld : phone.held = taken.peer peer) (hself : phone.selfAddress = here)
    (hpeer : phone.peer = peer) (hdeadlines : phone.deadlines = taken.deadlines) {answer : Turn}
    (hlegal : (phone.state.onOutgoing answer).1.isOk = true) {line : M}
    (hverdict : (Transport.send line here peer (.Turn answer)).1.isOk =
      (Transport.send rt.net here peer (.Turn answer)).1.isOk)
    {ran : Ran P N Ib Stepped} (hran : Answered rt here.name taken here peer answer ran)
    {sent : Except PhoneError TurnProgress × Phone × M}
    (hsent : Phone.Sent phone line rt.clock answer sent) :
    ∃ net actor', ran.rt = { rt with net }.setActor here.name actor' ∧
      LocalActor.Carries taken actor' peer sent.2.1.held := by
  subst hself hpeer
  have hstate : (taken.peer phone.peer).state = phone.state := by rw [← hheld, Phone.held_state]
  have harm : ∀ progress, LocalActor.Carries taken (rt.arm taken phone.peer answer progress)
      phone.peer (phone.awaiting answer progress rt.clock).held := by
    intro progress
    rw [Phone.held_awaiting, hdeadlines]
    exact LocalActor.Carries.setPeer ..
  rcases hran with ⟨error, hout, _, rfl⟩ | ⟨progress, hout, _, rfl, hrefused, _, rfl⟩ |
    ⟨progress, hout, _, rfl, haccepted⟩ <;> rw [hstate] at hout
  · rw [hout] at hlegal
    cases hlegal
  · rw [send_isOk, ← hverdict] at hrefused
    rcases hsent with ⟨error, hout'⟩ | ⟨progress', hout', text, line', hsend⟩ |
      ⟨progress', hout', line', hsend⟩
    · rw [hout'] at hlegal
      cases hlegal
    · rw [send_rt]
      refine ⟨_, _, rfl, (harm progress).trans ?_⟩
      have hfail := LocalActor.Carries.failExchange (rt.address phone.selfAddress.name)
        (rt.arm taken phone.peer answer progress) phone.peer .SendFailed
      rwa [(harm progress).took] at hfail
    · rw [hsend] at hrefused
      cases hrefused
  · rw [send_isOk, ← hverdict] at haccepted
    rcases hsent with ⟨error, hout'⟩ | ⟨progress', hout', text, line', hsend⟩ |
      ⟨progress', hout', line', hsend⟩
    · rw [hout'] at hlegal
      cases hlegal
    · rw [hsend] at haccepted
      cases haccepted
    · cases hout.symm.trans hout'
      rw [send_rt]
      exact ⟨_, _, rfl, harm progress⟩

theorem Coupled.turn (h : Coupled here peer s actor) (turn : Turn) (reply : Option Turn) (line : M)
    (halike : Alike here peer s (.Turn turn reply line : Event M N)) :
    ∃ actor', Coupled here peer (s.next here peer (.Turn turn reply line : Event M N)) actor' := by
  obtain ⟨ran, hran, hrt⟩ := step_turn h turn
  have hstate : (actor.peer peer).state = s.phone.state := by rw [← h.held, Phone.held_state]
  have hdead : ∀ phone : Phone, peer.endpoint ∈ s.rt.dead.erase peer.endpoint →
      phone.state.live = false := fun _ hmem => absurd rfl (Finset.mem_erase.mp hmem).1
  have hheard := Phone.onIncoming_heard s.phone turn
  simp only [Sides.next, heed, calls, after_singleton, exec, hrt]
  generalize s.phone.onIncoming turn = heard at hheard
  have hkept := kept_heard hheard
  rcases hheard with ⟨error', hin'⟩ | ⟨progress', hin'⟩
  · rcases hran with ⟨error, hin⟩ | ⟨progress, hin, -⟩ | ⟨progress, hin, -⟩
    · refine ⟨_, h.carry hkept ?_ (hdead _) s.rt.net⟩
      rw [h.held]
      exact LocalActor.Carries.setPeer ..
    · rw [hstate, hin'] at hin
      cases hin
    · rw [hstate, hin'] at hin
      cases hin
  · rw [← hstate] at hin'
    obtain ⟨hreply, hanswer⟩ := halike actor progress' h.installed hin'
    have hhear : LocalActor.Carries actor (hear actor peer turn) peer
        (s.phone.stopped (afterTurn .OweThem turn)).held := LocalActor.Carries.setPeer ..
    have htaken : ∀ reply taken effects,
        (hear actor peer turn).handOver (s.rt.address here.name) peer turn = (reply, taken, effects) →
        LocalActor.Carries actor taken peer (s.phone.stopped (afterTurn .OweThem turn)).held := by
      intro reply taken effects hhanded
      have hover := LocalActor.Carries.handOver (s.rt.address here.name) (hear actor peer turn) peer turn
      rw [hhanded, hhear.took] at hover
      exact hhear.trans hover
    rcases hran with ⟨error, hin⟩ | ⟨progress, hin, taken, effects, hsilent⟩ |
      ⟨progress, hin, answer, taken, effects, hanswered, ran, hran⟩
    · rw [hin'] at hin
      cases hin
    · obtain ⟨-, -, hnone⟩ := retook_of_handOver hsilent
      rw [hnone] at hreply
      subst hreply
      rw [receipt_rt]
      exact ⟨_, h.carry hkept (htaken _ _ _ hsilent) (hdead _) _⟩
    · obtain ⟨-, -, hsome⟩ := retook_of_handOver hanswered
      rw [hsome] at hreply
      subst hreply
      obtain ⟨hlegal, hverdict⟩ := hanswer answer rfl
      have hsent := Phone.sendTurn_sent (s.phone.stopped (afterTurn .OweThem turn)) line s.rt.clock answer
      have hcarries := htaken _ _ _ hanswered
      rw [receipt_rt] at hran
      obtain ⟨net, actor', hrt', hcarries'⟩ := answered_held hcarries.took.symm h.selfAddress
        h.peerAddress (h.deadlines.trans hcarries.same.deadlines.symm) hlegal hverdict hran hsent
      have hkept' := kept_sent hsent
      simp only [hrt']
      exact ⟨actor', h.carry ⟨hkept'.selfAddress, hkept'.peer, hkept'.deadlines⟩
        (hcarries.trans hcarries') (hdead _) net⟩

/-! ## Failures -/

/-- The effects report one failure, of the exchange with `peer`: to the observer and to the party, if
there are any. -/
structure Reports (here peer : Address) (observer party : Bool) (cause : FailureCause)
    (effects : List Effect) : Prop where
  reported : effects.filterMap Effect.reported = if observer then [(here, peer, cause)] else []
  told : effects.filterMap Effect.told = if party then [(here, peer, cause)] else []

omit [Transport N] [Registry N Ib] in
theorem reports_failExchange (rt : LocalRuntime P N Ib) (hhere : rt.address here.name = here)
    (actor : LocalActor P Ib) (peer : Address) (cause : FailureCause) :
    Reports here peer rt.observer actor.party.isSome cause
      ((actor.failExchange (rt.address here.name) peer cause).2 ++
        rt.emit (.ExchangeFailed (rt.address here.name) peer cause)) := by
  rw [hhere, LocalActor.failExchange_snd, emit]
  refine ⟨?_, ?_⟩ <;>
    cases actor.conversations.lookup peer <;> cases actor.party <;> cases rt.observer <;> rfl

omit [Transport N] [Registry N Ib] in
theorem failEach_singleton (rt : LocalRuntime P N Ib) (name : ActorName) (actor : LocalActor P Ib)
    (cause : FailureCause) (peer : Address) :
    rt.failEach name actor cause [peer] =
      ((actor.failExchange (rt.address name) peer cause).1,
        (actor.failExchange (rt.address name) peer cause).2 ++
          rt.emit (.ExchangeFailed (rt.address name) peer cause)) := by
  simp [failEach]

theorem Coupled.elapsed (h : Coupled here peer s actor) :
    (∃ actor', Coupled here peer (s.next here peer (.DeadlineElapsed : Event M N)) actor') ∧
      ∀ cause, (heed s.phone s.rt.clock (.DeadlineElapsed : Event M N)).1 = some cause →
        Reports here peer s.rt.observer actor.party.isSome cause
          (s.rt.effects (calls here peer (.DeadlineElapsed : Event M N))) := by
  have hearliest := h.only.earliestDue h.held
  simp only [Sides.next, heed, calls, after_singleton, effects_singleton, exec, step, h.installed,
    sweepDead_none h.quiet, hearliest]
  rcases s.phone.onDeadlineElapsed_cases with ⟨kind, due, hdue, helapsed⟩ | ⟨hdue, helapsed⟩
  · have hcarries := LocalActor.Carries.failExchange (s.rt.address here.name) actor peer
      (.DeadlineElapsed kind)
    rw [← h.held] at hcarries
    simp only [hdue, helapsed, Option.map_some, LocalRuntime.failExchange]
    have hkept : Kept s.phone (s.phone.stopped s.phone.state.fail.2) := ⟨rfl, rfl, rfl⟩
    refine ⟨⟨_, h.carry hkept hcarries (fun _ => fail_not_live _) s.rt.net⟩, fun cause hcause => ?_⟩
    cases hcause
    exact reports_failExchange s.rt h.address actor peer _
  · simp only [hdue, helapsed, Option.map_none]
    refine ⟨⟨actor, h⟩, fun cause hcause => ?_⟩
    cases hcause

omit [Party P] [Transport M] [Transport N] [Registry N Ib] in
theorem kept_cutOff (phone : Phone) (endpoint : EndpointId) (cause : FailureCause) :
    Kept phone (phone.cutOff endpoint cause).2 := by
  rcases phone.cutOff_cases endpoint cause with ⟨hcut, -, -⟩ | ⟨hcut, -⟩ <;> rw [hcut] <;>
    exact ⟨rfl, rfl, rfl⟩

omit [Transport M] [Transport N] [Registry N Ib] in
theorem cutOff_failEach (h : Coupled here peer s actor) (rt : LocalRuntime P N Ib)
    (hrt : rt.address here.name = here) (hobserver : rt.observer = s.rt.observer)
    (actor₀ : LocalActor P Ib) (hpeer : ∀ q, actor₀.peer q = actor.peer q)
    (hparty : actor₀.party = actor.party) (cause : FailureCause) :
    let cut := s.phone.cutOff peer.endpoint cause
    let failed := rt.failEach here.name actor₀ cause (actor₀.affected (· = peer.endpoint))
    LocalActor.Carries actor₀ failed.1 peer cut.2.held ∧ cut.2.state.live = false ∧
      ∀ cause', cut.1 = some cause' →
        Reports here peer s.rt.observer actor.party.isSome cause' failed.2 := by
  intro cut failed
  have hheld : s.phone.held = actor₀.peer peer := h.held.trans (hpeer peer).symm
  have honly : actor₀.Only peer := fun q hq => (hpeer q).trans (h.only q hq)
  have haffected : actor₀.affected (· = peer.endpoint) = if s.phone.state.live then [peer] else [] := by
    rw [honly.affected, ← hheld]
    simp
  rcases s.phone.cutOff_cases peer.endpoint cause with ⟨hcut, -, hlive⟩ | ⟨hcut, hquiet⟩
  · rw [if_pos hlive] at haffected
    have hcarries := LocalActor.Carries.failExchange (rt.address here.name) actor₀ peer cause
    have hfail : (actor₀.peer peer).fail = (s.phone.stopped .Failed).held := by
      rw [← hheld]
      cases hstate : s.phone.state <;> simp [PeerState.fail, fail, hstate] at hlive ⊢
    rw [hfail] at hcarries
    simp only [cut, failed, hcut, haffected, failEach_singleton]
    refine ⟨hcarries, rfl, fun cause' hcause => ?_⟩
    cases hcause
    have hreports := reports_failExchange rt hrt actor₀ peer cause
    rwa [hobserver, hparty] at hreports
  · have hlive : s.phone.state.live = false := hquiet (by rw [h.peerAddress])
    rw [hlive] at haffected
    simp only [cut, failed, hcut, haffected]
    refine ⟨⟨hheld.symm, fun _ _ => rfl, .refl _⟩, hlive, fun cause' hcause => ?_⟩
    cases hcause

theorem Coupled.died (h : Coupled here peer s actor) :
    (∃ actor', Coupled here peer (s.next here peer (.Died : Event M N)) actor') ∧
      ∀ cause, (heed s.phone s.rt.clock (.Died : Event M N)).1 = some cause →
        Reports here peer s.rt.observer actor.party.isSome cause
          (s.rt.effects (calls here peer (.Died : Event M N))) := by
  obtain ⟨hcarries, hlive, hreports⟩ := cutOff_failEach h (s.rt.reportDead peer.endpoint) h.address rfl
    actor (fun _ => rfl) rfl .Disconnected
  simp only [Sides.next, heed, calls, after_singleton, effects_singleton, exec, Phone.onPeerDeath,
    h.peerAddress, step_reported h.installed h.quiet]
  exact ⟨⟨_, h.carry (kept_cutOff ..) hcarries (fun _ => hlive) s.rt.net⟩, hreports⟩

theorem Coupled.revoked (h : Coupled here peer s actor) :
    (∃ actor', Coupled here peer (s.next here peer (.Revoked : Event M N)) actor') ∧
      ∀ cause, (heed s.phone s.rt.clock (.Revoked : Event M N)).1 = some cause →
        Reports here peer s.rt.observer actor.party.isSome cause
          (s.rt.effects (calls here peer (.Revoked : Event M N))) := by
  let actor₀ : LocalActor P Ib := { actor with allowlist := actor.allowlist.revoke peer.endpoint }
  obtain ⟨hcarries, hlive, hreports⟩ := cutOff_failEach h s.rt h.address rfl actor₀ (fun _ => rfl) rfl
    .Revoked
  have hkept := kept_cutOff s.phone peer.endpoint .Revoked
  have hrevoke : s.rt.exec (.Revoke here.name peer.endpoint) =
      let failed := s.rt.failEach here.name actor₀ .Revoked (actor₀.affected (· = peer.endpoint))
      (s.rt.setActor here.name failed.1, failed.2) := by
    simp only [exec, revoke, h.installed]
    rfl
  have hadmit : ∀ actor₁ : LocalActor P Ib,
      (s.rt.setActor here.name actor₁).exec (.Admit here.name peer.endpoint) =
        ((s.rt.setActor here.name actor₁).setActor here.name
          { actor₁ with allowlist := actor₁.allowlist.admitEndpoint peer.endpoint }, []) := by
    intro actor₁
    simp only [exec, admitEndpoint, setActor_self]
  simp only [Sides.next, heed, calls, LocalRuntime.after, LocalRuntime.effects, Run.after_cons, Run.after_nil,
    LocalRuntime.next, Run.outputs, hrevoke, hadmit, Phone.onRevoked, h.peerAddress, List.append_nil]
  refine ⟨⟨_, ⟨h.address, setActor_self .., ?_, ?_, ?_, ?_, ?_, ?_, ?_⟩⟩, hreports⟩
  · simp
  · exact fun q hq => (hcarries.others q hq).trans (h.only q hq)
  · exact fun _ => hcarries.took ▸ hlive
  · exact hkept.selfAddress.trans h.selfAddress
  · exact hkept.peer.trans h.peerAddress
  · exact hkept.deadlines.trans (h.deadlines.trans hcarries.same.deadlines.symm)
  · exact hcarries.took.symm

theorem Coupled.elsewhere (h : Coupled here peer s actor) (net : N → N) (clock : Instant) :
    Coupled here peer (s.next here peer (.Elsewhere net clock : Event M N)) actor :=
  ⟨h.address, h.installed, h.admitted, h.only, h.buried, h.selfAddress, h.peerAddress, h.deadlines,
    h.held⟩

/-! ## The choreography -/

/-- The phone holds the state and the waits that the runtime holds for the conversation. -/
def Agree (here peer : Address) (s : Sides P N Ib) : Prop :=
  ∃ actor, s.rt.actors here.name = some actor ∧
    actor.peer peer = ⟨s.phone.state, s.phone.ackDue, s.phone.turnDue⟩

theorem Coupled.next (h : Coupled here peer s actor) (event : Event M N)
    (halike : Alike here peer s event) :
    (∃ actor', Coupled here peer (s.next here peer event) actor') ∧
      ∀ cause, (heed s.phone s.rt.clock event).1 = some cause →
        Reports here peer s.rt.observer actor.party.isSome cause
          (s.rt.effects (calls here peer event)) := by
  cases event with
  | Turn turn reply line =>
    refine ⟨h.turn turn reply line halike, fun cause hcause => ?_⟩
    simp only [heed] at hcause
    split at hcause <;> cases hcause
  | Ack ack => exact ⟨h.ack ack, fun cause hcause => nomatch hcause⟩
  | DeadlineElapsed => exact h.elapsed
  | Died => exact h.died
  | Revoked => exact h.revoked
  | Elsewhere net clock => exact ⟨⟨actor, h.elsewhere net clock⟩, fun cause hcause => nomatch hcause⟩

omit [Party P] [Transport N] in
theorem coupled_converse (rt : LocalRuntime P N Ib) (hendpoint : rt.endpoint = here.endpoint)
    {allowlist : Allowlist} (hallowed : allowlist.allows peer.endpoint = true) (deadlines : Deadlines)
    (kind : ActorKind) (party : Option (Boxed P))
    (hinstalled : (rt.installInner here.name allowlist deadlines kind party).result = .ok ()) :
    ∃ actor, Coupled here peer
      ⟨.converse here peer deadlines, (rt.installInner here.name allowlist deadlines kind party).rt⟩
      actor := by
  unfold installInner at hinstalled ⊢
  split at hinstalled
  · cases hinstalled
  · rename_i hfree
    simp only [if_neg hfree]
    split at hinstalled
    · cases hinstalled
    · exact ⟨_, by rw [address]; exact congrArg₂ _ hendpoint rfl, setActor_self .., hallowed,
        fun _ _ => rfl, fun _ => rfl, rfl, rfl, rfl, rfl⟩

/-- A phone and an actor that start fresh, and live through the same events of one conversation, hold
the same state and the same waits after each, and the runtime reports what the phone returns. -/
theorem phone_and_runtime_agree (here peer : Address) (rt : LocalRuntime P N Ib)
    (hendpoint : rt.endpoint = here.endpoint) (allowlist : Allowlist)
    (hallowed : allowlist.allows peer.endpoint = true) (deadlines : Deadlines) (kind : ActorKind)
    (party : Option (Boxed P))
    (hinstalled : (rt.installInner here.name allowlist deadlines kind party).result = .ok ())
    (events : List (Event M N))
    (halike : Run.Along (Sides.next here peer) (Alike here peer)
      ⟨.converse here peer deadlines, (rt.installInner here.name allowlist deadlines kind party).rt⟩
      events) :
    Run.Along (Sides.next here peer)
      (fun s event => Agree here peer (s.next here peer event) ∧
        ∀ cause, (heed s.phone s.rt.clock event).1 = some cause →
          Reports here peer s.rt.observer (s.rt.hasParty here.name) cause
            (s.rt.effects (calls here peer event)))
      ⟨.converse here peer deadlines, (rt.installInner here.name allowlist deadlines kind party).rt⟩
      events := by
  refine Run.along_of_invariant (I := fun s => ∃ actor, Coupled here peer s actor) _ ?_ ?_ _ _
    (coupled_converse rt hendpoint hallowed deadlines kind party hinstalled) halike
  · rintro s event ⟨actor, h⟩ hevent
    exact (h.next event hevent).1
  · rintro s event ⟨actor, h⟩ hevent
    obtain ⟨⟨actor', hnext⟩, hreports⟩ := h.next event hevent
    refine ⟨⟨actor', hnext.installed, hnext.held.symm⟩, fun cause hcause => ?_⟩
    have hparty : s.rt.hasParty here.name = actor.party.isSome := by
      rw [hasParty, h.installed, Option.all_some]
    rw [hparty]
    exact hreports cause hcause

end

/-- Bob asks back, and waits for an ack that does not come. -/
theorem phone_and_runtime_agree_bob :
    let rt : LocalRuntime CountdownParty Shared MemoryInbox :=
      .new Sample.bob.endpoint (Shared.new.register Sample.alice).2 0 Sample.patience
    let asked : Request := ⟨⟨Vector.replicate 16 100⟩, [0]⟩
    let events : List (Event Shared Shared) :=
      [.Turn (.Open (Sample.request 1)) (some (.Continue ⟨(Sample.request 1).id, [1]⟩ asked))
          (Shared.new.register Sample.alice).2,
        .DeadlineElapsed]
    let installed := rt.installParty Sample.bob.name ⟨{Sample.alice.endpoint}⟩ Sample.patience
      (.app (.new 1))
    Run.Along (Sides.next Sample.bob Sample.alice)
      (fun s event => Agree Sample.bob Sample.alice (s.next Sample.bob Sample.alice event) ∧
        ∀ cause, (heed s.phone s.rt.clock event).1 = some cause →
          Reports Sample.bob Sample.alice s.rt.observer (s.rt.hasParty Sample.bob.name) cause
            (s.rt.effects (calls Sample.bob Sample.alice event)))
      ⟨.converse Sample.bob Sample.alice Sample.patience, installed.rt⟩ events := by
  intro rt asked events installed
  refine phone_and_runtime_agree Sample.bob Sample.alice rt rfl _ (by decide) Sample.patience .Plain
    (some (.app (.new 1))) rfl events ⟨?_, trivial, trivial⟩
  rintro actor progress hactor -
  cases hactor
  refine ⟨by decide, fun answer hanswer => ?_⟩
  cases hanswer
  exact ⟨by decide, by decide⟩

end Choreography

end Kamiroh
