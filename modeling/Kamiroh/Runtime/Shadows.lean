import Kamiroh.Runtime.Conversations
import Kamiroh.Runtime.Effects

/-!
# The shadow machines of the stock parties

A stock party keeps its own copy of the turn machine for each peer. Between the steps of a runtime it
is equal to the runtime's own, so no reply of the party is ever judged illegal.
-/

namespace Kamiroh

open TurnState

/-! ## What `expect` unwraps -/

/-- The verdict on the reply that `on_turn` unwraps, when it comes to a reply. -/
def EchoParty.expected (party : EchoParty) (peer : Address) (turn : Turn) :
    Option (Except TurnError TurnProgress) :=
  (party.onTurn peer turn).2.map fun reply => (((party.state peer).onIncoming turn).2.onOutgoing reply).1

def CountdownParty.expected (party : CountdownParty) (peer : Address) (turn : Turn) :
    Option (Except TurnError TurnProgress) :=
  (party.onTurn peer turn).2.map fun reply =>
    (((party.peer peer).state.onIncoming turn).2.onOutgoing reply).1

/-- The cause, if the effect tells of a failed exchange. -/
def Effect.cause : Effect → Option FailureCause
  | Told _ _ cause | Failed _ _ _ cause | Emitted (.ExchangeFailed _ _ cause) => some cause
  | Emitted (.DeliveryDenied ..) | Emitted (.IllegalTurnDropped ..) | Sent .. | Handed .. | Moved .. =>
    none

theorem EchoParty.expected_legal {party : EchoParty} {peer : Address} {turn : Turn}
    {verdict : Except TurnError TurnProgress} (h : party.expected peer turn = some verdict) :
    verdict.isOk = true := by
  obtain ⟨reply, hreply, rfl⟩ := Option.map_eq_some_iff.mp h
  cases hlegal : ((party.state peer).onIncoming turn).1 with
  | error error => simp [onTurn, hlegal] at hreply
  | ok progress =>
    cases hrequest : turn.request with
    | none => simp [onTurn_silent hlegal hrequest] at hreply
    | some request =>
      rw [onTurn_answered hlegal hrequest] at hreply
      cases hreply
      rw [reply_legal hlegal hrequest request.body]
      rfl

theorem CountdownParty.expected_legal {party : CountdownParty} {peer : Address} {turn : Turn}
    {verdict : Except TurnError TurnProgress} (h : party.expected peer turn = some verdict) :
    verdict.isOk = true := by
  obtain ⟨reply, hreply, rfl⟩ := Option.map_eq_some_iff.mp h
  cases hlegal : ((party.peer peer).state.onIncoming turn).1 with
  | error error => simp [onTurn, hlegal] at hreply
  | ok progress =>
    cases hrequest : turn.request with
    | none => simp [onTurn_silent hlegal hrequest] at hreply
    | some request =>
      obtain ⟨answer, progress', next, -, hout, -, hturn⟩ := onTurn_answered hlegal hrequest
      rw [hturn] at hreply
      cases hreply
      rw [hout]
      rfl

/-! ## Stock parties behind a runtime -/

/-- The parties of an application that uses `CountdownParty` besides its own. -/
inductive Hosted (Q : Type)
  | countdown (party : CountdownParty)
  | own (party : Q)

variable {P Q N Ib : Type} [Party Q]

instance : Party (Hosted Q) where
  onTurn
    | .countdown party, peer, turn =>
      (.countdown (Party.onTurn party peer turn).1, (Party.onTurn party peer turn).2)
    | .own party, peer, turn => (.own (Party.onTurn party peer turn).1, (Party.onTurn party peer turn).2)
  onExchangeFailed
    | .countdown party, peer, cause => .countdown (Party.onExchangeFailed party peer cause)
    | .own party, peer, cause => .own (Party.onExchangeFailed party peer cause)

/-- The shadow machines, if the party is a stock one. -/
def shadow : Boxed (Hosted Q) → Option (Address → TurnState)
  | .echo party => some party.state
  | .app (.countdown party) => some fun peer => (party.peer peer).state
  | .app (.own _) => none

/-! ## How the shadows move -/

theorem EchoParty.state_update (states : Assoc Address TurnState) (peer : Address) (s : TurnState) :
    (⟨states.insert peer s⟩ : EchoParty).state =
      Function.update (⟨states⟩ : EchoParty).state peer s := by
  funext q
  by_cases hq : q = peer
  · subst hq
    simp [EchoParty.state]
  · simp [EchoParty.state, hq, AList.lookup_insert_ne hq]

theorem CountdownParty.peer_update (rounds : UInt8) (peers : Assoc Address Countdown) (peer : Address)
    (c : Countdown) :
    (⟨rounds, peers.insert peer c⟩ : CountdownParty).peer =
      Function.update (⟨rounds, peers⟩ : CountdownParty).peer peer c := by
  funext q
  by_cases hq : q = peer
  · subst hq
    simp [CountdownParty.peer]
  · simp [CountdownParty.peer, hq, AList.lookup_insert_ne hq]

theorem CountdownParty.states_update (party : CountdownParty) (peer : Address) (c : Countdown) :
    (fun q => ((⟨party.rounds, party.peers.insert peer c⟩ : CountdownParty).peer q).state) =
      Function.update (fun q => (party.peer q).state) peer c.state := by
  rw [peer_update]
  exact Function.comp_update Countdown.state party.peer peer c

/-- What a stock party makes of a turn that its shadow accepts. -/
inductive Played (party : Boxed (Hosted Q)) (s : Address → TurnState) (peer : Address) (turn : Turn) :
    Prop
  | silent (hrequest : turn.request = none) (hreply : (Party.onTurn party peer turn).2 = none)
      (hshadow : shadow (Party.onTurn party peer turn).1 =
        some (Function.update s peer ((s peer).onIncoming turn).2))
  | answered (request : Request) (hrequest : turn.request = some request) (reply : Turn)
      (hreply : (Party.onTurn party peer turn).2 = some reply)
      (hanswers : reply.response = some ⟨request.id, request.body⟩) (progress : TurnProgress)
      (hlegal : (((s peer).onIncoming turn).2.onOutgoing reply).1 = .ok progress)
      (hshadow : shadow (Party.onTurn party peer turn).1 =
        some (Function.update s peer (((s peer).onIncoming turn).2.onOutgoing reply).2))

theorem onTurn_played {party : Boxed (Hosted Q)} {s : Address → TurnState} (h : shadow party = some s)
    {peer : Address} {turn : Turn} {progress : TurnProgress}
    (hlegal : ((s peer).onIncoming turn).1 = .ok progress) : Played party s peer turn := by
  rcases party with party | party | party
  · cases h
    cases hrequest : turn.request with
    | none =>
      have hturn := EchoParty.onTurn_silent hlegal hrequest
      refine .silent hrequest (congrArg Prod.snd hturn) ?_
      exact (congrArg (fun taken => some taken.1.state) hturn).trans
        (congrArg some (EchoParty.state_update ..))
    | some request =>
      have hturn := EchoParty.onTurn_answered hlegal hrequest
      refine .answered request hrequest _ (congrArg Prod.snd hturn) rfl .Concluded
        (reply_legal hlegal hrequest request.body) ?_
      exact (congrArg (fun taken => some taken.1.state) hturn).trans
        (congrArg some (EchoParty.state_update ..))
  · cases h
    cases hrequest : turn.request with
    | none =>
      have hturn := CountdownParty.onTurn_silent hlegal hrequest
      refine .silent hrequest (congrArg Prod.snd hturn) ?_
      exact (congrArg (fun taken => some fun q => (taken.1.peer q).state) hturn).trans
        (congrArg some (CountdownParty.states_update ..))
    | some request =>
      obtain ⟨reply, progress', next, hanswers, hout, hnext, hturn⟩ :=
        CountdownParty.onTurn_answered hlegal hrequest
      refine .answered request hrequest reply (congrArg Prod.snd hturn) hanswers progress' hout ?_
      rw [← hnext]
      exact (congrArg (fun taken => some fun q => (taken.1.peer q).state) hturn).trans
        (congrArg some (CountdownParty.states_update ..))
  · cases h

theorem onTurn_own {party : Boxed (Hosted Q)} (h : shadow party = none) (peer : Address) (turn : Turn) :
    shadow (Party.onTurn party peer turn).1 = none := by
  rcases party with party | party | party
  · cases h
  · cases h
  · rfl

theorem onExchangeFailed_shadow (party : Boxed (Hosted Q)) (peer : Address) (cause : FailureCause) :
    shadow (Party.onExchangeFailed party peer cause) =
      (shadow party).map fun s => Function.update s peer (s peer).fail.2 := by
  rcases party with party | party | party
  · refine congrArg some (funext fun q => ?_)
    by_cases hq : q = peer
    · subst hq
      simp only [Party.onExchangeFailed, EchoParty.onExchangeFailed, EchoParty.state,
        Assoc.lookup_modify_self, Function.update_self]
      cases party.states.lookup q <;> rfl
    · simp [Party.onExchangeFailed, EchoParty.onExchangeFailed, EchoParty.state, hq]
  · refine congrArg some (funext fun q => ?_)
    by_cases hq : q = peer
    · subst hq
      simp only [Party.onExchangeFailed, CountdownParty.onExchangeFailed, CountdownParty.peer,
        Assoc.lookup_modify_self, Function.update_self]
      cases party.peers.lookup q <;> rfl
    · simp [Party.onExchangeFailed, CountdownParty.onExchangeFailed, CountdownParty.peer, hq]
  · rfl

/-! ## One actor -/

namespace LocalActor

def shadow (actor : LocalActor (Hosted Q) Ib) : Option (Address → TurnState) :=
  actor.party.bind Kamiroh.shadow

/-- If the party is a stock one, its shadows are the machines of the runtime. -/
def Matched (actor : LocalActor (Hosted Q) Ib) : Prop :=
  ∀ s, actor.shadow = some s → ∀ p, s p = (actor.peer p).state

theorem failExchange_shadow (here : Address) (actor : LocalActor (Hosted Q) Ib) (p : Address)
    (cause : FailureCause) :
    (actor.failExchange here p cause).1.shadow =
      actor.shadow.map fun s => Function.update s p (s p).fail.2 := by
  unfold failExchange shadow
  cases actor.party with
  | none => rfl
  | some party => exact onExchangeFailed_shadow party p cause

theorem Matched.failExchange {actor : LocalActor (Hosted Q) Ib} (h : actor.Matched) (here p : Address)
    (cause : FailureCause) : (actor.failExchange here p cause).1.Matched := by
  intro s hs q
  rw [failExchange_shadow, Option.map_eq_some_iff] at hs
  obtain ⟨s, hs, rfl⟩ := hs
  rw [failExchange_peer]
  by_cases hq : q = p
  · subst hq
    rw [Function.update_self, if_pos rfl, PeerState.fail_state, h s hs]
  · rw [Function.update_of_ne hq, if_neg hq]
    exact h s hs q

omit [Party Q] in
theorem Matched.update {actor actor' : LocalActor (Hosted Q) Ib} (h : actor.Matched) (p : Address)
    (hothers : ∀ q, q ≠ p → (actor'.peer q).state = (actor.peer q).state)
    (hshadow : ∀ s', actor'.shadow = some s' → ∃ s, actor.shadow = some s ∧
      s' = Function.update s p (actor'.peer p).state) : actor'.Matched := by
  intro s' hs' q
  obtain ⟨s, hs, rfl⟩ := hshadow s' hs'
  by_cases hq : q = p
  · subst hq
    rw [Function.update_self]
  · rw [Function.update_of_ne hq, hothers q hq]
    exact h s hs q

end LocalActor

namespace LocalRuntime

theorem matched_failEach (rt : LocalRuntime (Hosted Q) N Ib) (name : ActorName)
    {actor : LocalActor (Hosted Q) Ib} (h : actor.Matched) (cause : FailureCause)
    (peers : List Address) : (rt.failEach name actor cause peers).1.Matched := by
  induction peers generalizing actor with
  | nil => exact h
  | cons p peers ih => exact ih (h.failExchange _ p cause)

/-! ## A turn -/

/-- What a hosted stock party makes of a turn that the runtime accepts. -/
inductive HandedOver (s : Address → TurnState) (peer : Address) (turn : Turn)
    (reply : Option Turn) (taken : LocalActor (Hosted Q) Ib) : Prop
  | silent (hrequest : turn.request = none) (hreply : reply = none)
      (hshadow : taken.shadow = some (Function.update s peer (afterTurn .OweThem turn)))
  | answered (request : Request) (hrequest : turn.request = some request) (answer : Turn)
      (hreply : reply = some answer) (hanswers : answer.response = some ⟨request.id, request.body⟩)
      (progress : TurnProgress)
      (hlegal : ((afterTurn .OweThem turn).onOutgoing answer).1 = .ok progress)
      (hshadow : taken.shadow = some (Function.update s peer (afterTurn .AwaitingTheirTurn answer)))

section

variable {actor : LocalActor (Hosted Q) Ib} {here peer : Address} {turn : Turn} {reply : Option Turn}
  {taken : LocalActor (Hosted Q) Ib} {effects : List Effect}

theorem handed_over (h : actor.Matched) {s : Address → TurnState} (hs : actor.shadow = some s)
    {progress : TurnProgress} (hin : ((actor.peer peer).state.onIncoming turn).1 = .ok progress)
    (hhanded : (hear actor peer turn).handOver here peer turn = (reply, taken, effects)) :
    HandedOver s peer turn reply taken := by
  obtain ⟨party, hparty, hshadow⟩ := Option.bind_eq_some_iff.mp hs
  have hparty' : (hear actor peer turn).party = some party := hparty
  simp only [LocalActor.handOver, hparty', Prod.mk.injEq] at hhanded
  obtain ⟨hreply, rfl, -⟩ := hhanded
  have hstate := h s hs peer
  have hheard : ((s peer).onIncoming turn).2 = afterTurn .OweThem turn := by
    rw [hstate]
    exact onIncoming_state _ _ _ hin
  rw [← hstate] at hin
  rcases onTurn_played hshadow hin with ⟨hrequest, hsilent, hnext⟩ |
    ⟨request, hrequest, answer, hanswer, hanswers, progress', hout, hnext⟩
  · rw [hheard] at hnext
    exact .silent hrequest (hreply.symm.trans hsilent) hnext
  · rw [hheard] at hout
    rw [hheard, onOutgoing_state _ _ _ hout] at hnext
    exact .answered request hrequest answer (hreply.symm.trans hanswer) hanswers progress' hout hnext

theorem handed_own (hs : actor.shadow = none)
    (hhanded : (hear actor peer turn).handOver here peer turn = (reply, taken, effects)) :
    taken.shadow = none := by
  unfold LocalActor.handOver at hhanded
  split at hhanded
  · rename_i party hparty
    cases hhanded
    have hown : Kamiroh.shadow party = none := by
      have hparty' : actor.party = some party := hparty
      rwa [LocalActor.shadow, hparty'] at hs
    exact onTurn_own hown peer turn
  · cases hhanded
    exact hs

end

/-! ### What is said of a failure -/

theorem Failure.cause {here peer : Address} {cause : FailureCause} {e : Effect}
    (h : Failure here peer cause e) : e.cause = some cause := by
  cases h <;> rfl

/-! ### The reply of a stock party -/

variable [Transport N]

/-- What a runtime makes of a turn for an actor that hosts a stock party. -/
structure Fair (rt : LocalRuntime (Hosted Q) N Ib) (name : ActorName)
    (actor : LocalActor (Hosted Q) Ib) (target peer : Address) (turn : Turn)
    (ran : Ran (Hosted Q) N Ib Stepped) : Prop where
  matched : ∃ net actor', ran.rt = { rt with net }.setActor name actor' ∧ actor'.Matched
  legal : ∀ e ∈ ran.effects, e.cause ≠ some .IllegalReply
  answered : ∀ progress, ((actor.peer peer).state.onIncoming turn).1 = .ok progress →
    ∀ request, turn.request = some request → ∃ answer accepted,
      answer.response = some ⟨request.id, request.body⟩ ∧
        .Sent target peer (.Turn answer) accepted ∈ ran.effects

omit [Party Q] [Transport N] in
theorem matched_arm {rt : LocalRuntime (Hosted Q) N Ib} {actor taken : LocalActor (Hosted Q) Ib}
    {peer : Address} {answer : Turn} (hmatched : actor.Matched) {s : Address → TurnState}
    (hs : actor.shadow = some s) (hretook : Retook actor peer taken)
    (hshadow : taken.shadow = some (Function.update s peer (afterTurn .AwaitingTheirTurn answer)))
    (progress : TurnProgress) : (rt.arm taken peer answer progress).Matched := by
  refine hmatched.update peer (fun q hq => ?_) fun s' hs' => ⟨s, hs, ?_⟩
  · rw [arm, LocalActor.peer_setPeer_of_ne taken _ hq, hretook.others q hq]
  · have hsame : (rt.arm taken peer answer progress).shadow = taken.shadow := rfl
    rw [hsame, hshadow] at hs'
    rw [arm, LocalActor.peer_setPeer_self]
    exact (Option.some.inj hs').symm

theorem Answered.fair {rt : LocalRuntime (Hosted Q) N Ib} {name : ActorName}
    {actor : LocalActor (Hosted Q) Ib} {self peer : Address} {answer : Turn}
    {ran : Ran (Hosted Q) N Ib Stepped} (h : Answered rt name actor self peer answer ran)
    {progress : TurnProgress} (hlegal : ((actor.peer peer).state.onOutgoing answer).1 = .ok progress)
    (hmatched : ∀ progress, (rt.arm actor peer answer progress).Matched) :
    (∃ net actor', ran.rt = { rt with net }.setActor name actor' ∧ actor'.Matched) ∧
      (∀ e ∈ ran.effects, e.cause ≠ some .IllegalReply) ∧
      ∃ accepted, .Sent self peer (.Turn answer) accepted ∈ ran.effects := by
  have hsent : .Sent self peer (.Turn answer) (rt.send self peer (.Turn answer)).result.isOk ∈
      (rt.send self peer (.Turn answer)).effects := by
    rw [send_effects]
    exact List.mem_singleton_self _
  have hnone : ∀ e ∈ (rt.send self peer (.Turn answer)).effects, e.cause ≠ some .IllegalReply := by
    intro e he
    obtain ⟨accepted, rfl⟩ := mem_send he
    nofun
  rcases h with ⟨error, hout, _, rfl⟩ | ⟨progress', hout, _, rfl, hrefused, _, rfl⟩ |
    ⟨progress', hout, _, rfl, haccepted⟩
  · cases hout.symm.trans hlegal
  · refine ⟨?_, ?_, _, List.mem_append_left _ (List.mem_cons_of_mem _ hsent)⟩
    · rw [send_rt]
      exact ⟨_, _, rfl, (hmatched progress').failExchange _ _ _⟩
    · rw [List.forall_mem_append, List.forall_mem_cons]
      refine ⟨⟨by simp [Effect.cause], hnone⟩, fun e he => ?_⟩
      rw [(failExchange_failure he).cause]
      simp
  · refine ⟨?_, ?_, _, List.mem_cons_of_mem _ hsent⟩
    · rw [send_rt]
      exact ⟨_, _, rfl, hmatched progress'⟩
    · rw [List.forall_mem_cons]
      exact ⟨by simp [Effect.cause], hnone⟩

theorem TookTurn.fair {rt : LocalRuntime (Hosted Q) N Ib} {name : ActorName}
    {actor : LocalActor (Hosted Q) Ib} {self peer : Address} {turn : Turn} {ack : Option Message}
    {ran : Ran (Hosted Q) N Ib Stepped} (h : TookTurn rt name actor self peer turn ack ran)
    (hmatched : actor.Matched) {s : Address → TurnState} (hs : actor.shadow = some s) :
    Fair rt name actor self peer turn ran := by
  have hreceipt : ∀ e ∈ (rt.receipt self peer ack).effects, e.cause ≠ some .IllegalReply := by
    intro e he
    obtain ⟨message, accepted, rfl⟩ := mem_receipt he
    nofun
  have hhanded : ∀ e ∈ ((hear actor peer turn).handOver (rt.address name) peer turn).2.2,
      e.cause ≠ some .IllegalReply := by
    intro e he
    cases mem_handOver he
    nofun
  rcases h with ⟨error, hin⟩ | ⟨progress, hin, taken, effects, hsilent⟩ |
    ⟨progress, hin, reply, taken, effects, hreply, ran, hran⟩
  · refine ⟨⟨rt.net, _, rfl, fun s' hs' q => ?_⟩, ?_, fun progress hok => ?_⟩
    · rw [hmatched s' hs' q]
      by_cases hq : q = peer
      · subst hq
        rw [LocalActor.peer_setPeer_self]
      · rw [LocalActor.peer_setPeer_of_ne actor _ hq]
    · rw [List.forall_mem_cons]
      refine ⟨nofun, fun e he => ?_⟩
      cases mem_emit he
      nofun
    · cases hin.symm.trans hok
  · obtain ⟨hretook, hpeer, -⟩ := retook_of_handOver hsilent
    rcases handed_over hmatched hs hin hsilent with ⟨hrequest, -, hshadow⟩ | ⟨_, _, _, hsome, _⟩
    · refine ⟨?_, ?_, fun _ _ request hsome => ?_⟩
      · rw [receipt_rt]
        refine ⟨_, taken, rfl, hmatched.update peer (fun q hq => ?_) fun s' hs' => ⟨s, hs, ?_⟩⟩
        · rw [hretook.others q hq]
        · rw [hshadow] at hs'
          rw [hpeer]
          exact (Option.some.inj hs').symm
      · rw [hsilent] at hhanded
        rw [List.forall_mem_append, List.forall_mem_cons]
        exact ⟨⟨nofun, hreceipt⟩, hhanded⟩
      · cases hrequest.symm.trans hsome
    · cases hsome
  · obtain ⟨hretook, hpeer, -⟩ := retook_of_handOver hreply
    rcases handed_over hmatched hs hin hreply with ⟨_, hnone, _⟩ |
      ⟨request, hrequest, answer, hsome, hanswers, progress', hout, hshadow⟩
    · cases hnone
    · cases hsome
      rw [hreply] at hhanded
      have hlegal : ((taken.peer peer).state.onOutgoing reply).1 = .ok progress' := by
        rw [hpeer]
        exact hout
      obtain ⟨⟨net, actor', hrt, hactor'⟩, hfair, accepted, hsent⟩ :=
        hran.fair hlegal (matched_arm hmatched hs hretook hshadow)
      refine ⟨⟨net, actor', ?_, hactor'⟩, ?_, fun _ _ request' hrequest' => ?_⟩
      · rw [receipt_rt] at hrt
        exact hrt
      · rw [List.forall_mem_append, List.forall_mem_append, List.forall_mem_cons]
        exact ⟨⟨⟨nofun, hreceipt⟩, hhanded⟩, hfair⟩
      · cases hrequest.symm.trans hrequest'
        exact ⟨reply, accepted, hanswers, List.mem_append_right _ hsent⟩

/-- Parties that are not stock have no shadow, and the turn gives them none. -/
theorem TookTurn.own {rt : LocalRuntime (Hosted Q) N Ib} {name : ActorName}
    {actor : LocalActor (Hosted Q) Ib} {self peer : Address} {turn : Turn} {ack : Option Message}
    {ran : Ran (Hosted Q) N Ib Stepped} (h : TookTurn rt name actor self peer turn ack ran)
    (hs : actor.shadow = none) :
    ∃ net actor', ran.rt = { rt with net }.setActor name actor' ∧ actor'.shadow = none := by
  rcases h with ⟨error, hin⟩ | ⟨progress, hin, taken, effects, hsilent⟩ |
    ⟨progress, hin, reply, taken, effects, hreply, ran, hran⟩
  · exact ⟨rt.net, _, rfl, hs⟩
  · rw [receipt_rt]
    exact ⟨_, taken, rfl, handed_own hs hsilent⟩
  · have htaken := handed_own hs hreply
    rw [receipt_rt] at hran
    rcases hran with ⟨error, hout, _, rfl⟩ | ⟨progress', hout, _, rfl, hrefused, _, rfl⟩ |
      ⟨progress', hout, _, rfl, haccepted⟩
    · refine ⟨_, _, rfl, ?_⟩
      rw [LocalActor.failExchange_shadow]
      exact congrArg _ htaken
    · rw [send_rt]
      refine ⟨_, _, rfl, ?_⟩
      rw [LocalActor.failExchange_shadow]
      exact congrArg _ htaken
    · rw [send_rt]
      exact ⟨_, _, rfl, htaken⟩

/-! ## A call -/

/-- Between steps, every hosted stock party is in step with its runtime. -/
def InStep (rt : LocalRuntime (Hosted Q) N Ib) : Prop :=
  ∀ name actor, rt.actors name = some actor → actor.Matched

/-- A stock party that the call installs has talked to nobody yet, as one from `new`. -/
def InstallsUnused : Call (Hosted Q) N → Prop
  | .InstallParty _ _ _ party => ∀ s, shadow party = some s → ∀ p, s p = .Idle
  | _ => True

omit [Party Q] [Transport N] in
theorem InStep.setActor {rt : LocalRuntime (Hosted Q) N Ib} (h : rt.InStep) (name : ActorName)
    {actor : LocalActor (Hosted Q) Ib} (hactor : actor.Matched) : (rt.setActor name actor).InStep := by
  intro name' actor' hactor'
  by_cases hname : name' = name
  · subst hname
    rw [setActor_self] at hactor'
    cases hactor'
    exact hactor
  · rw [setActor_of_ne rt actor hname] at hactor'
    exact h name' actor' hactor'

variable [Registry N Ib]

omit [Party Q] [Transport N] in
theorem InStep.installInner {rt : LocalRuntime (Hosted Q) N Ib} (h : rt.InStep) (name : ActorName)
    (allowlist : Allowlist) (deadlines : Deadlines) (kind : ActorKind)
    (party : Option (Boxed (Hosted Q)))
    (hunused : ∀ s, party.bind Kamiroh.shadow = some s → ∀ p, s p = .Idle) :
    (rt.installInner name allowlist deadlines kind party).rt.InStep := by
  unfold LocalRuntime.installInner
  split
  · exact h
  · split
    · exact h
    · rename_i inbox net _
      have hnet : InStep { rt with net } := h
      exact hnet.setActor name hunused

omit [Party Q] [Transport N] in
theorem InStep.execute {rt : LocalRuntime (Hosted Q) N Ib} (h : rt.InStep) (command : Harness)
    (controller : Address) : (rt.execute command controller).rt.InStep := by
  cases command with
  | Ping | Spawned _ | Stopped _ | Pong | Failed _ => exact h
  | Spawn name =>
    have hunused : ∀ s : Address → TurnState,
        (some (.echo .new : Boxed (Hosted Q))).bind Kamiroh.shadow = some s → ∀ p, s p = .Idle := by
      rintro s hs p
      cases hs
      rfl
    simp only [LocalRuntime.execute]
    split <;> exact h.installInner name _ _ _ _ hunused
  | Stop name =>
    simp only [LocalRuntime.execute]
    split
    · intro name' actor' hactor'
      by_cases hname : name' = name
      · subst hname
        simp at hactor'
      · simp only [Function.update_of_ne hname] at hactor'
        exact h name' actor' hactor'
    · exact h

omit [Party Q] [Registry N Ib] in
theorem InStep.sendAndReturn {rt : LocalRuntime (Hosted Q) N Ib} (h : rt.InStep)
    (origin target : Address) (message : Message) :
    (rt.sendAndReturn origin target message).rt.InStep := by
  simp only [LocalRuntime.sendAndReturn, send_rt]
  exact h

theorem Delivered.inStep {rt : LocalRuntime (Hosted Q) N Ib} (h : rt.InStep) {name : ActorName}
    {actor : LocalActor (Hosted Q) Ib} (hactor : rt.actors name = some actor) {delivery : Delivery}
    {ran : Ran (Hosted Q) N Ib Outcome} (hran : Delivered rt name actor delivery ran) :
    ran.rt.InStep := by
  have hmatched := h name actor hactor
  rcases hran with ⟨hno⟩ | ⟨hok, request, hm⟩ | ⟨hok, ack, hm⟩ | ⟨hok, harness, hm, hkind⟩ |
    ⟨hok, harness, hm, hkind, reply, hreply⟩ | ⟨hok, harness, hm, hkind, hreply⟩ |
    ⟨hok, turn, hm, ran, hran⟩
  · exact h
  · exact h.sendAndReturn _ _ _
  · refine h.setActor name fun s hs p => ?_
    rw [hmatched s hs p, LocalActor.peer_modify _ _ _ _ rfl]
    split
    · rename_i hp
      rw [hp, PeerState.settleAck_state]
    · rfl
  · exact h.sendAndReturn _ _ _
  · exact (h.execute _ _).sendAndReturn _ _ _
  · exact h.execute _ _
  · cases hs : actor.shadow with
    | some s =>
      obtain ⟨⟨net, actor', hrt, hactor'⟩, -, -⟩ := hran.fair hmatched hs
      have hnet : InStep { rt with net } := h
      simp only [hrt]
      exact hnet.setActor name hactor'
    | none =>
      obtain ⟨net, actor', hrt, hnone⟩ := hran.own hs
      have hnet : InStep { rt with net } := h
      simp only [hrt]
      exact hnet.setActor name fun s' hs' => by cases hnone.symm.trans hs'

theorem inStep_exec {rt : LocalRuntime (Hosted Q) N Ib} (h : rt.InStep) (call : Call (Hosted Q) N)
    (hcall : InstallsUnused call) : (rt.exec call).1.InStep := by
  cases call with
  | Install name allowlist deadlines kind => exact h.installInner _ _ _ _ _ (by simp)
  | InstallParty name allowlist deadlines party => exact h.installInner _ _ _ _ _ hcall
  | Elsewhere net clock => exact h
  | Admit name endpoint =>
    simp only [exec, admitEndpoint]
    split
    · rename_i actor hactor
      exact h.setActor name (h name actor hactor)
    · exact h
  | Revoke name endpoint =>
    simp only [exec, revoke]
    split
    · rename_i actor hactor
      have hmatched : ({ actor with allowlist := actor.allowlist.revoke endpoint } :
          LocalActor (Hosted Q) Ib).Matched := h name actor hactor
      exact h.setActor name (matched_failEach rt name hmatched _ _)
    · exact h
  | Rehash name conversations =>
    simp only [exec, rehash]
    split
    · rename_i actor hactor
      split
      · rename_i hperm
        refine h.setActor name fun s hs p => ?_
        rw [h name actor hactor s hs p]
        simp only [LocalActor.peer, AList.perm_lookup hperm]
      · exact h
    · exact h
  | Step name waited =>
    simp only [exec]
    cases hactor : rt.actors name with
    | none =>
      simp only [step, hactor]
      exact h
    | some actor =>
      have hmatched := h name actor hactor
      have hdid := step_did hactor waited
      generalize rt.step name waited = ran at hdid
      rcases hdid with ⟨_, endpoint, hdead, hlive, _, rfl⟩ | ⟨endpoint, hquiet, _, rfl⟩ |
        ⟨hquiet, peer, kind, due, hdue, _, rfl⟩ | ⟨hquiet, hdue⟩ | ⟨hquiet⟩ |
        ⟨hquiet, delivery, ran, hran⟩
      · exact h.setActor name (matched_failEach rt name hmatched _ _)
      · have hreport : (rt.reportDead endpoint).InStep := h
        exact hreport.setActor name (matched_failEach _ name hmatched _ _)
      · exact h.setActor name (hmatched.failExchange _ _ _)
      · exact h
      · exact h
      · have hheard : (rt.heardFrom delivery.origin.endpoint).InStep := h
        exact hran.inStep hheard hactor

theorem exec_legal {rt : LocalRuntime (Hosted Q) N Ib} (h : rt.InStep) {name : ActorName}
    {actor : LocalActor (Hosted Q) Ib} (hactor : rt.actors name = some actor)
    (hstock : actor.shadow.isSome = true) {call : Call (Hosted Q) N} (hname : call.name = some name) :
    ∀ e ∈ (rt.exec call).2, e.cause ≠ some .IllegalReply := by
  intro e he
  cases call with
  | Install _ allowlist deadlines kind | InstallParty _ allowlist deadlines party =>
    simp [exec, install, installParty] at he
  | Elsewhere net clock => cases hname
  | Admit _ endpoint =>
    simp only [exec, admitEndpoint] at he
    split at he <;> cases he
  | Rehash _ conversations => cases he
  | Revoke _ endpoint =>
    simp only [exec, revoke] at he
    split at he
    · obtain ⟨peer, -, hfailure⟩ := failEach_failure he
      rw [hfailure.cause]
      simp
    · cases he
  | Step _ waited =>
    cases hname
    rcases step_arose hactor he with ⟨_, _, _, _, _, hfailure⟩ | ⟨_, _, _, _, _, hfailure⟩ | ⟨_, _, _, rfl⟩ |
      ⟨_, _, _, _, _, _, rfl⟩ | ⟨_, delivery, _, turn, _, ran, hran, he'⟩
    · rw [hfailure.cause]
      simp
    · rw [hfailure.cause]
      simp
    · simp [Effect.cause]
    · simp [Effect.cause]
    · obtain ⟨s, hs⟩ := Option.isSome_iff_exists.mp hstock
      exact (hran.fair (h name actor hactor) hs).legal e he'

theorem exec_answers {rt : LocalRuntime (Hosted Q) N Ib} (h : rt.InStep) {call : Call (Hosted Q) N}
    {actor : LocalActor (Hosted Q) Ib} {peer : Address} {turn : Turn}
    (htakes : rt.Takes call actor peer turn) (hstock : actor.shadow.isSome = true)
    {progress : TurnProgress} (hin : ((actor.peer peer).state.onIncoming turn).1 = .ok progress)
    {request : Request} (hrequest : turn.request = some request) :
    ∃ self answer accepted, answer.response = some ⟨request.id, request.body⟩ ∧
      .Sent self peer (.Turn answer) accepted ∈ (rt.exec call).2 := by
  obtain ⟨name, target, rfl, hactor, hquiet, hallowed⟩ := htakes
  obtain ⟨s, hs⟩ := Option.isSome_iff_exists.mp hstock
  have hmatched := h name actor hactor
  have htook := takeTurn_tookTurn (rt.heardFrom peer.endpoint) name actor target peer turn
    (turn.request.map fun request => .Ack ⟨request.id⟩)
  obtain ⟨answer, accepted, hanswers, hsent⟩ :=
    (htook.fair hmatched hs).answered progress hin request hrequest
  refine ⟨target, answer, accepted, hanswers, ?_⟩
  simp only [exec, step_delivery rt hactor hquiet, deliver_turn rt name hallowed]
  exact hsent

/-- After every run in which stock parties are installed unused, the shadow machines are the runtime's
own. So the next call judges no reply of a stock party illegal, each turn with a request that it accepts
for one is answered, and what the parties expect of their replies is true. -/
theorem shadows_in_step {rt : LocalRuntime (Hosted Q) N Ib} (hfresh : rt.Fresh)
    (calls : List (Call (Hosted Q) N)) (hcalls : ∀ call ∈ calls, InstallsUnused call)
    {name : ActorName} {actor : LocalActor (Hosted Q) Ib}
    (hactor : (rt.after calls).actors name = some actor) {s : Address → TurnState}
    (hs : actor.shadow = some s) :
    (∀ p, s p = (actor.peer p).state) ∧
      (∀ call, call.name = some name → ∀ e ∈ ((rt.after calls).exec call).2,
        e.cause ≠ some .IllegalReply) ∧
      (∀ call peer turn progress request, (rt.after calls).Takes call actor peer turn →
        ((actor.peer peer).state.onIncoming turn).1 = .ok progress → turn.request = some request →
        ∃ self answer accepted, answer.response = some ⟨request.id, request.body⟩ ∧
          .Sent self peer (.Turn answer) accepted ∈ ((rt.after calls).exec call).2) ∧
      (∀ (party : EchoParty) peer turn verdict, party.expected peer turn = some verdict →
        verdict.isOk = true) ∧
      ∀ (party : CountdownParty) peer turn verdict, party.expected peer turn = some verdict →
        verdict.isOk = true := by
  have hstock : actor.shadow.isSome = true := by rw [hs]; rfl
  have hunused : Run.Along next (fun _ call => InstallsUnused call) rt calls :=
    Run.along_of_mem next (fun _ call hcall => hcalls call hcall) rt
  have hempty : rt.InStep := by
    intro name' actor' hactor'
    rw [hfresh.actors name'] at hactor'
    cases hactor'
  have hin : (rt.after calls).InStep :=
    Run.invariant next (I := InStep) (fun _ call h hcall => inStep_exec h call hcall) rt calls hempty
      hunused
  refine ⟨hin name actor hactor s hs, fun call hname => exec_legal hin hactor hstock hname,
    fun call peer turn progress request htakes hok hrequest =>
      exec_answers hin htakes hstock hok hrequest,
    fun party peer turn verdict => party.expected_legal, fun party peer turn verdict =>
      party.expected_legal⟩

open Sample

/-- Alice opens, and nobody takes the reply of Bob's party. -/
def unanswered : List (Call (Hosted Empty) Shared) :=
  [.InstallParty bob.name (Allowlist.empty.admitEndpoint alice.endpoint) patience
      (.app (.countdown (.new 1))),
    .Step bob.name (opened bob alice 1)]

theorem shadows_in_step_countdown :
    ∃ actor s, ((bobsRuntime (Hosted Empty)).after unanswered).actors bob.name = some actor ∧
      actor.shadow = some s ∧ (actor.peer alice).state = .Failed ∧ s alice = .Failed := by
  obtain ⟨actor, hactor⟩ :
      ∃ actor, ((bobsRuntime (Hosted Empty)).after unanswered).actors bob.name = some actor := ⟨_, rfl⟩
  have hfailed : (((bobsRuntime (Hosted Empty)).after unanswered).actors bob.name).all
      (fun actor => actor.shadow.isSome && (actor.peer alice).state = .Failed) = true := by
    decide +kernel
  rw [hactor, Option.all_some, Bool.and_eq_true, decide_eq_true_eq] at hfailed
  obtain ⟨s, hs⟩ := Option.isSome_iff_exists.mp hfailed.1
  have hunused : ∀ call ∈ unanswered, InstallsUnused call := by
    simp only [unanswered, List.forall_mem_cons]
    refine ⟨fun s hs p => ?_, trivial, fun call hcall => (List.not_mem_nil hcall).elim⟩
    cases hs
    rfl
  obtain ⟨hstates, -⟩ := shadows_in_step (bobsRuntime_fresh _) unanswered hunused hactor hs
  exact ⟨actor, s, hactor, hs, hfailed.2, (hstates alice).trans hfailed.2⟩

end LocalRuntime

end Kamiroh
