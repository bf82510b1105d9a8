import Kamiroh.Mailboxes
import Kamiroh.Runtime.Effects
import Kamiroh.Runtime.Harness
import Kamiroh.Runtime.Polls
import Kamiroh.Runtime.Reports
import Kamiroh.Runtime.Revocations
import Kamiroh.Transcripts

/-!
# What one conversation says and hears

An actor and one peer, followed through a call of the runtime that hosts the actor: the turns that its
party is handed, the turns that the transport takes from it, and what both make of the conversation.
-/

namespace Kamiroh

open TurnState

namespace LocalRuntime

variable {P N Ib : Type}

/-- The conversation of the actor `name` with `peer`, as far as a party hears of it. -/
def converses (rt : LocalRuntime P N Ib) (name : ActorName) (peer : Address) : TurnState :=
  match rt.actors name with
  | some actor => if actor.party.isSome then (actor.peer peer).state else .Idle
  | none => .Idle

/-- The act of the party at `here` in its conversation with `peer` that an effect shows. -/
def overhear (here peer : Address) : Effect → List Transcripts.Act
  | .Handed actor other turn => if actor = here ∧ other = peer then [.Accept .Right turn] else []
  | .Sent origin target (.Turn turn) true =>
    if origin = here ∧ target = peer then [.Send .Right turn] else []
  | _ => []

def overheard (here peer : Address) (effects : List Effect) : List Transcripts.Act :=
  effects.flatMap (overhear here peer)

section

variable {here peer : Address}

@[simp] theorem overheard_nil : overheard here peer [] = [] := rfl

@[simp] theorem overheard_cons (effect : Effect) (effects : List Effect) :
    overheard here peer (effect :: effects) = overhear here peer effect ++ overheard here peer effects := rfl

@[simp] theorem overheard_append (effects effects' : List Effect) :
    overheard here peer (effects ++ effects') =
      overheard here peer effects ++ overheard here peer effects' := List.flatMap_append

theorem overheard_eq_nil {effects : List Effect} (h : ∀ e ∈ effects, overhear here peer e = []) :
    overheard here peer effects = [] := List.flatMap_eq_nil_iff.mpr h

theorem overhear_failure {here' peer' : Address} {cause : FailureCause} {e : Effect}
    (h : Failure here' peer' cause e) : overhear here peer e = [] := by
  cases h <;> rfl

@[simp] theorem overheard_emit (rt : LocalRuntime P N Ib) (event : Event) :
    overheard here peer (rt.emit event) = [] := by
  refine overheard_eq_nil fun e he => ?_
  rw [mem_emit he]
  rfl

section

variable [Party P]

@[simp] theorem overheard_failExchange (rt : LocalRuntime P N Ib) (name : ActorName)
    (actor : LocalActor P Ib) (peer' : Address) (cause : FailureCause) :
    overheard here peer (rt.failExchange name actor peer' cause).effects = [] :=
  overheard_eq_nil fun _ he => overhear_failure (failExchange_failure he)

theorem overheard_handOver {actor : LocalActor P Ib} (turn : Turn) (h : actor.party.isSome = true) :
    overheard here peer (actor.handOver here peer turn).2.2 = [.Accept .Right turn] := by
  obtain ⟨party, hparty⟩ := Option.isSome_iff_exists.mp h
  simp [LocalActor.handOver, hparty, overhear]

theorem handOver_nobody {actor : LocalActor P Ib} (turn : Turn) (h : actor.party.isSome = false) :
    actor.handOver here peer turn = (none, actor, []) := by
  rw [Option.isSome_eq_false_iff, Option.isNone_iff_eq_none] at h
  simp only [LocalActor.handOver, h]

end

variable [Transport N]

theorem overheard_receipt (rt : LocalRuntime P N Ib) (self peer' : Address) (request : Option Request) :
    overheard here peer (rt.receipt self peer' (request.map fun request => .Ack ⟨request.id⟩)).effects = [] := by
  cases request with
  | none => rfl
  | some request =>
    refine overheard_eq_nil fun e he => ?_
    obtain ⟨accepted, rfl⟩ := mem_send he
    rfl

theorem overheard_sent {rt : LocalRuntime P N Ib} {turn : Turn}
    (h : (rt.send here peer (.Turn turn)).result.isOk = true) :
    overheard here peer (rt.send here peer (.Turn turn)).effects = [.Send .Right turn] := by
  rw [send_effects, h]
  simp [overhear]

theorem overheard_refused {rt : LocalRuntime P N Ib} {turn : Turn}
    (h : (rt.send here peer (.Turn turn)).result.isOk = false) :
    overheard here peer (rt.send here peer (.Turn turn)).effects = [] := by
  rw [send_effects, h]
  rfl

end

/-! ## A turn -/

/-- What is overheard of a call that `reached` the actor with a turn, and the conversation after it. -/
inductive Spoke (reached : Turn → Prop) (before : TurnState) : List Transcripts.Act → TurnState → Prop
  | nothing (after : TurnState) (h : after = before ∨ after.live = false) : Spoke reached before [] after
  | heard (turn : Turn) (hreached : reached turn) (progress : TurnProgress)
      (hturn : (before.onIncoming turn).1 = .ok progress) (after : TurnState)
      (h : after = afterTurn .OweThem turn ∨ after.live = false) :
      Spoke reached before [.Accept .Right turn] after
  | answered (turn : Turn) (hreached : reached turn) (progress : TurnProgress)
      (hturn : (before.onIncoming turn).1 = .ok progress) (reply : Turn) (progress' : TurnProgress)
      (hreply : ((afterTurn .OweThem turn).onOutgoing reply).1 = .ok progress') :
      Spoke reached before [.Accept .Right turn, .Send .Right reply] (afterTurn .AwaitingTheirTurn reply)

theorem Spoke.imp {reached reached' : Turn → Prop} {before after : TurnState} {log : List Transcripts.Act}
    (h : Spoke reached before log after) (himp : ∀ turn, reached turn → reached' turn) :
    Spoke reached' before log after := by
  rcases h with ⟨_, h⟩ | ⟨turn, hreached, progress, hin, _, h⟩ |
    ⟨turn, hreached, progress, hin, reply, progress', hout⟩
  · exact .nothing _ h
  · exact .heard turn (himp turn hreached) progress hin _ h
  · exact .answered turn (himp turn hreached) progress hin reply progress' hout

theorem converses_setActor (rt : LocalRuntime P N Ib) (name : ActorName) (actor : LocalActor P Ib)
    (peer : Address) :
    (rt.setActor name actor).converses name peer =
      if actor.party.isSome then (actor.peer peer).state else .Idle := by
  simp only [converses, setActor_self]

section

variable [Party P] [Transport N]

theorem Answered.spoke {rt : LocalRuntime P N Ib} {name : ActorName} {actor : LocalActor P Ib}
    {peer : Address} {reply : Turn} {ran : Ran P N Ib Stepped}
    (h : Answered rt name actor (rt.address name) peer reply ran) (hparty : actor.party.isSome = true) :
    (overheard (rt.address name) peer ran.effects = [] ∧ (ran.rt.converses name peer).live = false) ∨
      ∃ progress, ((actor.peer peer).state.onOutgoing reply).1 = .ok progress ∧
        overheard (rt.address name) peer ran.effects = [.Send .Right reply] ∧
        ran.rt.converses name peer = afterTurn .AwaitingTheirTurn reply := by
  -- The exchange that a failure leaves behind is over.
  have hfailed : ∀ (rt' : LocalRuntime P N Ib) (taken : LocalActor P Ib) (cause : FailureCause),
      ((rt'.failExchange name taken peer cause).rt.converses name peer).live = false := by
    intro rt' taken cause
    rw [failExchange, converses_setActor, LocalActor.failExchange_peer, if_pos rfl]
    split
    · exact fail_not_live _
    · rfl
  rcases h with ⟨error, hout, _, rfl⟩ | ⟨progress, hout, _, rfl, hrefused, _, rfl⟩ |
    ⟨progress, hout, _, rfl, haccepted⟩
  · refine Or.inl ⟨?_, hfailed ..⟩
    rw [overheard_cons, overheard_failExchange]
    rfl
  · refine Or.inl ⟨?_, hfailed ..⟩
    rw [List.cons_append, overheard_cons, overheard_append, overheard_refused hrefused,
      overheard_failExchange]
    rfl
  · refine Or.inr ⟨progress, hout, ?_, ?_⟩
    · rw [overheard_cons, overheard_sent haccepted]
      rfl
    · have harmed : (rt.arm actor peer reply progress).party.isSome = true := hparty
      rw [converses_setActor, if_pos harmed, arm, LocalActor.peer_setPeer_self]
      rfl

theorem TookTurn.spoke {rt : LocalRuntime P N Ib} {name : ActorName} {actor : LocalActor P Ib}
    (hactor : rt.actors name = some actor) {peer : Address} {turn : Turn} {ran : Ran P N Ib Stepped}
    (h : TookTurn rt name actor (rt.address name) peer turn
      (turn.request.map fun request => .Ack ⟨request.id⟩) ran) :
    Spoke (· = turn) (rt.converses name peer) (overheard (rt.address name) peer ran.effects)
      (ran.rt.converses name peer) := by
  have hbefore : rt.converses name peer = if actor.party.isSome then (actor.peer peer).state else .Idle := by
    simp only [converses, hactor]
  have hillegal : ∀ error, Spoke (· = turn) (rt.converses name peer)
      (overheard (rt.address name) peer (.Moved (rt.address name) peer (actor.peer peer).state
        (actor.peer peer).state :: rt.emit (.IllegalTurnDropped peer (rt.address name) error)))
      ((rt.setActor name (actor.setPeer peer (actor.peer peer))).converses name peer) := by
    intro error
    rw [overheard_cons, overheard_emit, converses_setActor, LocalActor.peer_setPeer_self]
    exact .nothing _ (Or.inl hbefore.symm)
  cases hparty : actor.party.isSome with
  | false =>
    have hnobody : (hear actor peer turn).handOver (rt.address name) peer turn =
        (none, hear actor peer turn, []) := handOver_nobody turn hparty
    rcases h with ⟨error, hin⟩ | ⟨progress, hin, taken, effects, hsilent⟩ |
      ⟨progress, hin, reply, taken, effects, hreply, ran, hran⟩
    · exact hillegal error
    · rw [hnobody] at hsilent
      cases hsilent
      have hnone : (hear actor peer turn).party.isSome = false := hparty
      rw [List.append_nil, overheard_cons, overheard_receipt, converses_setActor, hnone]
      exact .nothing _ (Or.inr rfl)
    · rw [hnobody] at hreply
      cases hreply
  | true =>
    rw [hparty, if_pos rfl] at hbefore
    have hhanded : overheard (rt.address name) peer
        ((hear actor peer turn).handOver (rt.address name) peer turn).2.2 = [.Accept .Right turn] :=
      overheard_handOver turn hparty
    rcases h with ⟨error, hin⟩ | ⟨progress, hin, taken, effects, hsilent⟩ |
      ⟨progress, hin, reply, taken, effects, hreply, ran, hran⟩
    · exact hillegal error
    · obtain ⟨hretook, hpeer, -⟩ := retook_of_handOver hsilent
      rw [hsilent] at hhanded
      rw [List.cons_append, overheard_cons, overheard_append, overheard_receipt, hhanded, converses_setActor,
        hretook.party, hparty, if_pos rfl, hpeer]
      rw [← hbefore] at hin
      exact @Spoke.heard (· = turn) _ turn rfl progress hin _ (Or.inl rfl)
    · obtain ⟨hretook, hpeer, -⟩ := retook_of_handOver hreply
      rw [hreply] at hhanded
      rw [receipt_rt] at hran
      rw [← hbefore] at hin
      have htaken : taken.party.isSome = true := hretook.party.trans hparty
      rw [List.cons_append, List.cons_append, overheard_cons, overheard_append, overheard_append,
        overheard_receipt, hhanded]
      rcases hran.spoke htaken with ⟨hnothing, hover⟩ | ⟨progress', hout, hsaid, hafter⟩
      · have hquiet : overheard (rt.address name) peer ran.effects = [] := hnothing
        rw [hquiet]
        exact @Spoke.heard (· = turn) _ turn rfl progress hin _ (Or.inr hover)
      · have hloud : overheard (rt.address name) peer ran.effects = [.Send .Right reply] := hsaid
        rw [hloud, hafter]
        rw [hpeer] at hout
        exact @Spoke.answered (· = turn) _ turn rfl progress hin reply progress' hout

end

/-! ## Who has a party -/

/-- The actor is a new one, or it has a party if it had one before. -/
def Partied (rt : LocalRuntime P N Ib) (name : ActorName) (actor' : LocalActor P Ib) : Prop :=
  actor'.conversations = ∅ ∨ ∃ actor, rt.actors name = some actor ∧ actor'.party.isSome = actor.party.isSome

section

variable {rt rt' : LocalRuntime P N Ib} {name : ActorName} {actor' : LocalActor P Ib}

theorem partied_same (hrt : rt'.actors = rt.actors) (h : rt'.actors name = some actor') :
    Partied rt name actor' := Or.inr ⟨actor', hrt ▸ h, rfl⟩

theorem partied_setActor (hrt : rt'.actors = rt.actors) {own : ActorName} {taken : LocalActor P Ib}
    (htaken : Partied rt own taken) (h : (rt'.setActor own taken).actors name = some actor') :
    Partied rt name actor' := by
  by_cases hname : name = own
  · subst hname
    rw [setActor_self, Option.some.injEq] at h
    rwa [← h]
  · rw [setActor_of_ne rt' taken hname] at h
    exact partied_same hrt h

variable [Registry N Ib]

theorem partied_installInner (hrt : rt'.actors = rt.actors) (own : ActorName) (allowlist : Allowlist)
    (deadlines : Deadlines) (kind : ActorKind) (party : Option (Boxed P))
    (h : (rt'.installInner own allowlist deadlines kind party).rt.actors name = some actor') :
    Partied rt name actor' := by
  rcases rt'.installInner_cases own allowlist deadlines kind party with
    ⟨error, net, hinstalled⟩ | ⟨inbox, net, hfree, hbind, hinstalled⟩
  · rw [hinstalled] at h
    exact partied_same hrt h
  · rw [hinstalled] at h
    have hnet : ({ rt' with net } : LocalRuntime P N Ib).actors = rt.actors := hrt
    exact partied_setActor hnet (Or.inl rfl) h

theorem partied_execute (hrt : rt'.actors = rt.actors) (command : Harness) (controller : Address)
    (h : (rt'.execute command controller).rt.actors name = some actor') : Partied rt name actor' := by
  cases hcommand : opens (.Harness command) with
  | false =>
    rw [rt'.execute_ignored hcommand controller] at h
    exact partied_same hrt h
  | true =>
    obtain ⟨reply, -, hexecuted⟩ := rt'.execute_executed hcommand controller
    generalize (rt'.execute command controller).rt = rt'' at h hexecuted
    rcases hexecuted with _ | ⟨own, hfree, inbox, net, hbind⟩ | ⟨own, error, net⟩ |
      ⟨own, actor, hactor⟩ | _
    · exact partied_same hrt h
    · have hnet : ({ rt' with net } : LocalRuntime P N Ib).actors = rt.actors := hrt
      exact partied_setActor hnet (Or.inl rfl) h
    · exact partied_same hrt h
    · by_cases hname : name = own
      · subst hname
        simp at h
      · simp only [Function.update_of_ne hname] at h
        exact partied_same hrt h
    · exact partied_same hrt h

variable [Party P] [Transport N]

omit [Transport N] [Registry N Ib] in
theorem partied_failEach {own : ActorName} {actor listed : LocalActor P Ib} (hactor : rt.actors own = some actor)
    (hlisted : listed.party = actor.party) (cause : FailureCause) (peers : List Address) :
    Partied rt own (rt'.failEach own listed cause peers).1 :=
  Or.inr ⟨actor, hactor, by rw [failEach_party, Option.isSome_map, hlisted]⟩

theorem partied_delivered {own : ActorName} {actor : LocalActor P Ib} (hrt : rt'.actors = rt.actors)
    (hactor : rt.actors own = some actor) {delivery : Delivery} {ran : Ran P N Ib Outcome}
    (hran : Delivered rt' own actor delivery ran) (h : ran.rt.actors name = some actor') :
    Partied rt name actor' := by
  rcases hran with ⟨hno⟩ | ⟨hok, request, hm⟩ | ⟨hok, ack, hm⟩ | ⟨hok, harness, hm, hkind⟩ |
    ⟨hok, harness, hm, hkind, reply, hreply⟩ | ⟨hok, harness, hm, hkind, hreply⟩ |
    ⟨hok, turn, hm, ran, hran⟩
  · exact partied_same hrt h
  · simp only [sendAndReturn, send_rt] at h
    exact partied_same hrt h
  · have htaken : Partied rt own { actor with
        conversations := actor.conversations.modify delivery.origin fun ps => ps.settleAck ack.id } :=
      Or.inr ⟨actor, hactor, rfl⟩
    exact partied_setActor hrt htaken h
  · simp only [sendAndReturn, send_rt] at h
    exact partied_same hrt h
  · simp only [sendAndReturn, send_rt] at h
    exact partied_execute hrt harness delivery.origin h
  · exact partied_execute hrt harness delivery.origin h
  · obtain ⟨net, taken, htook, hretook, -⟩ := hran.retook
    simp only [htook] at h
    have hnet : ({ rt' with net } : LocalRuntime P N Ib).actors = rt.actors := hrt
    exact partied_setActor hnet (Or.inr ⟨actor, hactor, hretook.party⟩) h

theorem partied_step {own : ActorName} {waited : Waited} (h : (rt.step own waited).rt.actors name = some actor') :
    Partied rt name actor' := by
  cases hactor : rt.actors own with
  | none =>
    simp only [step, hactor] at h
    exact partied_same rfl h
  | some actor =>
    have hdid := step_did hactor waited
    generalize rt.step own waited = ran at hdid h
    rcases hdid with ⟨_, endpoint, hdead, hlive, _, rfl⟩ | ⟨endpoint, hquiet, _, rfl⟩ |
      ⟨hquiet, peer, kind, due, hdue, _, rfl⟩ | ⟨hquiet, hdue⟩ | ⟨hquiet⟩ |
      ⟨hquiet, delivery, ran, hran⟩
    · exact partied_setActor rfl (partied_failEach hactor rfl _ _) h
    · exact partied_setActor rfl (partied_failEach hactor rfl _ _) h
    · have hfailed : Partied rt own (actor.failExchange (rt.address own) peer (.DeadlineElapsed kind)).1 :=
        Or.inr ⟨actor, hactor, LocalActor.failExchange_party_isSome ..⟩
      exact partied_setActor rfl hfailed h
    · exact partied_same rfl h
    · exact partied_same rfl h
    · have hheard : (rt.heardFrom delivery.origin.endpoint).actors = rt.actors := rfl
      exact partied_delivered hheard hactor hran h

theorem partied_exec {call : Call P N} (h : (rt.exec call).1.actors name = some actor') :
    Partied rt name actor' := by
  cases call with
  | Install own allowlist deadlines kind => exact partied_installInner rfl _ _ _ _ _ h
  | InstallParty own allowlist deadlines party => exact partied_installInner rfl _ _ _ _ _ h
  | Step own waited => exact partied_step h
  | Elsewhere net clock => exact partied_same rfl h
  | Admit own endpoint =>
    simp only [exec, admitEndpoint] at h
    split at h
    · rename_i actor hactor
      have hlisted : Partied rt own { actor with allowlist := actor.allowlist.admitEndpoint endpoint } :=
        Or.inr ⟨actor, hactor, rfl⟩
      exact partied_setActor rfl hlisted h
    · exact partied_same rfl h
  | Revoke own endpoint =>
    simp only [exec, revoke] at h
    split at h
    · rename_i actor hactor
      let listed : LocalActor P Ib := { actor with allowlist := actor.allowlist.revoke endpoint }
      have hlisted : listed.party = actor.party := rfl
      exact partied_setActor rfl (partied_failEach hactor hlisted _ _) h
    · exact partied_same rfl h
  | Rehash own conversations =>
    simp only [exec, rehash] at h
    split at h
    · rename_i actor hactor
      split at h
      · have hlisted : Partied rt own { actor with conversations } := Or.inr ⟨actor, hactor, rfl⟩
        exact partied_setActor rfl hlisted h
      · exact partied_same rfl h
    · exact partied_same rfl h

end

/-! ## A call -/

/-- A delivery that an actor takes is addressed to that actor. -/
def Aimed (rt : LocalRuntime P N Ib) (call : Call P N) : Prop :=
  ∀ own delivery, call = .Step own (.Delivery (some delivery)) → delivery.target = rt.address own

section

variable [Party P] [Transport N] [Registry N Ib] {rt : LocalRuntime P N Ib} {call : Call P N}
  {name : ActorName} {peer : Address}

theorem converses_unreached (hunreached : ∀ turn, ¬ rt.Reaches call name peer (.Turn turn)) :
    (rt.exec call).1.converses name peer = rt.converses name peer ∨
      ((rt.exec call).1.converses name peer).live = false := by
  cases hafter : (rt.exec call).1.actors name with
  | none =>
    right
    simp only [converses, hafter]
    rfl
  | some actor' =>
    rcases partied_exec hafter with hnew | ⟨actor, hactor, hparty⟩
    · right
      have hdefault : actor'.peer peer = default := by rw [LocalActor.peer, hnew]; rfl
      simp only [converses, hafter, hdefault]
      split <;> rfl
    · simp only [converses, hafter, hactor, hparty]
      split
      · rcases exec_became hafter peer with hfresh | ⟨_, hactor', -, -, hkept⟩ | ⟨_, hactor', hfailed⟩ |
          ⟨_, hactor', -, ack, -, hsettled⟩ |
          ⟨_, hactor', target, turn, hcall, hquiet, hadmitted, ran, hran, -, -⟩
        · exact Or.inr (by rw [hfresh]; rfl)
        · cases hactor.symm.trans hactor'
          exact Or.inl (by rw [hkept])
        · exact Or.inr (by rw [hfailed]; exact fail_not_live _)
        · cases hactor.symm.trans hactor'
          exact Or.inl (by rw [hsettled, PeerState.settleAck_state])
        · exact absurd ⟨_, target, hcall, hactor', hquiet, hadmitted⟩ (hunreached turn)
      · exact Or.inl rfl

omit [Party P] [Transport N] [Registry N Ib] in
theorem overhear_turned {own : ActorName} {origin : Address} {e : Effect}
    (h : Turned (rt.address own) (rt.address own) origin e) (hother : own ≠ name ∨ origin ≠ peer) :
    overhear (rt.address name) peer e = [] := by
  have hne : ¬ (rt.address own = rt.address name ∧ origin = peer) := by
    rintro ⟨howner, horigin⟩
    simp only [address, Address.mk.injEq, true_and] at howner
    rcases hother with hown | hpeer
    · exact hown howner
    · exact hpeer horigin
  rcases h with _ | _ | ⟨message, accepted⟩ | _ | ⟨_, _, _, hfailure⟩
  · rfl
  · rfl
  · unfold overhear
    split
    · rename_i heq
      cases heq
    · rename_i heq
      cases heq
      rw [if_neg hne]
    · rfl
  · simp only [overhear, if_neg hne]
  · exact overhear_failure hfailure

theorem exec_arose {e : Effect} (he : e ∈ (rt.exec call).2) :
    (∃ here peer cause, Failure here peer cause e) ∨
      ∃ own waited actor, call = .Step own waited ∧ rt.actors own = some actor ∧ Arose rt own actor e waited := by
  cases call with
  | Install own allowlist deadlines kind =>
    have hnil : e ∈ ([] : List Effect) := installInner_effects rt own allowlist deadlines kind none ▸ he
    cases hnil
  | InstallParty own allowlist deadlines party =>
    have hnil : e ∈ ([] : List Effect) :=
      installInner_effects rt own allowlist deadlines .Plain (some party) ▸ he
    cases hnil
  | Elsewhere net clock => cases he
  | Rehash own conversations => cases he
  | Admit own endpoint =>
    simp only [exec, admitEndpoint] at he
    split at he <;> cases he
  | Revoke own endpoint =>
    simp only [exec, revoke] at he
    split at he
    · obtain ⟨peer, -, hfailure⟩ := failEach_failure he
      exact Or.inl ⟨_, peer, _, hfailure⟩
    · cases he
  | Step own waited =>
    cases hactor : rt.actors own with
    | none =>
      simp only [exec, step, hactor] at he
      cases he
    | some actor => exact Or.inr ⟨own, waited, actor, rfl, hactor, step_arose hactor he⟩

theorem overheard_unreached (haimed : rt.Aimed call)
    (hunreached : ∀ turn, ¬ rt.Reaches call name peer (.Turn turn)) :
    overheard (rt.address name) peer (rt.exec call).2 = [] := by
  refine overheard_eq_nil fun e he => ?_
  rcases exec_arose he with ⟨_, _, _, hfailure⟩ | ⟨own, waited, actor, rfl, hactor, harose⟩
  · exact overhear_failure hfailure
  · rcases harose with ⟨_, _, _, _, _, hfailure⟩ | ⟨_, _, _, _, _, hfailure⟩ |
      ⟨_, _, _, rfl⟩ | ⟨_, _, _, message, hmessage, accepted, rfl⟩ |
      ⟨hquiet, delivery, hok, turn, hturn, ran, hran, hmem⟩
    · exact overhear_failure hfailure
    · exact overhear_failure hfailure
    · rfl
    · unfold overhear
      split
      · rename_i heq
        cases heq
      · rename_i heq
        cases heq
        exact absurd rfl (hmessage _)
      · rfl
    · have htarget := haimed own delivery rfl
      have hturned := hran.turned hmem
      rw [htarget] at hturned
      refine overhear_turned hturned ?_
      -- It would be a turn of the peer to the actor itself.
      by_contra hboth
      rw [not_or, not_not, not_not] at hboth
      obtain ⟨rfl, rfl⟩ := hboth
      obtain ⟨origin, target, message⟩ := delivery
      cases hturn
      exact hunreached turn ⟨actor, target, rfl, hactor, hquiet, hok⟩

theorem sent_from_here (haimed : rt.Aimed call) {origin target : Address} {message : Message} {accepted : Bool}
    (he : .Sent origin target message accepted ∈ (rt.exec call).2) : origin.endpoint = rt.endpoint := by
  rcases exec_arose he with ⟨_, _, _, hfailure⟩ | ⟨own, waited, actor, rfl, hactor, harose⟩
  · cases hfailure
  · rcases harose with ⟨_, _, _, _, _, hfailure⟩ | ⟨_, _, _, _, _, hfailure⟩ |
      ⟨_, _, _, heq⟩ | ⟨_, delivery, _, message, _, accepted, heq⟩ |
      ⟨_, delivery, _, turn, _, ran, hran, hmem⟩
    · cases hfailure
    · cases hfailure
    · cases heq
    · cases heq
      rw [haimed own delivery rfl]
      rfl
    · rcases hran.turned hmem with _ | _ | _ | _ | ⟨_, _, _, hfailure⟩
      · rw [haimed own delivery rfl]
        rfl
      · cases hfailure

omit [Party P] [Transport N] [Registry N Ib] in
theorem mem_overheard {here : Address} {turn : Turn} {effects : List Effect}
    (h : .Sent here peer (.Turn turn) true ∈ effects) : .Send .Right turn ∈ overheard here peer effects := by
  refine List.mem_flatMap.mpr ⟨_, h, ?_⟩
  simp [overhear]

/-- Every call: what is overheard of it is what became of the conversation. -/
theorem exec_spoke (haimed : rt.Aimed call) :
    Spoke (fun turn => call = .Step name (.Delivery (some ⟨peer, rt.address name, .Turn turn⟩)))
      (rt.converses name peer) (overheard (rt.address name) peer (rt.exec call).2)
      ((rt.exec call).1.converses name peer) := by
  by_cases hreached : ∃ turn, rt.Reaches call name peer (.Turn turn)
  · obtain ⟨turn, actor, target, rfl, hactor, hquiet, hok⟩ := hreached
    have htarget : target = rt.address name := haimed name _ rfl
    subst htarget
    have htook := takeTurn_tookTurn (rt.heardFrom peer.endpoint) name actor (rt.address name) peer turn
      (turn.request.map fun request => .Ack ⟨request.id⟩)
    have hheard : (rt.heardFrom peer.endpoint).actors name = some actor := hactor
    have hspoke := TookTurn.spoke hheard htook
    have hstep := step_delivery rt hactor hquiet ⟨peer, rt.address name, .Turn turn⟩
    rw [deliver_turn rt name hok] at hstep
    simp only [exec, hstep]
    refine hspoke.imp fun heard hheard => ?_
    rw [hheard]
  · have hunreached : ∀ turn, ¬ rt.Reaches call name peer (.Turn turn) := fun turn h => hreached ⟨turn, h⟩
    rw [overheard_unreached haimed hunreached]
    exact .nothing _ (converses_unreached hunreached)

end

/-! ## The in-process network -/

/-- What `net'` carries, `net` carried before, or an effect shows that the transport took it. -/
def Brought (net net' : Shared) (effects : List Effect) : Prop :=
  ∀ delivery, net'.Carries delivery → net.Carries delivery ∨
    .Sent delivery.origin delivery.target delivery.message true ∈ effects

section

variable {net net' net'' : Shared} {effects effects' : List Effect}

theorem Brought.refl : Brought net net effects := fun _ h => Or.inl h

theorem Brought.imp (h : Brought net net' effects) (hsub : effects ⊆ effects') : Brought net net' effects' :=
  fun delivery hcarries => (h delivery hcarries).imp_right fun hsent => hsub hsent

theorem Brought.trans (h : Brought net net' effects) (h' : Brought net' net'' effects) :
    Brought net net'' effects := by
  intro delivery hcarries
  rcases h' delivery hcarries with hbefore | hsent
  · exact h delivery hbefore
  · exact Or.inr hsent

theorem brought_run {op : Shared.Op} (hop : op.brings = []) (net : Shared) (effects : List Effect) :
    Brought net (net.run op) effects := fun _ hcarries => Or.inl (Shared.carries_of_silent hop hcarries)

theorem brought_send (rt : LocalRuntime P Shared MemoryInbox) (origin target : Address) (message : Message) :
    Brought rt.net (rt.send origin target message).rt.net (rt.send origin target message).effects := by
  intro delivery hcarries
  have hsent : (rt.send origin target message).rt.net = rt.net.run (.Send origin target message) := by
    rw [send_rt]
    rfl
  have hresult : (rt.send origin target message).result.isOk =
      (rt.net.send origin target message).1.isOk := by
    unfold send
    simp only [Transport.send]
    rcases rt.net.send origin target message with ⟨_ | _, _⟩ <;> rfl
  cases hok : (rt.net.send origin target message).1 with
  | error error =>
    rw [hsent, Shared.run, Shared.send_refused hok] at hcarries
    exact Or.inl hcarries
  | ok =>
    rw [hsent] at hcarries
    refine (Shared.carries_run hcarries).imp_right fun hbrought => ?_
    rw [List.mem_singleton.mp hbrought, send_effects, hresult, hok]
    exact List.mem_singleton_self _

theorem brought_sendAndReturn (rt : LocalRuntime P Shared MemoryInbox) (origin target : Address)
    (message : Message) :
    Brought rt.net (rt.sendAndReturn origin target message).rt.net
      (rt.sendAndReturn origin target message).effects := brought_send rt origin target message

theorem brought_receipt (rt : LocalRuntime P Shared MemoryInbox) (self peer : Address) (ack : Option Message) :
    Brought rt.net (rt.receipt self peer ack).rt.net (rt.receipt self peer ack).effects := by
  cases ack with
  | none => exact .refl
  | some ack => exact brought_send rt self peer ack

theorem brought_installInner (rt : LocalRuntime P Shared MemoryInbox) (name : ActorName) (allowlist : Allowlist)
    (deadlines : Deadlines) (kind : ActorKind) (party : Option (Boxed P)) (effects : List Effect) :
    Brought rt.net (rt.installInner name allowlist deadlines kind party).rt.net effects := by
  refine installInner_net (Q := fun net => Brought rt.net net effects) ?_ name allowlist deadlines kind party
    .refl
  intro net address h
  have hop : (Shared.Op.Register address).brings = [] := rfl
  exact h.trans (brought_run hop net effects)

theorem brought_execute (rt : LocalRuntime P Shared MemoryInbox) (command : Harness) (controller : Address)
    (effects : List Effect) : Brought rt.net (rt.execute command controller).rt.net effects := by
  refine execute_net (Q := fun net => Brought rt.net net effects) ?_ ?_ command controller .refl
  · intro net address h
    have hop : (Shared.Op.Register address).brings = [] := rfl
    exact h.trans (brought_run hop net effects)
  · intro net inbox h
    have hop : (Shared.Op.Drop inbox).brings = [] := rfl
    exact h.trans (brought_run hop net effects)

variable [Party P]

theorem Answered.brought {rt : LocalRuntime P Shared MemoryInbox} {name : ActorName}
    {actor : LocalActor P MemoryInbox} {self peer : Address} {reply : Turn}
    {ran : Ran P Shared MemoryInbox Stepped} (h : Answered rt name actor self peer reply ran) :
    Brought rt.net ran.rt.net ran.effects := by
  have hsent := brought_send rt self peer (.Turn reply)
  rcases h with ⟨error, hout, _, rfl⟩ | ⟨progress, hout, _, rfl, hrefused, _, rfl⟩ |
    ⟨progress, hout, _, rfl, haccepted⟩
  · exact .refl
  · refine hsent.imp fun e he => ?_
    exact List.mem_append_left _ (List.mem_cons_of_mem _ he)
  · exact hsent.imp fun e he => List.mem_cons_of_mem _ he

theorem TookTurn.brought {rt : LocalRuntime P Shared MemoryInbox} {name : ActorName}
    {actor : LocalActor P MemoryInbox} {self peer : Address} {turn : Turn} {ack : Option Message}
    {ran : Ran P Shared MemoryInbox Stepped} (h : TookTurn rt name actor self peer turn ack ran) :
    Brought rt.net ran.rt.net ran.effects := by
  have hacked := brought_receipt rt self peer ack
  rcases h with ⟨error, hin⟩ | ⟨progress, hin, taken, effects, hsilent⟩ |
    ⟨progress, hin, reply, taken, effects, hreply, ran, hran⟩
  · exact .refl
  · refine hacked.imp fun e he => ?_
    exact List.mem_append_left _ (List.mem_cons_of_mem _ he)
  · refine (hacked.imp fun e he => ?_).trans (hran.brought.imp fun e he => ?_)
    · exact List.mem_append_left _ (List.mem_append_left _ (List.mem_cons_of_mem _ he))
    · exact List.mem_append_right _ he

theorem Delivered.brought {rt : LocalRuntime P Shared MemoryInbox} {name : ActorName}
    {actor : LocalActor P MemoryInbox} {delivery : Delivery} {ran : Ran P Shared MemoryInbox Outcome}
    (h : Delivered rt name actor delivery ran) : Brought rt.net ran.rt.net ran.effects := by
  rcases h with ⟨hno⟩ | ⟨hok, request, hm⟩ | ⟨hok, ack, hm⟩ | ⟨hok, harness, hm, hkind⟩ |
    ⟨hok, harness, hm, hkind, reply, hreply⟩ | ⟨hok, harness, hm, hkind, hreply⟩ |
    ⟨hok, turn, hm, ran, hran⟩
  · exact .refl
  · exact brought_sendAndReturn _ _ _ _
  · exact .refl
  · exact brought_sendAndReturn _ _ _ _
  · exact (brought_execute rt harness delivery.origin _).trans (brought_sendAndReturn _ _ _ _)
  · exact brought_execute _ _ _ _
  · exact hran.brought

theorem brought_step (rt : LocalRuntime P Shared MemoryInbox) (name : ActorName) (waited : Waited) :
    Brought rt.net (rt.step name waited).rt.net (rt.step name waited).effects := by
  cases hactor : rt.actors name with
  | none =>
    simp only [step, hactor]
    exact .refl
  | some actor =>
    have hdid := step_did hactor waited
    generalize rt.step name waited = ran at hdid
    rcases hdid with ⟨_, _, _, _, _, rfl⟩ | ⟨_, _, _, rfl⟩ | ⟨_, _, _, _, _, _, rfl⟩ | _ | _ |
      ⟨_, delivery, ran, hran⟩
    iterate 5 exact .refl
    exact hran.brought

theorem brought_exec (rt : LocalRuntime P Shared MemoryInbox) {call : Call P Shared}
    (hcall : ∀ net clock, call ≠ .Elsewhere net clock) :
    Brought rt.net (rt.exec call).1.net (rt.exec call).2 := by
  cases call with
  | Install name allowlist deadlines kind => exact brought_installInner _ _ _ _ _ _ _
  | InstallParty name allowlist deadlines party => exact brought_installInner _ _ _ _ _ _ _
  | Step name waited => exact brought_step rt name waited
  | Elsewhere net clock => exact absurd rfl (hcall net clock)
  | Admit name endpoint =>
    simp only [exec, admitEndpoint]
    split <;> exact .refl
  | Revoke name endpoint =>
    simp only [exec, revoke]
    split <;> exact .refl
  | Rehash name conversations =>
    simp only [exec, rehash]
    split
    · split <;> exact .refl
    · exact .refl

theorem sorted_exec {rt : LocalRuntime P Shared MemoryInbox} (h : rt.net.Sorted) {call : Call P Shared}
    (hcall : ∀ net clock, call ≠ .Elsewhere net clock) : (rt.exec call).1.net.Sorted := by
  have hbind : ∀ (net : Shared) (address : Address), net.Sorted →
      Shared.Sorted (Registry.bind net address : Except String MemoryInbox × Shared).2 :=
    fun net address hsorted => hsorted.run (.Register address)
  cases call with
  | Install name allowlist deadlines kind => exact installInner_net hbind name allowlist deadlines kind none h
  | InstallParty name allowlist deadlines party =>
    exact installInner_net hbind name allowlist deadlines .Plain (some party) h
  | Step name waited =>
    exact step_net (fun net origin target message hsorted => hsorted.run (.Send origin target message)) hbind
      (fun net inbox hsorted => hsorted.run (.Drop inbox)) name waited h
  | Elsewhere net clock => exact absurd rfl (hcall net clock)
  | Admit name endpoint =>
    simp only [exec, admitEndpoint]
    split <;> exact h
  | Revoke name endpoint =>
    simp only [exec, revoke]
    split <;> exact h
  | Rehash name conversations =>
    simp only [exec, rehash]
    split
    · split <;> exact h
    · exact h

/-- What a race does to the network: it may take something out of it. -/
structure Drew (net net' : Shared) (inbox : MemoryInbox) (waited : Poll Waited) : Prop where
  carries : ∀ delivery, net'.Carries delivery → net.Carries delivery
  sorted : net.Sorted → net'.Sorted
  lies : ∀ delivery, waited = .Ready (.Delivery (some delivery)) → net.Lies inbox.address delivery

omit [Party P] in
theorem nextOrDeadline_drew (net : Shared) (inbox : MemoryInbox) (due : Option Instant) (now : Instant)
    (waker : Waker) :
    Drew net (nextOrDeadline net inbox due now waker).2 inbox (nextOrDeadline net inbox due now waker).1 := by
  unfold nextOrDeadline
  split
  · exact ⟨fun _ h => h, id, by simp⟩
  · have hcarries : ∀ delivery, (net.pollNext inbox waker).2.Carries delivery → net.Carries delivery := by
      intro delivery h
      have hop : (Shared.Op.PollNext inbox waker).brings = [] := rfl
      exact Shared.carries_of_silent hop h
    have hsorted : net.Sorted → (net.pollNext inbox waker).2.Sorted := fun h => h.run (.PollNext inbox waker)
    have hlies : ∀ delivery, (net.pollNext inbox waker).1 = .Ready (some delivery) →
        net.Lies inbox.address delivery := fun _ h => Shared.lies_of_polled h
    simp only [Inbox.next]
    generalize net.pollNext inbox waker = polled at hcarries hsorted hlies
    obtain ⟨_ | _, net'⟩ := polled
    · exact ⟨hcarries, hsorted, fun delivery h => hlies delivery (by cases h; rfl)⟩
    · exact ⟨hcarries, hsorted, by simp⟩

omit [Party P] in
theorem race_drew (net : Shared) (inbox : MemoryInbox) (due : Option Instant) (now : Instant)
    (watch : Option WatchId) (waker : Waker) :
    Drew net (nextOrDeadlineOrDeath net inbox due now watch waker).2.1 inbox
      (nextOrDeadlineOrDeath net inbox due now watch waker).1 := by
  cases watch with
  | none => exact nextOrDeadline_drew net inbox due now waker
  | some watch =>
    have hop : (Shared.Op.PollDeath watch waker).brings = [] := rfl
    have hcarries : ∀ delivery, (net.pollDeath watch waker).2.Carries delivery → net.Carries delivery :=
      fun delivery h => Shared.carries_of_silent hop h
    have hsorted : net.Sorted → (net.pollDeath watch waker).2.Sorted := fun h => h.run (.PollDeath watch waker)
    have hlies : ∀ address delivery, (net.pollDeath watch waker).2.Lies address delivery →
        net.Lies address delivery :=
      fun address delivery h => Shared.lies_of_lookup (by rw [Shared.pollDeath_mailboxes]) h
    simp only [nextOrDeadlineOrDeath, DeathWatch.nextDeath]
    generalize net.pollDeath watch waker = polled at hcarries hsorted hlies
    obtain ⟨(_ | _) | _, net'⟩ := polled
    · have hrest := nextOrDeadline_drew net' inbox due now waker
      exact ⟨fun _ h => hcarries _ (hrest.carries _ h), fun h => hrest.sorted (hsorted h),
        fun _ h => hlies _ _ (hrest.lies _ h)⟩
    · exact ⟨hcarries, hsorted, by simp⟩
    · have hrest := nextOrDeadline_drew net' inbox due now waker
      exact ⟨fun _ h => hcarries _ (hrest.carries _ h), fun h => hrest.sorted (hsorted h),
        fun _ h => hlies _ _ (hrest.lies _ h)⟩

/-- A poll is a race and the step that it leads to, if it leads to one. -/
inductive Stepping (rt : LocalRuntime P Shared MemoryInbox) (name : ActorName) :
    LocalRuntime P Shared MemoryInbox × List Effect → Prop
  | pending (net : Shared) (hcarries : ∀ delivery, net.Carries delivery → rt.net.Carries delivery)
      (hsorted : rt.net.Sorted → net.Sorted) : Stepping rt name ({ rt with net }, [])
  | stepped (net : Shared) (hcarries : ∀ delivery, net.Carries delivery → rt.net.Carries delivery)
      (hsorted : rt.net.Sorted → net.Sorted) (waited : Waited)
      (hlies : ∀ delivery, waited = .Delivery (some delivery) →
        ∃ actor, rt.actors name = some actor ∧ rt.net.Lies actor.inbox.address delivery) :
      Stepping rt name ({ rt with net }.exec (.Step name waited))

theorem poll_stepping (rt : LocalRuntime P Shared MemoryInbox) (name : ActorName) (waker : Waker) :
    Stepping rt name (rt.poll name waker).2 := by
  cases hactor : rt.actors name with
  | none =>
    simp only [poll, hactor]
    exact .pending rt.net (fun _ h => h) id
  | some actor =>
    by_cases hquiet : actor.affected (· ∈ rt.dead) = []
    · have hdrew := race_drew rt.net actor.inbox (actor.earliestDue.map (·.2.2)) rt.clock rt.deathWatch waker
      simp only [poll, hactor, sweepDead_none hquiet]
      generalize nextOrDeadlineOrDeath rt.net actor.inbox (actor.earliestDue.map (·.2.2)) rt.clock
        rt.deathWatch waker = raced at hdrew
      obtain ⟨waited | _, net, watch⟩ := raced
      · refine .stepped net hdrew.carries hdrew.sorted waited fun delivery hwaited => ?_
        exact ⟨actor, hactor, hdrew.lies delivery (by rw [hwaited])⟩
      · exact .pending net hdrew.carries hdrew.sorted
    · rw [poll_of_loud hactor hquiet waker .DeadlineElapsed]
      exact .stepped rt.net (fun _ h => h) id .DeadlineElapsed (by simp)

end

end LocalRuntime

end Kamiroh
