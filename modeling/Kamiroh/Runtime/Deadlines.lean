import Mathlib.Data.Finset.Card
import Kamiroh.Runtime.Conversations

/-!
# Live exchanges and their deadlines

A wait is armed only while the peer's turn is awaited. The other direction, that a live exchange has a
deadline armed, needs a party that answers every request.
-/

namespace Kamiroh

open TurnState

variable {P N Ib : Type} [Party P] [Transport N] [Registry N Ib]

/-! ## What is armed waits -/

/-- A wait is armed only while the peer's turn is awaited, the ack wait only for the open request. -/
structure PeerState.Waiting (ps : PeerState) : Prop where
  ack : ∀ id due, ps.ackDue = some (id, due) → ps.state = .AwaitingTheirTurn id
  turn : ∀ due, ps.turnDue = some due → ∃ id, ps.state = .AwaitingTheirTurn id

theorem PeerState.waiting_of_unarmed (state : TurnState) :
    (⟨state, none, none⟩ : PeerState).Waiting :=
  ⟨by simp, by simp⟩

theorem PeerState.waiting_armed {s : TurnState} {reply : Turn} {progress : TurnProgress}
    (h : (s.onOutgoing reply).1 = .ok progress) (now : Instant) (deadlines : Deadlines) :
    (PeerState.armed (afterTurn .AwaitingTheirTurn reply) reply progress now deadlines).Waiting := by
  rcases (onOutgoing_ok_iff s reply progress).mp h with ⟨r, -⟩ | ⟨a, r, -⟩ | ⟨a, -⟩
  · exact ⟨by simp [armed, afterTurn], by simp [armed, afterTurn]⟩
  · exact ⟨by simp [armed, afterTurn], by simp [armed, afterTurn]⟩
  · exact ⟨by simp [armed], by simp [armed]⟩

theorem PeerState.Waiting.live {ps : PeerState} (h : ps.Waiting)
    (harmed : ps.ackDue.isSome = true ∨ ps.turnDue.isSome = true) : ps.state.live = true := by
  rcases harmed with hack | hturn
  · obtain ⟨⟨id, due⟩, hdue⟩ := Option.isSome_iff_exists.mp hack
    rw [h.ack id due hdue]
    rfl
  · obtain ⟨due, hdue⟩ := Option.isSome_iff_exists.mp hturn
    obtain ⟨id, hid⟩ := h.turn due hdue
    rw [hid]
    rfl

namespace LocalRuntime

theorem waiting_exec {rt : LocalRuntime P N Ib} (h : rt.Each PeerState.Waiting) (call : Call P N) :
    (rt.exec call).1.Each PeerState.Waiting := by
  refine exec_each (PeerState.waiting_of_unarmed _) (fun ps _ => PeerState.waiting_of_unarmed _)
    (fun ps id hps => ?_) h call fun actor peer turn htakes ps htook => ?_
  · refine ⟨fun id' due hdue => ?_, fun due hdue => ?_⟩
    · rw [PeerState.settleAck_state]
      rcases ps.settleAck_ackDue id with hack | hack
      · exact hps.ack id' due (hack ▸ hdue)
      · rw [hack] at hdue
        cases hdue
    · rw [PeerState.settleAck_state]
      exact hps.turn due (ps.settleAck_turnDue id ▸ hdue)
  · obtain ⟨name, target, -, hactor, -⟩ := htakes
    rcases htook with ⟨error, _⟩ | ⟨progress, _, _⟩ | ⟨progress, _, state, _⟩ |
      ⟨progress, _, answer, _, progress', hout, now, deadlines⟩
    · exact h name actor hactor peer
    · exact PeerState.waiting_of_unarmed _
    · exact PeerState.waiting_of_unarmed _
    · exact PeerState.waiting_armed hout now deadlines

omit [Party P] [Transport N] [Registry N Ib] in
theorem Fresh.each {rt : LocalRuntime P N Ib} (h : rt.Fresh) (J : PeerState → Prop) : rt.Each J := by
  intro name actor hactor
  rw [h.actors name] at hactor
  cases hactor

theorem waiting_after {rt : LocalRuntime P N Ib} (h : rt.Each PeerState.Waiting)
    (calls : List (Call P N)) : (rt.after calls).Each PeerState.Waiting :=
  Run.invariant_all next (I := fun rt => rt.Each PeerState.Waiting)
    (fun _ call hrt => waiting_exec hrt call) rt calls h

/-! ## What is live is armed -/

end LocalRuntime

def PeerState.Armed (ps : PeerState) : Prop := ps.state.live = true → ps.turnDue.isSome = true

theorem PeerState.armed_of_not_live {ps : PeerState} (h : ps.state.live = false) : ps.Armed := by
  intro hlive
  rw [h] at hlive
  cases hlive

theorem PeerState.armed_armed {s : TurnState} {reply : Turn} {progress : TurnProgress}
    (h : (s.onOutgoing reply).1 = .ok progress) (now : Instant) (deadlines : Deadlines) :
    (PeerState.armed (afterTurn .AwaitingTheirTurn reply) reply progress now deadlines).Armed := by
  rcases (onOutgoing_ok_iff s reply progress).mp h with ⟨r, -⟩ | ⟨a, r, -⟩ | ⟨a, -⟩
  · exact fun _ => rfl
  · exact fun _ => rfl
  · exact PeerState.armed_of_not_live rfl

namespace LocalRuntime

/-- Whenever an actor accepts a turn that poses a request, it has a party, and the party replies. -/
def AnswersRequests (rt : LocalRuntime P N Ib) (call : Call P N) : Prop :=
  ∀ actor peer turn progress, rt.Takes call actor peer turn →
    ((actor.peer peer).state.onIncoming turn).1 = .ok progress → turn.request.isSome = true →
    (actor.reply peer turn).isSome = true

theorem armed_exec {rt : LocalRuntime P N Ib} (h : rt.Each PeerState.Armed) (call : Call P N)
    (hanswers : rt.AnswersRequests call) : (rt.exec call).1.Each PeerState.Armed := by
  refine exec_each (PeerState.armed_of_not_live rfl)
    (fun ps _ => PeerState.armed_of_not_live (fail_not_live _))
    (fun ps id hps hlive => ?_) h call fun actor peer turn htakes ps htook => ?_
  · rw [PeerState.settleAck_turnDue]
    exact hps (ps.settleAck_state id ▸ hlive)
  · rcases htook with ⟨error, _⟩ | ⟨progress, hin, hreply⟩ | ⟨progress, _, state, hlive⟩ |
      ⟨progress, _, answer, _, progress', hout, now, deadlines⟩
    · obtain ⟨name, target, -, hactor, -⟩ := htakes
      exact h name actor hactor peer
    · -- The party said nothing, so nothing was asked: the turn closed the exchange.
      have hnone : turn.request = none := by
        have hsome := hanswers actor peer turn progress htakes hin
        rw [hreply] at hsome
        simpa using hsome
      exact PeerState.armed_of_not_live (congrArg live (afterTurn_of_none hnone))
    · exact PeerState.armed_of_not_live hlive
    · exact PeerState.armed_armed hout now deadlines

theorem armed_after {rt : LocalRuntime P N Ib} (h : rt.Each PeerState.Armed)
    (calls : List (Call P N)) (hrun : Run.Along next AnswersRequests rt calls) :
    (rt.after calls).Each PeerState.Armed :=
  Run.invariant next (I := fun rt => rt.Each PeerState.Armed)
    (fun _ call hrt hcall => armed_exec hrt call hcall) rt calls h hrun

/-! ## Stepping the elapsed deadlines -/

theorem step_elapsed {rt : LocalRuntime P N Ib} {name : ActorName} {actor : LocalActor P Ib}
    (hactor : rt.actors name = some actor) (hwaiting : rt.Each PeerState.Waiting)
    (hdue : actor.earliestDue ≠ none) :
    ∃ actor', (rt.step name .DeadlineElapsed).rt.actors name = some actor' ∧
      actor'.allowlist = actor.allowlist ∧ actor'.livePeers ⊂ actor.livePeers := by
  have hdid := step_did hactor .DeadlineElapsed
  generalize rt.step name .DeadlineElapsed = ran at hdid
  rcases hdid with ⟨_, endpoint, hdead, hlive, _, rfl⟩ | _ |
    ⟨hquiet, peer, kind, due, hsome, _, rfl⟩ | ⟨hquiet, hnone⟩ | _ | _
  · refine ⟨_, setActor_self .., failEach_allowlist .., ?_⟩
    obtain ⟨p, hp⟩ := List.exists_mem_of_ne_nil _ hlive
    rw [failEach_livePeers, Finset.filter_ssubset]
    exact ⟨p, LocalActor.mem_livePeers.mpr (LocalActor.mem_affected.mp hp).1, by simpa using hp⟩
  · refine ⟨_, setActor_self .., LocalActor.failExchange_allowlist .., ?_⟩
    rw [LocalActor.failExchange_livePeers]
    have harmed := LocalActor.earliestDue_armed hsome
    exact Finset.erase_ssubset
      (LocalActor.mem_livePeers.mpr ((hwaiting name actor hactor peer).live harmed))
  · exact absurd hnone hdue

theorem drained {rt : LocalRuntime P N Ib} {name : ActorName} {actor : LocalActor P Ib}
    (hactor : rt.actors name = some actor) (hwaiting : rt.Each PeerState.Waiting) :
    ∃ n ≤ actor.livePeers.card, ∃ actor',
      (rt.after (List.replicate n (.Step name .DeadlineElapsed))).actors name = some actor' ∧
      actor'.allowlist = actor.allowlist ∧ actor'.earliestDue = none := by
  induction hcard : actor.livePeers.card using Nat.strong_induction_on generalizing rt actor with
  | _ k ih =>
    subst hcard
    by_cases hdue : actor.earliestDue = none
    · exact ⟨0, Nat.zero_le _, actor, hactor, rfl, hdue⟩
    · obtain ⟨actor₁, hactor₁, hallow₁, hlive₁⟩ := step_elapsed hactor hwaiting hdue
      have hless := Finset.card_lt_card hlive₁
      have hwaiting₁ : (rt.exec (.Step name .DeadlineElapsed)).1.Each PeerState.Waiting :=
        waiting_exec hwaiting _
      obtain ⟨n, hn, actor', hactor', hallow', hdue'⟩ := ih _ hless hactor₁ hwaiting₁ rfl
      exact ⟨n + 1, by omega, actor', hactor', hallow'.trans hallow₁, hdue'⟩

/-! ## A fresh `Open` -/

theorem open_accepted {rt : LocalRuntime P N Ib} {name : ActorName} {actor : LocalActor P Ib}
    (hactor : rt.actors name = some actor) (harmed : rt.Each PeerState.Armed)
    (hdue : actor.earliestDue = none) (peer target : Address) (request : Request)
    (hadmitted : actor.allowlist.allows peer.endpoint = true) :
    ∃ before, .Moved (rt.address name) peer before (.OweThem request.id) ∈
      (rt.step name (.Delivery (some ⟨peer, target, .Turn (.Open request)⟩))).effects := by
  have hidle : ∀ p, (actor.peer p).state.live = false := by
    intro p
    have hunarmed := (LocalActor.unarmed_of_earliestDue_none hdue p).2
    have hp := harmed name actor hactor p
    unfold PeerState.Armed at hp
    rw [hunarmed] at hp
    simpa using hp
  have hquiet : ∀ endpoints, actor.affected endpoints = [] := fun _ =>
    LocalActor.affected_eq_nil.mpr fun p _ => hidle p
  have hlegal : ((actor.peer peer).state.onIncoming (.Open request)).1 = .ok .Continuing := by
    have := hidle peer
    cases hs : (actor.peer peer).state <;> simp_all [onIncoming]
  have hdid := step_did hactor (.Delivery (some ⟨peer, target, .Turn (.Open request)⟩))
  generalize rt.step name (.Delivery (some ⟨peer, target, .Turn (.Open request)⟩)) = ran at hdid
  rcases hdid with ⟨_, endpoint, _, hlive, _⟩ | _ | _ | _ | _ | ⟨_, _, ran, hran⟩
  · exact absurd (hquiet _) hlive
  · rcases hran with ⟨hno⟩ | ⟨_, _, hm⟩ | ⟨_, _, hm⟩ | ⟨_, _, hm, _⟩ | ⟨_, _, hm, _⟩ | ⟨_, _, hm, _⟩ |
      ⟨_, turn, hm, ran, hran⟩
    · rw [hadmitted] at hno
      cases hno
    all_goals cases hm
    refine ⟨(actor.peer peer).state, ?_⟩
    rcases hran with ⟨error, hill⟩ | ⟨progress, _, taken, effects, _⟩ |
      ⟨progress, _, reply, taken, effects, _, ran, _⟩
    · rw [hlegal] at hill
      cases hill
    · exact List.mem_cons_self
    · exact List.mem_cons_self

/-! ## No exchange hangs -/

/-- In every run in which each accepted request is answered, a live exchange has a turn deadline armed.
Once an actor's deadlines have elapsed and been stepped, it takes an `Open` from any admitted peer. -/
theorem no_exchange_hangs (rt : LocalRuntime P N Ib) (hfresh : rt.Fresh) (calls : List (Call P N))
    (hrun : Run.Along next AnswersRequests rt calls) :
    (rt.after calls).Each PeerState.Armed ∧
    ∀ name actor, (rt.after calls).actors name = some actor →
      ∃ n ≤ actor.livePeers.card, ∀ drained,
        drained = (rt.after calls).after (List.replicate n (.Step name .DeadlineElapsed)) →
        ∃ actor', drained.actors name = some actor' ∧ actor'.earliestDue = none ∧
          ∀ peer target request, actor.allowlist.allows peer.endpoint = true →
            ∃ before, .Moved (drained.address name) peer before (.OweThem request.id) ∈
              (drained.step name (.Delivery (some ⟨peer, target, .Turn (.Open request)⟩))).effects := by
  have harmed := armed_after (hfresh.each _) calls hrun
  have hwaiting := waiting_after (hfresh.each _) calls
  refine ⟨harmed, fun name actor hactor => ?_⟩
  obtain ⟨n, hn, actor', hactor', hallow, hdue⟩ := drained hactor hwaiting
  refine ⟨n, hn, fun rt' hrt' => ⟨actor', hrt' ▸ hactor', hdue, ?_⟩⟩
  intro peer target request hadmitted
  have harmed' : rt'.Each PeerState.Armed := by
    rw [hrt']
    refine armed_after harmed _ ?_
    -- A step of an elapsed deadline takes no turn.
    clear hrt' hactor' hn
    generalize rt.after calls = rt₀
    induction n generalizing rt₀ with
    | zero => trivial
    | succ n ih =>
      refine ⟨?_, ih _⟩
      rintro _ _ _ _ ⟨_, _, hcall, _⟩
      cases hcall
  exact open_accepted (hrt' ▸ hactor') harmed' hdue peer target request (hallow ▸ hadmitted)

section

open Sample

/-- A stock party answers, so its exchanges do not hang. -/
theorem no_exchange_hangs_echo :
    ((bobsRuntime Empty).after
      [.InstallParty bob.name (Allowlist.empty.admitEndpoint alice.endpoint) patience (.echo .new),
        .Step bob.name (opened bob alice 1)]).Each PeerState.Armed := by
  refine (no_exchange_hangs (bobsRuntime Empty) (bobsRuntime_fresh _) [_, _] ⟨?_, ?_, trivial⟩).1
  · rintro _ _ _ _ ⟨_, _, hcall, _⟩
    cases hcall
  · rintro actor peer turn progress ⟨name, target, hcall, hactor, -⟩ - -
    cases hcall
    cases hactor
    decide

/-- An actor without a party accepts a request, nothing is armed, and it refuses every later `Open`. -/
theorem plain_actor_hangs :
    let rt := (bobsRuntime Empty).after
      [.Install bob.name (Allowlist.empty.admitEndpoint alice.endpoint) patience .Plain,
        .Step bob.name (opened bob alice 1)]
    ¬ rt.Each PeerState.Armed ∧
      ∃ actor, rt.actors bob.name = some actor ∧ actor.allowlist.allows alice.endpoint = true ∧
        actor.earliestDue = none ∧
        ∀ r, ((actor.peer alice).state.onIncoming (.Open r)).1 = .error .NotTheirMove := by
  intro rt
  obtain ⟨actor, hactor, hpeer, hallow, hdue⟩ : ∃ actor, rt.actors bob.name = some actor ∧
      actor.peer alice = ⟨.OweThem (request 1).id, none, none⟩ ∧
      actor.allowlist.allows alice.endpoint = true ∧ actor.earliestDue = none :=
    ⟨_, rfl, by decide, by decide, by decide⟩
  refine ⟨fun harmed => ?_, actor, hactor, hallow, hdue, fun r => ?_⟩
  · have := harmed bob.name actor hactor alice
    rw [hpeer] at this
    cases this rfl
  · rw [hpeer]
    rfl

end

end LocalRuntime

end Kamiroh
