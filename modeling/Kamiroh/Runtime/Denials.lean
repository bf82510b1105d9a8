import Kamiroh.Runtime.Deaths

/-!
# Denials: what a denied delivery can influence

A step clears the tombstone of a delivery's endpoint before it looks at the allowlist. That is all that
a denied delivery leaves behind, and it shows only where the tombstone would have failed an exchange.
-/

namespace Kamiroh

variable {P N Ib : Type}

def LocalRuntime.withDead (rt : LocalRuntime P N Ib) (dead : Finset EndpointId) :
    LocalRuntime P N Ib :=
  { rt with dead }

def Ran.withDead {α : Type} (ran : Ran P N Ib α) (dead : Finset EndpointId) : Ran P N Ib α :=
  { ran with rt := ran.rt.withDead dead }

namespace LocalRuntime

/-! ## Only a sweep reads the tombstones -/

theorem heardFrom_withDead (rt : LocalRuntime P N Ib) (endpoint : EndpointId) :
    rt.heardFrom endpoint = rt.withDead (rt.dead.erase endpoint) := rfl

theorem installInner_withDead [Registry N Ib] (rt : LocalRuntime P N Ib) (dead : Finset EndpointId)
    (name : ActorName) (allowlist : Allowlist) (deadlines : Deadlines) (kind : ActorKind)
    (party : Option (Boxed P)) :
    (rt.withDead dead).installInner name allowlist deadlines kind party =
      (rt.installInner name allowlist deadlines kind party).withDead dead := by
  have hsame : (rt.withDead dead).address name = rt.address name := rfl
  unfold installInner
  by_cases hused : (rt.actors name).isSome
  · rw [if_pos hused, if_pos (show ((rt.withDead dead).actors name).isSome from hused)]
    rfl
  · rw [if_neg hused, if_neg (show ¬ ((rt.withDead dead).actors name).isSome from hused), hsame,
      show (rt.withDead dead).net = rt.net from rfl]
    rcases Registry.bind rt.net (rt.address name) with ⟨_ | inbox, net⟩ <;> rfl

theorem execute_withDead [Registry N Ib] (rt : LocalRuntime P N Ib) (dead : Finset EndpointId)
    (command : Harness) (controller : Address) :
    (rt.withDead dead).execute command controller = (rt.execute command controller).withDead dead := by
  cases command with
  | Ping | Spawned _ | Stopped _ | Pong | Failed _ => rfl
  | Spawn name =>
    simp only [execute, installParty, installInner_withDead]
    simp only [withDead, Ran.withDead]
    split <;> rfl
  | Stop name =>
    simp only [execute, withDead]
    split <;> rfl

section

variable [Transport N]

theorem send_withDead (rt : LocalRuntime P N Ib) (dead : Finset EndpointId) (origin target : Address)
    (message : Message) :
    (rt.withDead dead).send origin target message = (rt.send origin target message).withDead dead := by
  simp only [send, withDead]
  split <;> rfl

theorem receipt_withDead (rt : LocalRuntime P N Ib) (dead : Finset EndpointId) (self peer : Address)
    (ack : Option Message) :
    (rt.withDead dead).receipt self peer ack = (rt.receipt self peer ack).withDead dead := by
  cases ack with
  | none => rfl
  | some ack =>
    simp only [receipt, send_withDead]
    rfl

theorem sendAndReturn_withDead (rt : LocalRuntime P N Ib) (dead : Finset EndpointId)
    (origin target : Address) (message : Message) :
    (rt.withDead dead).sendAndReturn origin target message =
      (rt.sendAndReturn origin target message).withDead dead := by
  simp only [sendAndReturn, send_withDead]
  rfl

end

variable [Party P]

theorem failEach_withDead (rt : LocalRuntime P N Ib) (dead : Finset EndpointId) (name : ActorName)
    (actor : LocalActor P Ib) (cause : FailureCause) (peers : List Address) :
    (rt.withDead dead).failEach name actor cause peers = rt.failEach name actor cause peers := by
  induction peers generalizing actor with
  | nil => rfl
  | cons peer peers ih =>
    simp only [failEach, ih]
    rfl

variable [Transport N]

theorem answer_withDead (rt : LocalRuntime P N Ib) (dead : Finset EndpointId) (name : ActorName)
    (actor : LocalActor P Ib) (self peer : Address) (reply : Turn) :
    (rt.withDead dead).answer name actor self peer reply =
      (rt.answer name actor self peer reply).withDead dead := by
  simp only [answer, send_withDead]
  split
  · rfl
  · simp only [Ran.withDead]
    split <;> rfl

theorem takeTurn_withDead (rt : LocalRuntime P N Ib) (dead : Finset EndpointId) (name : ActorName)
    (actor : LocalActor P Ib) (self peer : Address) (turn : Turn) (ack : Option Message) :
    (rt.withDead dead).takeTurn name actor self peer turn ack =
      (rt.takeTurn name actor self peer turn ack).withDead dead := by
  simp only [takeTurn, receipt_withDead, show (rt.withDead dead).address name = rt.address name from rfl]
  cases ((actor.peer peer).state.onIncoming turn).1 with
  | error error => rfl
  | ok progress =>
    dsimp only
    split
    · rfl
    · simp only [Ran.withDead, answer_withDead]

variable [Registry N Ib]

theorem deliver_withDead (rt : LocalRuntime P N Ib) (dead : Finset EndpointId) (name : ActorName)
    (actor : LocalActor P Ib) (delivery : Delivery) :
    (rt.withDead dead).deliver name actor delivery =
      (rt.deliver name actor delivery).withDead (dead.erase delivery.origin.endpoint) := by
  have hheard : ({ rt.withDead dead with
        dead := (rt.withDead dead).dead.erase delivery.origin.endpoint } : LocalRuntime P N Ib) =
      LocalRuntime.withDead { rt with dead := rt.dead.erase delivery.origin.endpoint }
        (dead.erase delivery.origin.endpoint) := rfl
  unfold deliver
  dsimp only
  rw [hheard]
  cases process actor.allowlist delivery with
  | Denied => rfl
  | Request request forActor replyTo ack => exact sendAndReturn_withDead ..
  | AckReceived ack => rfl
  | Turn turn forActor replyTo ack =>
    dsimp only
    rw [takeTurn_withDead]
    rfl
  | Harness harness replyTo =>
    dsimp only
    split
    · exact sendAndReturn_withDead ..
    · rw [execute_withDead]
      simp only [Ran.withDead]
      split
      · exact sendAndReturn_withDead ..
      · rfl

omit [Transport N] [Registry N Ib] in
theorem sweepDead_withDead {rt : LocalRuntime P N Ib} {dead : Finset EndpointId} (name : ActorName)
    {actor : LocalActor P Ib} (hsame : actor.affected (· ∈ dead) = actor.affected (· ∈ rt.dead)) :
    (rt.withDead dead).sweepDead name actor = (rt.sweepDead name actor).withDead dead := by
  unfold sweepDead
  rw [show actor.affected (· ∈ (rt.withDead dead).dead) = actor.affected (· ∈ rt.dead) from hsame]
  dsimp only
  cases actor.affected (· ∈ rt.dead) with
  | nil => rfl
  | cons first rest =>
    simp only [failEach_withDead]
    rfl

theorem step_withDead {rt : LocalRuntime P N Ib} {name : ActorName} {actor : LocalActor P Ib}
    (hactor : rt.actors name = some actor) (dead : Finset EndpointId)
    (hsame : actor.affected (· ∈ dead) = actor.affected (· ∈ rt.dead)) (waited : Waited) :
    (rt.withDead dead).step name waited = (rt.step name waited).withDead
      (if actor.affected (· ∈ rt.dead) = [] then buried dead waited else dead) := by
  have hactor' : (rt.withDead dead).actors name = some actor := hactor
  unfold step
  simp only [hactor, hactor', sweepDead_withDead name hsame]
  by_cases hquiet : actor.affected (· ∈ rt.dead) = []
  · rw [if_pos hquiet, sweepDead_none hquiet]
    cases waited with
    | DeadlineElapsed =>
      dsimp only [Ran.withDead]
      cases actor.earliestDue <;> rfl
    | Delivery delivery =>
      cases delivery with
      | none => rfl
      | some delivery => exact deliver_withDead ..
    | PeerDeath endpoint =>
      have hreport : actor.affected (· ∈ insert endpoint dead) =
          actor.affected (· ∈ (rt.reportDead endpoint).dead) :=
        (affected_insert actor endpoint (hsame.trans hquiet)).trans
          (affected_insert actor endpoint hquiet).symm
      have hswept := sweepDead_withDead name hreport
      exact congrArg (fun swept : Ran P N Ib (Option Stepped) =>
        ({ swept with
          result := .Returned (.ok (swept.result.getD (.PeerVanished endpoint 0))) } :
            Ran P N Ib Outcome)) hswept
  · rw [if_neg hquiet]
    obtain ⟨endpoint, hdead, hlive, hswept⟩ := sweepDead_some rt name hquiet
    rw [hswept]
    rfl

/-! ## A tombstone that fails nothing -/

/-- The tombstone of the endpoint, if there is one, fails no exchange in this call. -/
def Unneeded (endpoint : EndpointId) (rt : LocalRuntime P N Ib) (call : Call P N) : Prop :=
  endpoint ∈ rt.dead → ∀ name waited actor, call = .Step name waited → rt.actors name = some actor →
    actor.affected (· = endpoint) = []

omit [Party P] [Transport N] [Registry N Ib] in
theorem affected_erase {actor : LocalActor P Ib} {dead : Finset EndpointId} {endpoint : EndpointId}
    (h : endpoint ∈ dead → actor.affected (· = endpoint) = []) :
    actor.affected (· ∈ dead.erase endpoint) = actor.affected (· ∈ dead) := by
  by_cases hdead : endpoint ∈ dead
  · refine Assoc.keysWhere_congr fun p ps hps => ?_
    have hp := LocalActor.affected_eq_nil.mp (h hdead) p
    rw [LocalActor.peer, hps, Option.getD_some] at hp
    by_cases he : p.endpoint = endpoint
    · simp [hp (by simpa using he)]
    · simp [he]
  · rw [Finset.erase_eq_of_notMem hdead]

theorem buried_erase (dead : Finset EndpointId) (endpoint : EndpointId) (waited : Waited) :
    buried (dead.erase endpoint) waited = buried dead waited ∨
      buried (dead.erase endpoint) waited = (buried dead waited).erase endpoint := by
  cases waited with
  | DeadlineElapsed => exact Or.inr rfl
  | PeerDeath endpoint' =>
    by_cases h : endpoint' = endpoint
    · subst h
      rw [buried, buried, ← Finset.erase_insert_eq_erase,
        Finset.insert_erase (Finset.mem_insert_self ..)]
      exact Or.inl rfl
    · exact Or.inr (Finset.erase_insert_of_ne h).symm
  | Delivery delivery =>
    cases delivery with
    | none => exact Or.inr rfl
    | some delivery => exact Or.inr (Finset.erase_right_comm ..)

theorem exec_heardFrom {rt : LocalRuntime P N Ib} {endpoint : EndpointId} {call : Call P N}
    (h : Unneeded endpoint rt call) :
    (rt.exec call).2 = ((rt.heardFrom endpoint).exec call).2 ∧
      (((rt.heardFrom endpoint).exec call).1 = (rt.exec call).1 ∨
        ((rt.heardFrom endpoint).exec call).1 = (rt.exec call).1.heardFrom endpoint) := by
  cases call with
  | Elsewhere net clock => exact ⟨rfl, Or.inr rfl⟩
  | Install name allowlist deadlines kind | InstallParty name allowlist deadlines party =>
    simp only [exec, install, installParty, heardFrom_withDead, installInner_withDead]
    simp only [Ran.withDead, installInner_dead]
    exact ⟨trivial, Or.inr trivial⟩
  | Admit name endpoint' =>
    simp only [exec, admitEndpoint, heardFrom]
    split <;> exact ⟨rfl, Or.inr rfl⟩
  | Revoke name endpoint' =>
    simp only [exec, revoke, heardFrom_withDead, failEach_withDead]
    simp only [withDead]
    split <;> exact ⟨rfl, Or.inr rfl⟩
  | Rehash name conversations =>
    simp only [exec, rehash, heardFrom]
    split
    · split <;> exact ⟨trivial, Or.inr rfl⟩
    · exact ⟨trivial, Or.inr rfl⟩
  | Step name waited =>
    cases hactor : rt.actors name with
    | none =>
      have hnone : (rt.heardFrom endpoint).actors name = none := hactor
      simp only [exec, step, hactor, hnone]
      exact ⟨trivial, Or.inr trivial⟩
    | some actor =>
      have hsame : actor.affected (· ∈ rt.dead.erase endpoint) = actor.affected (· ∈ rt.dead) :=
        affected_erase fun hdead => h hdead name waited actor rfl hactor
      have hwith : (rt.heardFrom endpoint).step name waited = _ := step_withDead hactor _ hsame waited
      have hself : rt.step name waited = _ := step_withDead hactor rt.dead rfl waited
      have hdead : (rt.step name waited).rt.dead = _ := congrArg (·.rt.dead) hself
      simp only [exec, hwith]
      refine ⟨rfl, ?_⟩
      -- The step leaves the tombstones of the two runs equal, or still apart.
      simp only [Ran.withDead, withDead] at hdead ⊢
      rw [heardFrom_withDead, hdead]
      split
      · rename_i hquiet
        rw [if_pos hquiet] at hdead
        rcases buried_erase rt.dead endpoint waited with hburied | hburied
        · rw [hburied, ← hdead]
          exact Or.inl rfl
        · rw [hburied]
          exact Or.inr rfl
      · exact Or.inr rfl

theorem run_heardFrom {rt : LocalRuntime P N Ib} {endpoint : EndpointId} {calls : List (Call P N)}
    (h : Run.Along next (Unneeded endpoint) rt calls) :
    rt.effects calls = (rt.heardFrom endpoint).effects calls ∧
      ((rt.heardFrom endpoint).after calls = rt.after calls ∨
        (rt.heardFrom endpoint).after calls = (rt.after calls).heardFrom endpoint) := by
  refine Run.simulation exec exec (R := fun rt rt' => rt' = rt ∨ rt' = rt.heardFrom endpoint) ?_ rt _
    calls (Or.inr rfl) (Run.along_left next _ h _)
  rintro rt rt' call (rfl | rfl) hok
  · exact ⟨rfl, Or.inl rfl⟩
  · exact exec_heardFrom hok

theorem exec_denied {rt : LocalRuntime P N Ib} {name : ActorName} {actor : LocalActor P Ib}
    {delivery : Delivery} (hactor : rt.actors name = some actor)
    (hquiet : actor.affected (· ∈ rt.dead) = [])
    (hdenied : actor.allowlist.allows delivery.origin.endpoint = false) :
    rt.exec (.Step name (.Delivery (some delivery))) =
      (rt.heardFrom delivery.origin.endpoint,
        rt.emit (.DeliveryDenied delivery.origin delivery.target)) := by
  simp only [exec, step, hactor, sweepDead_none hquiet, deliver, process_denied.mpr hdenied]
  rfl

/-- Denied traffic has no influence, unless the tombstone that it clears would have failed an exchange.
The run without the denied delivery and its step has the same effects but for the event, and leaves the
same runtime but for the tombstones. -/
theorem denied_without_influence (rt : LocalRuntime P N Ib) (calls calls' : List (Call P N))
    {name : ActorName} {actor : LocalActor P Ib} (delivery : Delivery)
    (hactor : (rt.after calls).actors name = some actor)
    (hquiet : actor.affected (· ∈ (rt.after calls).dead) = [])
    (hdenied : actor.allowlist.allows delivery.origin.endpoint = false)
    (hunneeded : delivery.origin.endpoint ∉ (rt.after calls).dead ∨
      Run.Along next (Unneeded delivery.origin.endpoint) (rt.after calls) calls') :
    let denied : Call P N := .Step name (.Delivery (some delivery))
    rt.effects (calls ++ calls') = rt.effects calls ++ (rt.after calls).effects calls' ∧
      rt.effects (calls ++ denied :: calls') =
        rt.effects calls ++ (rt.after calls).emit (.DeliveryDenied delivery.origin delivery.target) ++
          (rt.after calls).effects calls' ∧
      ∃ dead, rt.after (calls ++ denied :: calls') = (rt.after (calls ++ calls')).withDead dead := by
  intro denied
  have hexec : (rt.after calls).exec denied = _ := exec_denied hactor hquiet hdenied
  have hsame : (rt.after calls).effects calls' =
        ((rt.after calls).heardFrom delivery.origin.endpoint).effects calls' ∧
      ∃ dead, ((rt.after calls).heardFrom delivery.origin.endpoint).after calls' =
        ((rt.after calls).after calls').withDead dead := by
    rcases hunneeded with hnone | halong
    · have hheard : (rt.after calls).heardFrom delivery.origin.endpoint = rt.after calls := by
        rw [heardFrom_withDead, Finset.erase_eq_of_notMem hnone]
        rfl
      rw [hheard]
      exact ⟨rfl, _, rfl⟩
    · obtain ⟨heffects, hafter⟩ := run_heardFrom halong
      exact ⟨heffects, hafter.elim (fun h => ⟨_, h⟩) (fun h => ⟨_, h⟩)⟩
  have heffects : ∀ calls'', rt.effects (calls ++ calls'') =
      rt.effects calls ++ (rt.after calls).effects calls'' := Run.outputs_append exec rt calls
  have hafter : ∀ calls'', rt.after (calls ++ calls'') = (rt.after calls).after calls'' :=
    Run.after_append next rt calls
  refine ⟨heffects calls', ?_, ?_⟩
  · rw [heffects, hsame.1, List.append_assoc]
    simp only [effects, Run.outputs, denied, hexec]
  · have hnext : (rt.after calls).next denied = _ := congrArg Prod.fst hexec
    rw [hafter, hafter, after, Run.after_cons, hnext]
    exact hsame.2

section

open Sample

/-- Dave hears of Alice's death, and denies her straggler and a turn of Carol's. -/
theorem denied_without_influence_dave :
    let dies : Call Empty Shared := .Step dave.name (.PeerDeath alice.endpoint)
    let straggler : Call Empty Shared :=
      .Step dave.name (.Delivery (some ⟨alice, dave, .Harness .Ping⟩))
    let turn : Call Empty Shared := .Step dave.name (opened dave carol 3)
    ∃ dead, bobAndDave.after [dies, straggler, turn] = (bobAndDave.after [dies, turn]).withDead dead := by
  intro dies straggler turn
  obtain ⟨daves, hdave, hquiet, hdenied, hnone⟩ : ∃ actor,
      (bobAndDave.after [dies]).actors dave.name = some actor ∧
        actor.affected (· ∈ (bobAndDave.after [dies]).dead) = [] ∧
        actor.allowlist.allows alice.endpoint = false ∧ actor.affected (· = alice.endpoint) = [] :=
    ⟨_, rfl, by decide, by decide, by decide⟩
  have hunneeded : Run.Along next (Unneeded alice.endpoint) (bobAndDave.after [dies]) [turn] := by
    refine ⟨fun _ name waited actor hcall hactor => ?_, trivial⟩
    obtain ⟨rfl, rfl⟩ := Call.Step.inj hcall
    rw [hdave] at hactor
    cases hactor
    exact hnone
  exact (denied_without_influence bobAndDave [dies] [turn] ⟨alice, dave, .Harness .Ping⟩ hdave
    hquiet hdenied (Or.inr hunneeded)).2.2

/-- Dave hears of Alice's death before Bob steps. If Dave takes a straggler from Alice, though he denies
her, then Bob's exchange with her stays live, and otherwise it fails. -/
theorem denied_straggler_saves_exchange :
    let dies : Call Empty Shared := .Step dave.name (.PeerDeath alice.endpoint)
    let straggler : Call Empty Shared :=
      .Step dave.name (.Delivery (some ⟨alice, dave, .Harness .Ping⟩))
    let turn : Call Empty Shared := .Step bob.name (opened bob carol 3)
    ((bobAndDave.after [dies]).actors dave.name).map (·.allowlist.allows alice.endpoint) =
        some false ∧
      bobAndDave.effects [dies, straggler, turn] =
        [.Emitted (.DeliveryDenied alice dave),
          .Moved bob carol (.OweThem (request 2).id) (.OweThem (request 2).id),
          .Emitted (.IllegalTurnDropped carol bob .NotTheirMove)] ∧
      bobAndDave.effects [dies, turn] =
        [.Failed bob alice (.OweThem (request 1).id) .Disconnected,
          .Emitted (.ExchangeFailed bob alice .Disconnected)] ∧
      ((bobAndDave.after [dies, straggler, turn]).actors bob.name).map (fun a => (a.peer alice).state) =
        some (.OweThem (request 1).id) ∧
      ((bobAndDave.after [dies, turn]).actors bob.name).map (fun a => (a.peer alice).state) =
        some .Failed := by
  decide

end

end LocalRuntime

end Kamiroh
