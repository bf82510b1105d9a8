import Kamiroh.Runtime.Deadlines
import Kamiroh.Runtime.Deaths
import Kamiroh.Runtime.Effects

/-!
# Revocation

A revocation fails the live exchanges with the endpoint and no others, and it lasts: until the endpoint
is admitted again, nothing of the actor reaches a peer there.
-/

namespace Kamiroh

variable {P N Ib : Type}

/-- The effect reaches only `peers`: it sends to one of them, or it calls the party at `here` about
one of them. -/
def Effect.Within (here : Address) (peers : Address → Prop) : Effect → Prop
  | Sent _ target _ _ => peers target
  | Handed here' peer _ | Told here' peer _ => here' = here ∧ peers peer
  | Emitted _ | Moved .. | Failed .. => True

theorem Effect.Within.imp {here : Address} {peers peers' : Address → Prop} {e : Effect}
    (h : e.Within here peers) (himp : ∀ p, peers p → peers' p) : e.Within here peers' := by
  cases e with
  | Sent origin target message accepted => exact himp target h
  | Handed here' peer turn => exact ⟨h.1, himp peer h.2⟩
  | Told here' peer cause => exact ⟨h.1, himp peer h.2⟩
  | Emitted event | Moved here' peer before after | Failed here' peer before cause => trivial

/-- The effect calls the party at `here` about a peer at `endpoint`. -/
def Effect.Calls (here : Address) (endpoint : EndpointId) : Effect → Prop
  | Handed here' peer _ | Told here' peer _ => here' = here ∧ peer.endpoint = endpoint
  | Sent .. | Emitted _ | Moved .. | Failed .. => False

def Effect.SendsTo (endpoint : EndpointId) : Effect → Prop
  | Sent _ target _ _ => target.endpoint = endpoint
  | Handed .. | Told .. | Emitted _ | Moved .. | Failed .. => False

theorem Effect.Within.calls {here here' : Address} {peers : Address → Prop} {endpoint : EndpointId}
    {e : Effect} (h : e.Within here peers) (hcalls : e.Calls here' endpoint) :
    here' = here ∧ ∃ p, peers p ∧ p.endpoint = endpoint := by
  cases e with
  | Handed here'' peer turn => exact ⟨hcalls.1.symm.trans h.1, peer, h.2, hcalls.2⟩
  | Told here'' peer cause => exact ⟨hcalls.1.symm.trans h.1, peer, h.2, hcalls.2⟩
  | Sent _ _ _ _ | Emitted _ | Moved _ _ _ _ | Failed _ _ _ _ => cases hcalls

theorem Effect.Within.sendsTo {here : Address} {peers : Address → Prop} {endpoint : EndpointId}
    {e : Effect} (h : e.Within here peers) (hsends : e.SendsTo endpoint) :
    ∃ p, peers p ∧ p.endpoint = endpoint := by
  cases e with
  | Sent origin target message accepted => exact ⟨target, h, hsends⟩
  | Handed _ _ _ | Told _ _ _ | Emitted _ | Moved _ _ _ _ | Failed _ _ _ _ => cases hsends

namespace LocalRuntime

/-! ## Whom a step reaches -/

theorem Failure.within {here peer : Address} {cause : FailureCause} {e : Effect}
    (h : Failure here peer cause e) : e.Within here (· = peer) := by
  cases h with
  | told => exact ⟨rfl, rfl⟩
  | failed _ | reported => trivial

theorem Turned.within {here self peer : Address} {e : Effect} (h : Turned here self peer e) :
    e.Within here (· = peer) := by
  cases h with
  | moved _ _ | dropped _ => trivial
  | sent _ _ => rfl
  | handed _ => exact ⟨rfl, rfl⟩
  | failed _ _ _ h => exact h.within

section

variable [Party P] [Transport N]

/-- Whom the next step of the actor can concern: a peer in a live exchange, one with a wait armed, or an
admitted one whose delivery the step takes. -/
def Concerned (actor : LocalActor P Ib) (waited : Waited) (peer : Address) : Prop :=
  (actor.peer peer).state.live = true ∨ (∃ kind due, actor.earliestDue = some (peer, kind, due)) ∨
    ∃ delivery, waited = .Delivery (some delivery) ∧ delivery.origin = peer ∧
      actor.allowlist.allows peer.endpoint = true

variable [Registry N Ib]

theorem step_within {rt : LocalRuntime P N Ib} {name : ActorName} {actor : LocalActor P Ib}
    (hactor : rt.actors name = some actor) (waited : Waited) :
    ∀ e ∈ (rt.step name waited).effects, e.Within (rt.address name) (Concerned actor waited) := by
  have honly : ∀ {e : Effect} {peer : Address}, Concerned actor waited peer →
      e.Within (rt.address name) (· = peer) → e.Within (rt.address name) (Concerned actor waited) :=
    fun hpeer h => h.imp fun _ hp => hp ▸ hpeer
  intro e he
  rcases step_arose hactor he with ⟨_, endpoint, hdead, peer, hpeer, h⟩ |
    ⟨hquiet, peer, kind, due, hdue, h⟩ | ⟨hquiet, delivery, hno, rfl⟩ |
    ⟨hquiet, delivery, hok, message, hmessage, accepted, rfl⟩ |
    ⟨hquiet, delivery, hok, turn, hm, ran, hran, h⟩
  · exact honly (Or.inl (LocalActor.mem_affected.mp hpeer).1) h.within
  · exact honly (Or.inr (Or.inl ⟨kind, due, hdue⟩)) h.within
  · trivial
  · exact Or.inr (Or.inr ⟨delivery, rfl, rfl, hok⟩)
  · exact honly (Or.inr (Or.inr ⟨delivery, rfl, rfl, hok⟩)) (hran.turned h).within

theorem Delivered.others {rt : LocalRuntime P N Ib} {name : ActorName} {actor actor' : LocalActor P Ib}
    {delivery : Delivery} {ran : Ran P N Ib Outcome} (h : Delivered rt name actor delivery ran)
    (hactor : rt.actors name = some actor) (hactor' : ran.rt.actors name = some actor') :
    actor'.allowlist = actor.allowlist ∧
      ∀ p, (actor.allowlist.allows delivery.origin.endpoint = true → p ≠ delivery.origin) →
        actor'.peer p = actor.peer p := by
  have hsame : ran.rt.actors name = some actor ∨ ran.rt.actors name = none →
      actor'.allowlist = actor.allowlist ∧
        ∀ p, (actor.allowlist.allows delivery.origin.endpoint = true → p ≠ delivery.origin) →
          actor'.peer p = actor.peer p := by
    rintro (h | h)
    · cases hactor'.symm.trans h
      exact ⟨rfl, fun _ _ => rfl⟩
    · cases hactor'.symm.trans h
  rcases h with ⟨hno⟩ | ⟨hok, request, hm⟩ | ⟨hok, ack, hm⟩ | ⟨hok, harness, hm, hkind⟩ |
    ⟨hok, harness, hm, hkind, reply, hreply⟩ | ⟨hok, harness, hm, hkind, hreply⟩ |
    ⟨hok, turn, hm, ran, hran⟩
  · exact hsame (Or.inl hactor)
  · refine hsame (Or.inl ?_)
    simp only [sendAndReturn, send_rt]
    exact hactor
  · cases hactor'.symm.trans (setActor_self ..)
    refine ⟨rfl, fun p hp => ?_⟩
    rw [LocalActor.peer_modify _ _ _ _ rfl, if_neg (hp hok)]
  · refine hsame (Or.inl ?_)
    simp only [sendAndReturn, send_rt]
    exact hactor
  · refine hsame ?_
    simp only [sendAndReturn, send_rt]
    exact execute_installed hactor harness delivery.origin
  · exact hsame (execute_installed hactor harness delivery.origin)
  · obtain ⟨net, taken, hrt, hretook, -⟩ := hran.retook
    rw [hrt, setActor_self] at hactor'
    cases hactor'
    exact ⟨hretook.allowlist, fun p hp => hretook.others p (hp hok)⟩

theorem step_others {rt : LocalRuntime P N Ib} {name : ActorName} {actor actor' : LocalActor P Ib}
    (hactor : rt.actors name = some actor) {waited : Waited}
    (hactor' : (rt.step name waited).rt.actors name = some actor') :
    actor'.allowlist = actor.allowlist ∧
      ∀ p, ¬ Concerned actor waited p → actor'.peer p = actor.peer p := by
  have hdid := step_did hactor waited
  generalize rt.step name waited = ran at hdid hactor'
  have hfailed : ∀ (rt' : LocalRuntime P N Ib) cause endpoints,
      actor' = (rt'.failEach name actor cause (actor.affected endpoints)).1 →
      actor'.allowlist = actor.allowlist ∧
        ∀ p, ¬ Concerned actor waited p → actor'.peer p = actor.peer p := by
    rintro rt' cause endpoints rfl
    refine ⟨failEach_allowlist .., fun p hp => ?_⟩
    rw [failEach_peer, if_neg fun hmem => hp (Or.inl (LocalActor.mem_affected.mp hmem).1)]
  rcases hdid with ⟨_, endpoint, hdead, hlive, _, rfl⟩ | ⟨endpoint, hquiet, _, rfl⟩ |
    ⟨hquiet, peer, kind, due, hdue, _, rfl⟩ | ⟨hquiet, hdue⟩ | ⟨hquiet⟩ |
    ⟨hquiet, delivery, ran, hran⟩
  · exact hfailed rt _ _ (Option.some.inj (hactor'.symm.trans (setActor_self ..)))
  · exact hfailed (rt.reportDead endpoint) _ _ (Option.some.inj (hactor'.symm.trans (setActor_self ..)))
  · cases hactor'.symm.trans (setActor_self ..)
    refine ⟨LocalActor.failExchange_allowlist .., fun p hp => ?_⟩
    rw [LocalActor.failExchange_peer, if_neg]
    rintro rfl
    exact hp (Or.inr (Or.inl ⟨kind, due, hdue⟩))
  · cases hactor'.symm.trans hactor
    exact ⟨rfl, fun _ _ => rfl⟩
  · cases hactor'.symm.trans hactor
    exact ⟨rfl, fun _ _ => rfl⟩
  · obtain ⟨hallowlist, hothers⟩ := hran.others hactor hactor'
    refine ⟨hallowlist, fun p hp => hothers p fun hok => ?_⟩
    rintro rfl
    exact hp (Or.inr (Or.inr ⟨delivery, rfl, rfl, hok⟩))

/-! ## The revocation itself -/

/-- What one failed exchange puts out: its machine fails, the party is told if there is one, and the
observer hears of it. -/
def failureOf (rt : LocalRuntime P N Ib) (name : ActorName) (actor : LocalActor P Ib)
    (cause : FailureCause) (p : Address) : List Effect :=
  [.Failed (rt.address name) p (actor.peer p).state cause] ++
    (if actor.party.isSome then [.Told (rt.address name) p cause] else []) ++
    rt.emit (.ExchangeFailed (rt.address name) p cause)

omit [Transport N] [Registry N Ib] in
theorem failExchange_failureOf (rt : LocalRuntime P N Ib) (name : ActorName) {actor : LocalActor P Ib}
    (cause : FailureCause) {p : Address} (hlive : (actor.peer p).state.live = true) :
    (actor.failExchange (rt.address name) p cause).2 ++
      rt.emit (.ExchangeFailed (rt.address name) p cause) = rt.failureOf name actor cause p := by
  unfold LocalActor.peer at hlive
  rw [LocalActor.failExchange_snd, failureOf, LocalActor.peer]
  cases hlookup : actor.conversations.lookup p with
  | none => simp [hlookup] at hlive
  | some ps => rfl

omit [Transport N] [Registry N Ib] in
theorem failEach_snd (rt : LocalRuntime P N Ib) (name : ActorName) (actor : LocalActor P Ib)
    (cause : FailureCause) (peers : List Address) (hnodup : peers.Nodup)
    (hlive : ∀ p ∈ peers, (actor.peer p).state.live = true) :
    (rt.failEach name actor cause peers).2 = peers.flatMap (rt.failureOf name actor cause) := by
  induction peers generalizing actor with
  | nil => rfl
  | cons p peers ih =>
    obtain ⟨hp, hnodup⟩ := List.nodup_cons.mp hnodup
    have hothers : ∀ q ∈ peers,
        (actor.failExchange (rt.address name) p cause).1.peer q = actor.peer q := by
      intro q hq
      have hne : q ≠ p := fun h => hp (h ▸ hq)
      rw [LocalActor.failExchange_peer, if_neg hne]
    have hrest : peers.flatMap
          (rt.failureOf name (actor.failExchange (rt.address name) p cause).1 cause) =
        peers.flatMap (rt.failureOf name actor cause) := by
      refine List.flatMap_congr fun q hq => ?_
      rw [failureOf, failureOf, hothers q hq, LocalActor.failExchange_party_isSome]
    rw [failEach, List.flatMap_cons, ← hrest, ← failExchange_failureOf rt name cause
      (hlive p List.mem_cons_self)]
    refine congrArg _ (ih _ hnodup fun q hq => ?_)
    rw [hothers q hq]
    exact hlive q (List.mem_cons_of_mem p hq)

omit [Transport N] [Registry N Ib] in
theorem failEach_party (rt : LocalRuntime P N Ib) (name : ActorName) (actor : LocalActor P Ib)
    (cause : FailureCause) (peers : List Address) :
    (rt.failEach name actor cause peers).1.party = actor.party.map fun party =>
      peers.foldl (fun party p => Party.onExchangeFailed party p cause) party := by
  induction peers generalizing actor with
  | nil => simp [failEach]
  | cons p peers ih =>
    rw [failEach, ih, LocalActor.failExchange_party, Option.map_map]
    rfl

/-- The actor after a revocation: the live exchanges with the endpoint have failed. -/
structure Revoked (actor : LocalActor P Ib) (endpoint : EndpointId) (peers : List Address)
    (actor' : LocalActor P Ib) : Prop where
  failed : ∀ p ∈ peers, actor'.peer p = ⟨.Failed, none, none⟩
  others : ∀ p, p ∉ peers → actor'.peer p = actor.peer p
  allowlist : actor'.allowlist = actor.allowlist.revoke endpoint
  inbox : actor'.inbox = actor.inbox
  kind : actor'.kind = actor.kind
  deadlines : actor'.deadlines = actor.deadlines
  party : actor'.party = actor.party.map fun party =>
    peers.foldl (fun party p => Party.onExchangeFailed party p .Revoked) party

omit [Transport N] [Registry N Ib] in
theorem revoke_revoked {rt : LocalRuntime P N Ib} {name : ActorName} {actor : LocalActor P Ib}
    (hactor : rt.actors name = some actor) (endpoint : EndpointId) :
    ∃ actor', Revoked actor endpoint (actor.affected (· = endpoint)) actor' ∧
      rt.revoke name endpoint = ⟨.ok (actor.affected (· = endpoint)).length, rt.setActor name actor',
        (actor.affected (· = endpoint)).flatMap (rt.failureOf name actor .Revoked)⟩ := by
  let listed : LocalActor P Ib := { actor with allowlist := actor.allowlist.revoke endpoint }
  have hlive : ∀ p ∈ listed.affected (· = endpoint), (listed.peer p).state.live = true :=
    fun p hp => (LocalActor.mem_affected.mp hp).1
  have hsame := failEach_same rt name listed .Revoked (listed.affected (· = endpoint))
  refine ⟨(rt.failEach name listed .Revoked (listed.affected (· = endpoint))).1, ⟨fun p hp => ?_,
    fun p hp => ?_, hsame.allowlist, hsame.inbox, hsame.kind, hsame.deadlines,
      failEach_party ..⟩, ?_⟩
  · exact ((failEach_peer ..).trans (if_pos hp)).trans (PeerState.fail_of_live (hlive p hp))
  · exact (failEach_peer ..).trans (if_neg hp)
  · simp only [revoke, hactor]
    refine congrArg (Ran.mk _ _) ?_
    exact failEach_snd rt name listed .Revoked _ (Assoc.keysWhere_nodup ..) hlive

/-! ## Afterwards -/

/-- The endpoint is not admitted, and there is no exchange with a peer there. -/
def Barred (name : ActorName) (endpoint : EndpointId) (rt : LocalRuntime P N Ib) : Prop :=
  ∃ actor, rt.actors name = some actor ∧ actor.allowlist.allows endpoint = false ∧
    ∀ p, p.endpoint = endpoint → (actor.peer p).state.live = false ∧
      (actor.peer p).ackDue = none ∧ (actor.peer p).turnDue = none

/-- Nobody admits the endpoint again, and the actor is not stopped. -/
def Lasts (name : ActorName) (endpoint : EndpointId) (rt : LocalRuntime P N Ib) (call : Call P N) :
    Prop :=
  call ≠ .Admit name endpoint ∧ ((rt.exec call).1.actors name).isSome = true

/-- In this call nothing of the actor reaches the endpoint: its party is not called about a peer there,
it sends nothing there, and the conversations with peers there are left alone. -/
structure Undisturbed (name : ActorName) (endpoint : EndpointId) (rt : LocalRuntime P N Ib)
    (call : Call P N) : Prop where
  party : ∀ e ∈ (rt.exec call).2, ¬ e.Calls (rt.address name) endpoint
  sends : ∀ waited, call = .Step name waited → ∀ e ∈ (rt.exec call).2, ¬ e.SendsTo endpoint
  conversations : ∀ actor actor', rt.actors name = some actor →
    (rt.exec call).1.actors name = some actor' → ∀ p, p.endpoint = endpoint →
      actor'.peer p = actor.peer p

theorem exec_here (rt : LocalRuntime P N Ib) (call : Call P N) :
    ∀ e ∈ (rt.exec call).2, ∃ name, call.name = some name ∧
      e.Within (rt.address name) fun _ => True := by
  intro e he
  cases call with
  | Install name allowlist deadlines kind | InstallParty name allowlist deadlines party =>
    simp [exec, install, installParty] at he
  | Admit name endpoint =>
    simp only [exec, admitEndpoint] at he
    split at he <;> cases he
  | Rehash name conversations => cases he
  | Elsewhere net clock => cases he
  | Revoke name endpoint =>
    simp only [exec, revoke] at he
    split at he
    · obtain ⟨peer, -, hfailure⟩ := failEach_failure he
      exact ⟨name, rfl, hfailure.within.imp fun _ _ => trivial⟩
    · cases he
  | Step name waited =>
    cases hactor : rt.actors name with
    | none =>
      simp only [exec, step, hactor] at he
      cases he
    | some actor => exact ⟨name, rfl, (step_within hactor waited e he).imp fun _ _ => trivial⟩

/-- What a call makes of the actor, seen from an endpoint that it does not reach. -/
structure Avoids (name : ActorName) (endpoint : EndpointId) (rt : LocalRuntime P N Ib)
    (call : Call P N) (actor actor' : LocalActor P Ib) : Prop where
  denied : actor'.allowlist.allows endpoint = false
  peers : ∀ p, p.endpoint = endpoint → actor'.peer p = actor.peer p
  effects : ∀ e ∈ (rt.exec call).2, e.Within (rt.address name) (·.endpoint ≠ endpoint)

section

variable {name : ActorName} {endpoint : EndpointId} {rt : LocalRuntime P N Ib}
  {actor actor' : LocalActor P Ib}

omit [Party P] [Transport N] [Registry N Ib] in
theorem concerned_elsewhere (hdenied : actor.allowlist.allows endpoint = false)
    (hquiet : ∀ p, p.endpoint = endpoint → (actor.peer p).state.live = false ∧
      (actor.peer p).ackDue = none ∧ (actor.peer p).turnDue = none)
    {waited : Waited} {p : Address} (hp : Concerned actor waited p) : p.endpoint ≠ endpoint := by
  intro hendpoint
  obtain ⟨hlive, hack, hturn⟩ := hquiet p hendpoint
  rcases hp with hp | ⟨kind, due, hdue⟩ | ⟨delivery, -, rfl, hok⟩
  · cases hlive.symm.trans hp
  · have harmed := LocalActor.earliestDue_armed hdue
    rw [hack, hturn] at harmed
    simp at harmed
  · rw [hendpoint, hdenied] at hok
    cases hok

theorem avoids_step (hactor : rt.actors name = some actor) {waited : Waited}
    (hactor' : (rt.step name waited).rt.actors name = some actor')
    (hdenied : actor.allowlist.allows endpoint = false)
    (hquiet : ∀ p, p.endpoint = endpoint → (actor.peer p).state.live = false ∧
      (actor.peer p).ackDue = none ∧ (actor.peer p).turnDue = none) :
    Avoids name endpoint rt (.Step name waited) actor actor' := by
  obtain ⟨hallowlist, hothers⟩ := step_others hactor hactor'
  refine ⟨?_, fun p hp => hothers p fun hconcerned => ?_, fun e he => ?_⟩
  · rw [hallowlist]
    exact hdenied
  · exact concerned_elsewhere hdenied hquiet hconcerned hp
  · exact (step_within hactor waited e he).imp fun p => concerned_elsewhere hdenied hquiet

theorem avoids_revoke (hactor : rt.actors name = some actor) {endpoint' : EndpointId}
    (hactor' : (rt.revoke name endpoint').rt.actors name = some actor')
    (hdenied : actor.allowlist.allows endpoint = false)
    (hquiet : ∀ p, p.endpoint = endpoint → (actor.peer p).state.live = false) :
    Avoids name endpoint rt (.Revoke name endpoint') actor actor' := by
  have helsewhere : ∀ p ∈ actor.affected (· = endpoint'), p.endpoint ≠ endpoint := by
    intro p hp hendpoint
    cases (hquiet p hendpoint).symm.trans (LocalActor.mem_affected.mp hp).1
  obtain ⟨revoked, hrevoked, hran⟩ := revoke_revoked hactor endpoint'
  rw [hran, setActor_self] at hactor'
  cases hactor'
  refine ⟨?_, fun p hp => hrevoked.others p fun hmem => helsewhere p hmem hp, fun e he => ?_⟩
  · rw [hrevoked.allowlist, Allowlist.allows_revoke, hdenied, Bool.and_false]
  · simp only [exec, revoke, hactor] at he
    obtain ⟨peer, hpeer, hfailure⟩ := failEach_failure he
    exact hfailure.within.imp fun p hp => hp ▸ helsewhere peer hpeer

theorem avoids_exec {call : Call P N} (hname : call.name = some name)
    (hactor : rt.actors name = some actor) (hactor' : (rt.exec call).1.actors name = some actor')
    (hadmits : call ≠ .Admit name endpoint) (hdenied : actor.allowlist.allows endpoint = false)
    (hquiet : ∀ p, p.endpoint = endpoint → (actor.peer p).state.live = false ∧
      (actor.peer p).ackDue = none ∧ (actor.peer p).turnDue = none) :
    Avoids name endpoint rt call actor actor' := by
  cases call with
  | Install _ _ _ _ | InstallParty _ _ _ _ | Admit _ _ | Rehash _ _ =>
    obtain ⟨managed, hmanaged⟩ := exec_managed hactor hname (by simp) (by simp)
    cases hactor'.symm.trans hmanaged.installed
    refine ⟨(hmanaged.allowlist endpoint hadmits).trans hdenied, fun p _ => hmanaged.peers p,
      fun e he => ?_⟩
    rw [hmanaged.silent] at he
    cases he
  | Elsewhere _ _ => cases hname
  | Revoke _ endpoint' =>
    cases hname
    exact avoids_revoke hactor hactor' hdenied fun p hp => (hquiet p hp).1
  | Step _ waited =>
    cases hname
    exact avoids_step hactor hactor' hdenied hquiet

end

theorem barred_exec {name : ActorName} {endpoint : EndpointId} {rt : LocalRuntime P N Ib}
    {call : Call P N} (h : Barred name endpoint rt) (hlasts : Lasts name endpoint rt call) :
    Barred name endpoint (rt.exec call).1 ∧ Undisturbed name endpoint rt call := by
  obtain ⟨actor, hactor, hdenied, hquiet⟩ := h
  obtain ⟨actor', hactor'⟩ := Option.isSome_iff_exists.mp hlasts.2
  -- It is enough that the call leaves the peers there alone, and what it reaches is elsewhere.
  have hframe : actor'.allowlist.allows endpoint = false →
      (∀ p, p.endpoint = endpoint → actor'.peer p = actor.peer p) →
      (∀ e ∈ (rt.exec call).2, ¬ e.Calls (rt.address name) endpoint) →
      (∀ waited, call = .Step name waited → ∀ e ∈ (rt.exec call).2, ¬ e.SendsTo endpoint) →
      Barred name endpoint (rt.exec call).1 ∧ Undisturbed name endpoint rt call := by
    intro hdenied' hpeers hcalls hsends
    refine ⟨⟨actor', hactor', hdenied', fun p hp => by rw [hpeers p hp]; exact hquiet p hp⟩,
      hcalls, hsends, fun actor₁ actor₂ h₁ h₂ => ?_⟩
    cases hactor.symm.trans h₁
    cases hactor'.symm.trans h₂
    exact hpeers
  by_cases hname : call.name = some name
  · have havoids := avoids_exec hname hactor hactor' hlasts.1 hdenied hquiet
    refine hframe havoids.denied havoids.peers (fun e he hcalls => ?_) fun _ _ e he hsends => ?_
    · obtain ⟨-, p, hp, hendpoint⟩ := (havoids.effects e he).calls hcalls
      exact hp hendpoint
    · obtain ⟨p, hp, hendpoint⟩ := (havoids.effects e he).sendsTo hsends
      exact hp hendpoint
  · have hsame : actor' = actor := by
      rcases exec_installed hactor call hname with hkept | hstopped
      · exact Option.some.inj (hactor'.symm.trans hkept)
      · cases hactor'.symm.trans hstopped
    subst hsame
    refine hframe hdenied (fun _ _ => rfl) (fun e he hcalls => ?_) fun waited hcall => ?_
    · obtain ⟨name', hname', hwithin⟩ := exec_here rt call e he
      have haddress : rt.address name = rt.address name' := (hwithin.calls hcalls).1
      exact hname (hname'.trans (congrArg (some ∘ Address.name) haddress.symm))
    · rw [hcall] at hname
      exact absurd rfl hname

omit [Transport N] [Registry N Ib] in
theorem revoked_peers (actor : LocalActor P Ib) (endpoint : EndpointId) {actor' : LocalActor P Ib}
    (h : Revoked actor endpoint (actor.affected (· = endpoint)) actor') {p : Address}
    (hp : p.endpoint = endpoint) : (actor'.peer p).state.live = false := by
  by_cases hmem : p ∈ actor.affected (· = endpoint)
  · rw [h.failed p hmem]
    rfl
  · rw [h.others p hmem]
    cases hlive : (actor.peer p).state.live with
    | false => rfl
    | true => exact absurd (LocalActor.mem_affected.mpr ⟨hlive, by simpa using hp⟩) hmem

/-- A revocation fails the live exchanges with the endpoint, each once and with one report and one
notification, and leaves everything else alone. A second one does nothing. And until the endpoint is
admitted again or the actor is stopped, nothing of the actor reaches a peer there. -/
theorem revocation_complete {rt : LocalRuntime P N Ib} (hfresh : rt.Fresh) (calls : List (Call P N))
    {name : ActorName} {actor : LocalActor P Ib} (hactor : (rt.after calls).actors name = some actor)
    (endpoint : EndpointId) :
    ∃ peers actor', peers.Nodup ∧
      (∀ p, p ∈ peers ↔ (actor.peer p).state.live = true ∧ p.endpoint = endpoint) ∧
      Revoked actor endpoint peers actor' ∧
      (rt.after calls).revoke name endpoint =
        ⟨.ok peers.length, (rt.after calls).setActor name actor',
          peers.flatMap ((rt.after calls).failureOf name actor .Revoked)⟩ ∧
      ((rt.after calls).setActor name actor').revoke name endpoint =
        ⟨.ok 0, (rt.after calls).setActor name actor', []⟩ ∧
      ∀ more, Run.Along next (Lasts name endpoint) ((rt.after calls).setActor name actor') more →
        Run.Along next (Undisturbed name endpoint) ((rt.after calls).setActor name actor') more := by
  obtain ⟨actor', hrevoked, hran⟩ := revoke_revoked hactor endpoint
  have hactor' : ((rt.after calls).setActor name actor').actors name = some actor' := setActor_self ..
  have hquiet : ∀ p, p.endpoint = endpoint → (actor'.peer p).state.live = false :=
    fun p hp => revoked_peers actor endpoint hrevoked hp
  refine ⟨actor.affected (· = endpoint), actor', Assoc.keysWhere_nodup .., fun p => ?_, hrevoked, hran,
    ?_, fun more hlasts => ?_⟩
  · rw [LocalActor.mem_affected, decide_eq_true_eq]
  · have hnone : actor'.affected (· = endpoint) = [] :=
      LocalActor.affected_eq_nil.mpr fun p hp => hquiet p (by simpa using hp)
    have hlisted : ({ actor' with allowlist := actor'.allowlist.revoke endpoint } :
        LocalActor P Ib) = actor' := by
      have hlist : actor'.allowlist.revoke endpoint = actor'.allowlist := by
        rw [hrevoked.allowlist]
        simp only [Allowlist.revoke, Finset.erase_idem]
      rw [hlist]
    simp only [revoke, hactor', hlisted, hnone, failEach, List.length_nil]
    rw [setActor_eq_self _ hactor']
  · have hbarred : Barred name endpoint ((rt.after calls).setActor name actor') := by
      refine ⟨actor', hactor', by simp [hrevoked.allowlist], fun p hp => ⟨hquiet p hp, ?_⟩⟩
      by_cases hmem : p ∈ actor.affected (· = endpoint)
      · rw [hrevoked.failed p hmem]
        exact ⟨rfl, rfl⟩
      · have hwaiting := waiting_after (hfresh.each _) calls name actor hactor p
        rw [← hrevoked.others p hmem] at hwaiting
        refine ⟨?_, ?_⟩ <;> by_contra harmed
        · cases (hquiet p hp).symm.trans (hwaiting.live (Or.inl (Option.isSome_iff_ne_none.mpr harmed)))
        · cases (hquiet p hp).symm.trans (hwaiting.live (Or.inr (Option.isSome_iff_ne_none.mpr harmed)))
    exact Run.along_of_invariant next (I := Barred name endpoint) (fun _ _ h hok => (barred_exec h hok).1)
      (fun _ _ h hok => (barred_exec h hok).2) _ more hbarred hlasts

end

open Sample

/-- Alice has a live exchange with Bob, with Dave at the same endpoint, and with Carol. -/
def alicesCalls : List (Call Empty Shared) :=
  [.Install alice.name ((Allowlist.empty.admitEndpoint bob.endpoint).admitEndpoint carol.endpoint)
      patience .Plain,
    .Step alice.name (opened alice bob 1), .Step alice.name (opened alice dave 2),
    .Step alice.name (opened alice carol 3)]

def alicesRuntime : LocalRuntime Empty Shared MemoryInbox :=
  (LocalRuntime.new alice.endpoint .new 0 patience).setObserver

/-- Then Bob opens again, and his endpoint dies. -/
theorem revocation_complete_alice :
    ∃ peers : List Address, bob ∈ peers ∧ dave ∈ peers ∧ carol ∉ peers ∧
      ((alicesRuntime.after alicesCalls).revoke alice.name bob.endpoint).result = .ok peers.length ∧
      Run.Along next (Undisturbed alice.name bob.endpoint)
        ((alicesRuntime.after alicesCalls).revoke alice.name bob.endpoint).rt
        [.Step alice.name (opened alice bob 4), .Step alice.name (.PeerDeath bob.endpoint)] := by
  obtain ⟨actor, hactor⟩ :
      ∃ actor, (alicesRuntime.after alicesCalls).actors alice.name = some actor := ⟨_, rfl⟩
  obtain ⟨peers, actor', -, hpeers, -, hran, -, hlater⟩ :=
    revocation_complete ⟨fun _ => rfl, rfl⟩ alicesCalls hactor bob.endpoint
  have hlive : (((alicesRuntime.after alicesCalls).actors alice.name).any fun actor =>
      (actor.peer bob).state.live && (actor.peer dave).state.live) = true := by decide +kernel
  rw [hactor, Option.any_some, Bool.and_eq_true] at hlive
  have hrt : ((alicesRuntime.after alicesCalls).revoke alice.name bob.endpoint).rt =
      (alicesRuntime.after alicesCalls).setActor alice.name actor' := by rw [hran]
  refine ⟨peers, (hpeers _).mpr ⟨hlive.1, rfl⟩, (hpeers _).mpr ⟨hlive.2, rfl⟩, fun h => ?_,
    congrArg (·.result) hran, ?_⟩
  · exact absurd ((hpeers _).mp h).2 (by decide)
  · rw [hrt]
    refine hlater _ ?_
    rw [← hrt]
    refine ⟨⟨by simp, ?_⟩, ⟨by simp, ?_⟩, trivial⟩ <;> decide +kernel

end LocalRuntime

end Kamiroh
