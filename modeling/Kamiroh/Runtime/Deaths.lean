import Mathlib.Data.Finset.Card
import Kamiroh.Runtime.Conversations

/-!
# Deaths: tombstones, sweeps, and what the watch has not reported yet
-/

namespace Kamiroh

variable {P N Ib : Type} [Party P] [Transport N] [Registry N Ib]

namespace LocalRuntime

/-! ## Frames of a call -/

omit [Party P] [Transport N] in
theorem installInner_of_ne (rt : LocalRuntime P N Ib) {name name' : ActorName} (allowlist : Allowlist)
    (deadlines : Deadlines) (kind : ActorKind) (party : Option (Boxed P)) (h : name' ≠ name) :
    (rt.installInner name allowlist deadlines kind party).rt.actors name' = rt.actors name' := by
  unfold installInner
  split
  · rfl
  · split
    · rfl
    · exact setActor_of_ne _ _ h

omit [Party P] [Transport N] in
theorem installInner_installed {rt : LocalRuntime P N Ib} {name name' : ActorName}
    {actor : LocalActor P Ib} (h : rt.actors name' = some actor) (allowlist : Allowlist)
    (deadlines : Deadlines) (kind : ActorKind) (party : Option (Boxed P)) :
    (rt.installInner name allowlist deadlines kind party).rt.actors name' = some actor := by
  by_cases hname : name' = name
  · subst hname
    rw [installInner, if_pos (by rw [h]; rfl)]
    exact h
  · rw [installInner_of_ne rt _ _ _ _ hname, h]

omit [Party P] [Transport N] in
theorem execute_installed {rt : LocalRuntime P N Ib} {name : ActorName} {actor : LocalActor P Ib}
    (h : rt.actors name = some actor) (command : Harness) (controller : Address) :
    (rt.execute command controller).rt.actors name = some actor ∨
      (rt.execute command controller).rt.actors name = none := by
  cases command with
  | Ping | Spawned _ | Stopped _ | Pong | Failed _ => exact Or.inl h
  | Spawn name' =>
    simp only [execute]
    split <;> exact Or.inl (installInner_installed h ..)
  | Stop name' =>
    simp only [execute]
    split
    · by_cases hname : name = name'
      · subst hname
        exact Or.inr (Function.update_self ..)
      · exact Or.inl ((Function.update_of_ne hname ..).trans h)
    · exact Or.inl h

theorem exec_installed {rt : LocalRuntime P N Ib} {name : ActorName} {actor : LocalActor P Ib}
    (h : rt.actors name = some actor) (call : Call P N) (hname : call.name ≠ some name) :
    (rt.exec call).1.actors name = some actor ∨ (rt.exec call).1.actors name = none := by
  have hframed := exec_framed rt call
  generalize (rt.exec call).1 = rt' at hframed
  rcases hframed with _ | _ | ⟨_, _, _, _, _⟩ | ⟨name', hname', _, _, _, _⟩ | ⟨_, delivery, _, command, _⟩
  · exact Or.inl h
  · exact Or.inl h
  · exact Or.inl (installInner_installed h ..)
  · have hne : name ≠ name' := fun he => hname (by rw [hname', he])
    exact Or.inl ((setActor_of_ne _ _ hne).trans h)
  · have hheard : (rt.heardFrom delivery.origin.endpoint).actors name = some actor := h
    exact execute_installed hheard command delivery.origin

/-- What a call of the owner, neither a revocation nor a step, makes of the actor. -/
structure Managed (rt : LocalRuntime P N Ib) (name : ActorName) (actor : LocalActor P Ib)
    (call : Call P N) (actor' : LocalActor P Ib) : Prop where
  installed : (rt.exec call).1.actors name = some actor'
  peers : ∀ p, actor'.peer p = actor.peer p
  allowlist : ∀ endpoint, call ≠ .Admit name endpoint →
    actor'.allowlist.allows endpoint = actor.allowlist.allows endpoint
  silent : (rt.exec call).2 = []

theorem exec_managed {rt : LocalRuntime P N Ib} {name : ActorName} {actor : LocalActor P Ib}
    (hactor : rt.actors name = some actor) {call : Call P N} (hname : call.name = some name)
    (hrevoke : ∀ endpoint, call ≠ .Revoke name endpoint) (hstep : ∀ waited, call ≠ .Step name waited) :
    ∃ actor', Managed rt name actor call actor' := by
  cases call with
  | Install _ _ _ _ | InstallParty _ _ _ _ =>
    exact ⟨actor, installInner_installed hactor .., fun _ => rfl, fun _ _ => rfl,
      installInner_effects ..⟩
  | Elsewhere _ _ => cases hname
  | Admit _ admitted =>
    cases hname
    refine ⟨{ actor with allowlist := actor.allowlist.admitEndpoint admitted }, ?_, fun _ => rfl,
      fun endpoint hother => ?_, ?_⟩
    · simp only [exec, admitEndpoint, hactor, setActor_self]
    · have hne : endpoint ≠ admitted := fun h => hother (by rw [h])
      simp [hne]
    · simp only [exec, admitEndpoint, hactor]
  | Rehash _ conversations =>
    cases hname
    by_cases hperm : conversations.entries.Perm actor.conversations.entries
    · refine ⟨{ actor with conversations }, ?_, fun p => ?_, fun _ _ => rfl, rfl⟩
      · simp only [exec, rehash, hactor, if_pos hperm, setActor_self]
      · simp only [LocalActor.peer, AList.perm_lookup hperm]
    · refine ⟨actor, ?_, fun _ => rfl, fun _ _ => rfl, rfl⟩
      simp only [exec, rehash, hactor, if_neg hperm]
  | Revoke _ endpoint =>
    cases hname
    exact absurd rfl (hrevoke endpoint)
  | Step _ waited =>
    cases hname
    exact absurd rfl (hstep waited)

/-! ## Tombstones -/

omit [Party P] [Transport N] in
@[simp] theorem installInner_dead (rt : LocalRuntime P N Ib) (name : ActorName)
    (allowlist : Allowlist) (deadlines : Deadlines) (kind : ActorKind) (party : Option (Boxed P)) :
    (rt.installInner name allowlist deadlines kind party).rt.dead = rt.dead := by
  unfold installInner
  split
  · rfl
  · split <;> rfl

omit [Party P] [Transport N] in
@[simp] theorem execute_dead (rt : LocalRuntime P N Ib) (command : Harness) (controller : Address) :
    (rt.execute command controller).rt.dead = rt.dead := by
  cases command with
  | Ping | Spawned _ | Stopped _ | Pong | Failed _ => rfl
  | Spawn name =>
    simp only [execute]
    split <;> exact installInner_dead ..
  | Stop name =>
    simp only [execute]
    split <;> rfl

theorem Delivered.dead {rt : LocalRuntime P N Ib} {name : ActorName} {actor : LocalActor P Ib}
    (hactor : rt.actors name = some actor) {delivery : Delivery} {ran : Ran P N Ib Outcome}
    (h : Delivered rt name actor delivery ran) : ran.rt.dead = rt.dead := by
  obtain ⟨net, ⟨actor', hrt⟩ | ⟨command, hrt⟩⟩ := h.frame hactor
  · rw [hrt]
    rfl
  · rw [hrt]
    exact execute_dead ..

theorem step_heard {rt : LocalRuntime P N Ib} {name : ActorName} {actor : LocalActor P Ib}
    (hactor : rt.actors name = some actor) (hquiet : actor.affected (· ∈ rt.dead) = [])
    (delivery : Delivery) :
    (rt.step name (.Delivery (some delivery))).rt.dead = rt.dead.erase delivery.origin.endpoint := by
  have hheard : (rt.heardFrom delivery.origin.endpoint).actors name = some actor := hactor
  rw [step_delivery rt hactor hquiet]
  exact (deliver_delivered rt name actor delivery).dead hheard

theorem exec_dead (rt : LocalRuntime P N Ib) (call : Call P N) :
    (rt.exec call).1.dead = rt.dead ∨
      ∃ name waited, call = .Step name waited ∧ (rt.exec call).1.dead = buried rt.dead waited := by
  have hframed := exec_framed rt call
  generalize (rt.exec call).1 = rt' at hframed
  rcases hframed with _ | _ | _ | ⟨name, _, _, hdead, _, _⟩ | ⟨name, delivery, hcall, command, _⟩
  · exact Or.inl rfl
  · exact Or.inl rfl
  · exact Or.inl (installInner_dead ..)
  · rcases hdead with rfl | ⟨waited, hcall, rfl⟩
    · exact Or.inl rfl
    · exact Or.inr ⟨name, waited, hcall, rfl⟩
  · exact Or.inr ⟨name, _, hcall, execute_dead ..⟩

theorem mem_buried {dead : Finset EndpointId} {endpoint : EndpointId} {waited : Waited}
    (h : endpoint ∈ dead) (hheard : ∀ delivery, waited = .Delivery (some delivery) →
      delivery.origin.endpoint ≠ endpoint) : endpoint ∈ buried dead waited := by
  rcases waited with ⟨_ | delivery⟩ | _ | endpoint'
  · exact h
  · exact Finset.mem_erase.mpr ⟨(hheard delivery rfl).symm, h⟩
  · exact h
  · exact Finset.mem_insert_of_mem h

theorem notMem_buried {dead : Finset EndpointId} {endpoint : EndpointId} {waited : Waited}
    (h : endpoint ∉ dead) (hreport : waited ≠ .PeerDeath endpoint) :
    endpoint ∉ buried dead waited := by
  rcases waited with ⟨_ | delivery⟩ | _ | endpoint'
  · exact h
  · exact fun hmem => h (Finset.mem_of_mem_erase hmem)
  · exact h
  · rw [buried, Finset.mem_insert, not_or]
    exact ⟨fun he => hreport (by rw [he]), h⟩

theorem exec_stands {rt : LocalRuntime P N Ib} {endpoint : EndpointId} (h : endpoint ∈ rt.dead)
    (call : Call P N)
    (hcall : ∀ name delivery, call = .Step name (.Delivery (some delivery)) →
      delivery.origin.endpoint ≠ endpoint) : endpoint ∈ (rt.exec call).1.dead := by
  rcases exec_dead rt call with hdead | ⟨name, waited, rfl, hdead⟩
  · rw [hdead]
    exact h
  · rw [hdead]
    exact mem_buried h fun delivery hwaited => hcall name delivery (by rw [hwaited])

/-! ## Quiet actors -/

section

/-- The actor has no live exchange with a dead endpoint, so its next step has nothing to sweep. -/
def Quiet (rt : LocalRuntime P N Ib) (name : ActorName) : Prop :=
  ∀ actor, rt.actors name = some actor → actor.affected (· ∈ rt.dead) = []

variable {rt : LocalRuntime P N Ib} {name : ActorName} {actor : LocalActor P Ib}

omit [Party P] [Transport N] [Registry N Ib] in
theorem Quiet.of_subset (h : rt.Quiet name) (hactor : rt.actors name = some actor)
    {rt' : LocalRuntime P N Ib} {actor' : LocalActor P Ib} (hactor' : rt'.actors name = some actor')
    (hless : ∀ p, p.endpoint ∈ rt'.dead → (actor'.peer p).state.live = true →
      p.endpoint ∈ rt.dead ∧ (actor.peer p).state.live = true) : rt'.Quiet name := by
  intro actor'' hactor''
  rw [hactor'] at hactor''
  cases hactor''
  refine LocalActor.affected_eq_nil.mpr fun p hp => ?_
  cases hlive : (actor'.peer p).state.live with
  | false => rfl
  | true =>
    obtain ⟨hdead, hlive'⟩ := hless p (by simpa using hp) hlive
    have hnot := LocalActor.affected_eq_nil.mp (h actor hactor) p (by simpa using hdead)
    rw [hlive'] at hnot
    cases hnot

/-- Hearing from an endpoint can bring an exchange to life, and the tombstone goes at the same time. -/
theorem Quiet.deliver (h : rt.Quiet name) (hactor : rt.actors name = some actor)
    {delivery : Delivery} (hheard : delivery.origin.endpoint ∉ rt.dead) {ran : Ran P N Ib Outcome}
    (hran : Delivered rt name actor delivery ran) : ran.rt.Quiet name := by
  have hdead := hran.dead hactor
  have hsame : ran.rt.actors name = some actor ∨ ran.rt.actors name = none → ran.rt.Quiet name := by
    rintro (hactor' | hnone)
    · refine h.of_subset hactor hactor' fun p hp hlive => ⟨?_, hlive⟩
      rwa [hdead] at hp
    · intro actor' hactor'
      rw [hnone] at hactor'
      cases hactor'
  rcases hran with _ | _ | ⟨_, ack, _⟩ | _ | ⟨_, harness, _, _, reply, _⟩ | ⟨_, harness, _, _, _⟩ |
    ⟨_, turn, _, ran, hran⟩
  · exact hsame (Or.inl hactor)
  · refine hsame (Or.inl ?_)
    simp only [sendAndReturn, send_rt, hactor]
  · refine h.of_subset hactor (setActor_self ..) fun p hp hlive => ⟨hp, ?_⟩
    rw [LocalActor.peer_modify actor _ p _ rfl] at hlive
    split at hlive
    · rename_i he
      rwa [he, ← PeerState.settleAck_state]
    · exact hlive
  · refine hsame (Or.inl ?_)
    simp only [sendAndReturn, send_rt, hactor]
  · refine hsame ?_
    simp only [sendAndReturn, send_rt]
    exact execute_installed hactor harness delivery.origin
  · exact hsame (execute_installed hactor harness delivery.origin)
  · obtain ⟨net, actor', hrt, hretook, -⟩ := hran.retook
    simp only [hrt] at hdead ⊢
    refine h.of_subset hactor (setActor_self ..) fun p hp hlive => ⟨hp, ?_⟩
    have hne : p ≠ delivery.origin := fun he => hheard (by rw [← he]; exact hp)
    rwa [hretook.others p hne] at hlive

theorem Quiet.step (h : rt.Quiet name) (waited : Waited) : (rt.step name waited).rt.Quiet name := by
  cases hactor : rt.actors name with
  | none =>
    simp only [LocalRuntime.step, hactor]
    exact h
  | some actor =>
    have hquiet := h actor hactor
    have hdid := step_did hactor waited
    generalize rt.step name waited = ran at hdid
    rcases hdid with ⟨_, endpoint, hdead, hlive, _, rfl⟩ | ⟨endpoint, _, _, rfl⟩ |
      ⟨_, peer, kind, due, hdue, _, rfl⟩ | _ | _ | ⟨_, delivery, ran, hran⟩
    · exact absurd (LocalActor.affected_of_quiet hquiet hdead) hlive
    · refine h.of_subset hactor (setActor_self ..) fun p hp hlive => ?_
      rw [failEach_peer] at hlive
      split at hlive
      · simp at hlive
      · rename_i hpout
        rcases Finset.mem_insert.mp hp with he | hdead
        · exact absurd (LocalActor.mem_affected.mpr ⟨hlive, by simp [he]⟩) hpout
        · exact ⟨hdead, hlive⟩
    · refine h.of_subset hactor (setActor_self ..) fun p hp hlive => ⟨hp, ?_⟩
      rw [LocalActor.failExchange_peer] at hlive
      split at hlive
      · simp at hlive
      · exact hlive
    · exact h
    · exact h
    · have hheard : (rt.heardFrom delivery.origin.endpoint).Quiet name :=
        h.of_subset hactor hactor fun p hp hlive => ⟨Finset.mem_of_mem_erase hp, hlive⟩
      exact hheard.deliver hactor (Finset.notMem_erase _ _) hran

end

/-! ## A reported death reaches every actor -/

def liveEndpoints (actor : LocalActor P Ib) : Finset EndpointId :=
  actor.livePeers.image (·.endpoint)

omit [Party P] [Transport N] [Registry N Ib] in
theorem mem_liveEndpoints {actor : LocalActor P Ib} {endpoint : EndpointId} :
    endpoint ∈ liveEndpoints actor ↔
      ∃ p, (actor.peer p).state.live = true ∧ p.endpoint = endpoint := by
  simp [liveEndpoints, LocalActor.mem_livePeers]

omit [Transport N] [Registry N Ib] in
theorem liveEndpoints_failEach (rt : LocalRuntime P N Ib) (name : ActorName)
    (actor : LocalActor P Ib) (cause : FailureCause) (endpoint : EndpointId) :
    liveEndpoints (rt.failEach name actor cause (actor.affected (· = endpoint))).1 =
      (liveEndpoints actor).erase endpoint := by
  ext e
  simp only [Finset.mem_erase, mem_liveEndpoints, failEach_peer, LocalActor.mem_affected,
    decide_eq_true_eq]
  constructor
  · rintro ⟨p, hp, rfl⟩
    split at hp
    · simp at hp
    · rename_i hout
      exact ⟨fun he => hout ⟨hp, he⟩, p, hp, rfl⟩
  · rintro ⟨hne, p, hp, rfl⟩
    refine ⟨p, ?_, rfl⟩
    rw [if_neg fun h => hne h.2]
    exact hp

/-- The actor's exchange with the peer is live, and the peer's endpoint has a tombstone. -/
def Doomed (name : ActorName) (peer : Address) (rt : LocalRuntime P N Ib) : Prop :=
  peer.endpoint ∈ rt.dead ∧
    ∃ actor, rt.actors name = some actor ∧ (actor.peer peer).state.live = true

def liveCount (name : ActorName) (rt : LocalRuntime P N Ib) : Nat :=
  (rt.actors name).elim 0 fun actor => (liveEndpoints actor).card

/-- The call takes no delivery from the endpoint, and neither cuts the endpoint off the actor nor
stops the actor. -/
structure Spares (name : ActorName) (endpoint : EndpointId) (rt : LocalRuntime P N Ib)
    (call : Call P N) : Prop where
  delivery : ∀ name' delivery, call = .Step name' (.Delivery (some delivery)) →
    delivery.origin.endpoint ≠ endpoint
  revoke : call ≠ .Revoke name endpoint
  installed : (rt.exec call).1.actors name ≠ none

def Disconnects (name : ActorName) (peer : Address) (rt : LocalRuntime P N Ib) (call : Call P N) :
    Prop :=
  ∃ before : TurnState, before.live = true ∧
    .Failed (rt.address name) peer before .Disconnected ∈ (rt.exec call).2

def stepsOn (name : ActorName) : Call P N → Bool
  | .Step name' _ => name' = name
  | _ => false

omit [Party P] [Transport N] [Registry N Ib] in
theorem doomed_of_actor {name : ActorName} {peer : Address} {rt rt' : LocalRuntime P N Ib}
    {actor actor' : LocalActor P Ib} (hactor : rt.actors name = some actor)
    (hdead : peer.endpoint ∈ rt'.dead) (hactor' : rt'.actors name = some actor')
    (hlive : (actor'.peer peer).state.live = true) (hless : actor'.livePeers ⊆ actor.livePeers) :
    Doomed name peer rt' ∧ liveCount name rt' ≤ liveCount name rt := by
  refine ⟨⟨hdead, actor', hactor', hlive⟩, ?_⟩
  rw [liveCount, liveCount, hactor, hactor']
  exact Finset.card_le_card (Finset.image_subset_image hless)

theorem exec_doomed {name : ActorName} {peer : Address} {rt : LocalRuntime P N Ib}
    {actor : LocalActor P Ib} (hactor : rt.actors name = some actor) (hdead : peer.endpoint ∈ rt.dead)
    (hlive : (actor.peer peer).state.live = true) {waited : Waited}
    (hnot : ¬ Disconnects name peer rt (.Step name waited)) :
    ∃ endpoint ∈ rt.dead, actor.affected (· = endpoint) ≠ [] ∧ peer.endpoint ≠ endpoint ∧
      rt.step name waited =
        ⟨.Returned (.ok (.PeerVanished endpoint (actor.affected (· = endpoint)).length)),
          rt.setActor name (rt.failEach name actor .Disconnected (actor.affected (· = endpoint))).1,
          (rt.failEach name actor .Disconnected (actor.affected (· = endpoint))).2⟩ := by
  have hloud : actor.affected (· ∈ rt.dead) ≠ [] :=
    List.ne_nil_of_mem (LocalActor.mem_affected.mpr ⟨hlive, by simpa using hdead⟩)
  obtain ⟨endpoint, hswept, haffected, hstep⟩ := step_swept hactor hloud waited
  refine ⟨endpoint, hswept, haffected, fun he => hnot ⟨_, hlive, ?_⟩, hstep⟩
  simp only [exec, hstep]
  exact failEach_failed rt name actor _ _ (LocalActor.mem_affected.mpr ⟨hlive, by simp [he]⟩) hlive

/-- A doomed exchange stays doomed until it is failed, and each step of its actor sweeps another
endpoint. -/
theorem doomed_exec {name : ActorName} {peer : Address} {rt : LocalRuntime P N Ib} {call : Call P N}
    (h : Doomed name peer rt) (hspares : Spares name peer.endpoint rt call)
    (hnot : ¬ Disconnects name peer rt call) :
    Doomed name peer (rt.exec call).1 ∧
      liveCount name (rt.exec call).1 + (if stepsOn name call then 1 else 0) ≤ liveCount name rt := by
  obtain ⟨hdead, actor, hactor, hlive⟩ := h
  have hdead' := exec_stands hdead call hspares.delivery
  have hkept : ∀ actor' : LocalActor P Ib, (rt.exec call).1.actors name = some actor' →
      (∀ p, actor'.peer p = actor.peer p) → stepsOn name call = false →
      Doomed name peer (rt.exec call).1 ∧
        liveCount name (rt.exec call).1 + (if stepsOn name call then 1 else 0) ≤ liveCount name rt := by
    intro actor' hactor' hpeers hsteps
    rw [hsteps]
    refine doomed_of_actor hactor hdead' hactor' (by rw [hpeers]; exact hlive) fun p hp => ?_
    rw [LocalActor.mem_livePeers] at hp ⊢
    rwa [← hpeers]
  by_cases hname : call.name = some name
  · cases call with
    | Install _ _ _ _ | InstallParty _ _ _ _ | Admit _ _ | Rehash _ _ =>
      obtain ⟨actor', hmanaged⟩ := exec_managed hactor hname (by simp) (by simp)
      exact hkept actor' hmanaged.installed hmanaged.peers rfl
    | Elsewhere _ _ => cases hname
    | Revoke _ endpoint =>
      cases hname
      have hne : peer.endpoint ≠ endpoint := fun he => hspares.revoke (by rw [he])
      simp only [exec, revoke, hactor, stepsOn, Bool.false_eq_true, if_false, Nat.add_zero] at hdead' ⊢
      refine doomed_of_actor hactor hdead' (setActor_self ..) ?_ ?_
      · rw [failEach_peer, if_neg]
        · exact hlive
        · intro hp
          have := (LocalActor.mem_affected.mp hp).2
          exact hne (by simpa using this)
      · rw [failEach_livePeers]
        exact Finset.filter_subset _ _
    | Step _ waited =>
      cases hname
      obtain ⟨endpoint, -, haffected, hne, hstep⟩ := exec_doomed hactor hdead hlive hnot
      have hout : peer ∉ actor.affected (· = endpoint) := fun hp =>
        hne (by simpa using (LocalActor.mem_affected.mp hp).2)
      obtain ⟨p, hp⟩ := List.exists_mem_of_ne_nil _ haffected
      obtain ⟨hplive, hpe⟩ := LocalActor.mem_affected.mp hp
      simp only [exec, hstep] at hdead' ⊢
      refine ⟨⟨hdead', _, setActor_self .., by rw [failEach_peer, if_neg hout]; exact hlive⟩, ?_⟩
      simp only [liveCount, hactor, setActor_self, stepsOn, decide_true, if_true, Option.elim_some,
        liveEndpoints_failEach]
      -- The swept endpoint is no longer among the live ones.
      exact Nat.succ_le_of_lt (Finset.card_erase_lt_of_mem
        (mem_liveEndpoints.mpr ⟨p, hplive, by simpa using hpe⟩))
  · have hsteps : stepsOn name call = false := by
      cases call with
      | Step name' waited =>
        have hne : name' ≠ name := fun he => hname (by rw [← he]; rfl)
        simp [stepsOn, hne]
      | _ => rfl
    rcases exec_installed hactor call hname with hactor' | hstopped
    · exact hkept actor hactor' (fun _ => rfl) hsteps
    · exact absurd hstopped hspares.installed

theorem doomed_step {name : ActorName} {peer : Address} {rt : LocalRuntime P N Ib}
    (h : Doomed name peer rt) {waited : Waited} (hnot : ¬ Disconnects name peer rt (.Step name waited)) :
    ∃ endpoint ∈ rt.dead, endpoint ≠ peer.endpoint ∧ ∃ n > 0,
      (rt.step name waited).result = .Returned (.ok (.PeerVanished endpoint n)) := by
  obtain ⟨hdead, actor, hactor, hlive⟩ := h
  obtain ⟨endpoint, hswept, haffected, hne, hstep⟩ := exec_doomed hactor hdead hlive hnot
  exact ⟨endpoint, hswept, hne.symm, _, List.length_pos_iff.mpr haffected, by rw [hstep]⟩

/-- No reported death is lost. Some step receives the report while another actor has a live exchange
there. Unless a later step takes a delivery from the dead endpoint, the exchange is failed within as
many of its actor's own steps as that actor has endpoints with live exchanges, and each of these steps
before sweeps another dead endpoint. -/
theorem death_not_lost {rt : LocalRuntime P N Ib} {name name' : ActorName}
    {actor actor' : LocalActor P Ib} {peer : Address} (hactor : rt.actors name = some actor)
    (hquiet : actor.affected (· ∈ rt.dead) = []) (hactor' : rt.actors name' = some actor')
    (hlive : (actor'.peer peer).state.live = true) (calls : List (Call P N))
    (hspares : Run.Along next (Spares name' peer.endpoint)
      (rt.next (.Step name (.PeerDeath peer.endpoint))) calls)
    (hmany : liveCount name' rt ≤ calls.countP (stepsOn name')) :
    ∃ pre call post, .Step name (.PeerDeath peer.endpoint) :: calls = pre ++ call :: post ∧
      Disconnects name' peer (rt.after pre) call ∧ pre.countP (stepsOn name') < liveCount name' rt ∧
      Run.Along next (fun rt call => ∀ waited, call = .Step name' waited →
        ∃ endpoint ∈ rt.dead, endpoint ≠ peer.endpoint ∧ ∃ n > 0,
          (rt.step name' waited).result = .Returned (.ok (.PeerVanished endpoint n))) rt pre := by
  have hpositive : ∀ (rt : LocalRuntime P N Ib) actor, rt.actors name' = some actor →
      (actor.peer peer).state.live = true → 0 < liveCount name' rt := by
    intro rt actor hactor hlive
    rw [liveCount, hactor]
    exact Finset.card_pos.mpr ⟨_, mem_liveEndpoints.mpr ⟨peer, hlive, rfl⟩⟩
  have hstep := step_reported hactor hquiet peer.endpoint
  by_cases hname : name = name'
  · -- The receiving step is the actor's own.
    subst hname
    rw [hactor] at hactor'
    cases hactor'
    refine ⟨[], _, calls, rfl, ⟨_, hlive, ?_⟩, hpositive rt actor hactor hlive, trivial⟩
    simp only [after, Run.after_nil, exec, hstep]
    exact failEach_failed (rt.reportDead peer.endpoint) name actor _ _
      (LocalActor.mem_affected.mpr ⟨hlive, by simp⟩) hlive
  · have hother : (rt.next (.Step name (.PeerDeath peer.endpoint))).actors name' = some actor' ∧
        peer.endpoint ∈ (rt.next (.Step name (.PeerDeath peer.endpoint))).dead := by
      simp only [next, exec, hstep]
      exact ⟨(setActor_of_ne (rt.reportDead peer.endpoint) _ (Ne.symm hname)).trans hactor',
        Finset.mem_insert_self ..⟩
    have hsame : liveCount name' (rt.next (.Step name (.PeerDeath peer.endpoint))) =
        liveCount name' rt := by
      rw [liveCount, liveCount, hother.1, hactor']
    obtain ⟨pre, call, post, hsplit, hgoal, hcount, halong⟩ := Run.reach_within next
      (Doomed name' peer) (Disconnects name' peer) (stepsOn name') (liveCount name')
      (fun rt call h ok hnot => doomed_exec h ok hnot)
      (fun rt h => h.2.elim fun actor h => hpositive rt actor h.1 h.2) _ calls
      ⟨hother.2, actor', hother.1, hlive⟩ hspares (hsame ▸ hmany)
    refine ⟨.Step name (.PeerDeath peer.endpoint) :: pre, call, post, by rw [hsplit]; rfl, hgoal, ?_, ?_, ?_⟩
    · rw [List.countP_cons, if_neg (by simp [stepsOn, hname])]
      omega
    · rintro waited hcall
      cases hcall
      exact absurd rfl hname
    · refine Run.along_imp next (fun rt call h waited hcall => ?_) _ pre halong
      obtain ⟨hdoomed, -, hnot⟩ := h
      subst hcall
      exact doomed_step hdoomed hnot

section

open Sample

/-- Bob has a live exchange with Alice and one with Carol, Dave has none. -/
def bobAndDave : LocalRuntime Empty Shared MemoryInbox :=
  (bobsRuntime Empty).after
    [.Install bob.name ((Allowlist.empty.admitEndpoint alice.endpoint).admitEndpoint carol.endpoint) patience .Plain,
      .Install dave.name .empty patience .Plain, .Step bob.name (opened bob alice 1),
      .Step bob.name (opened bob carol 2)]

/-- Dave hears of Alice's death, and Bob's next two steps fail his exchange with her. -/
theorem death_not_lost_bob :
    ∃ pre call post,
      [.Step dave.name (.PeerDeath alice.endpoint), .Step bob.name .DeadlineElapsed,
        .Step bob.name .DeadlineElapsed] = pre ++ call :: post ∧
      Disconnects bob.name alice (bobAndDave.after pre) call := by
  obtain ⟨bobs, hbob, hlive⟩ : ∃ actor, bobAndDave.actors bob.name = some actor ∧
      (actor.peer alice).state.live = true := ⟨_, rfl, by decide⟩
  obtain ⟨daves, hdave, hquiet⟩ : ∃ actor, bobAndDave.actors dave.name = some actor ∧
      actor.affected (· ∈ bobAndDave.dead) = [] := ⟨_, rfl, by decide⟩
  have hspares : Run.Along next (Spares bob.name alice.endpoint)
      (bobAndDave.next (.Step dave.name (.PeerDeath alice.endpoint)))
      [.Step bob.name .DeadlineElapsed, .Step bob.name .DeadlineElapsed] := by
    refine ⟨⟨?_, ?_, ?_⟩, ⟨?_, ?_, ?_⟩, trivial⟩
    all_goals first | (intro _ _ h; cases h) | (intro h; cases h)
  obtain ⟨pre, call, post, hsplit, hgoal, -⟩ :=
    death_not_lost hdave hquiet hbob hlive _ hspares (by decide)
  exact ⟨pre, call, post, hsplit, hgoal⟩

/-- Both deaths are reported to Dave, and Bob's next step fails one exchange only. Or a straggler from
Alice is taken by Dave, though he does not admit her, and Bob's next step fails none. -/
theorem death_outlives_next_step :
    let both := bobAndDave.after
      [.Step dave.name (.PeerDeath alice.endpoint), .Step dave.name (.PeerDeath carol.endpoint)]
    let straggler := bobAndDave.after
      [.Step dave.name (.PeerDeath alice.endpoint),
        .Step dave.name (.Delivery (some ⟨alice, dave, .Harness .Ping⟩))]
    ¬ (Disconnects bob.name alice both (.Step bob.name .DeadlineElapsed) ∧
      Disconnects bob.name carol both (.Step bob.name .DeadlineElapsed)) ∧
    ¬ Disconnects bob.name alice straggler (.Step bob.name (opened bob carol 3)) := by
  intro both straggler
  constructor
  · have heffects : (both.exec (.Step bob.name .DeadlineElapsed)).2 =
        [.Failed bob carol (.OweThem (request 2).id) .Disconnected,
          .Emitted (.ExchangeFailed bob carol .Disconnected)] := by decide
    rintro ⟨⟨before, -, hmem⟩, -⟩
    rw [heffects] at hmem
    have hne : alice ≠ carol := by decide
    simp [hne] at hmem
  · have heffects : (straggler.exec (.Step bob.name (opened bob carol 3))).2 =
        [.Moved bob carol (.OweThem (request 2).id) (.OweThem (request 2).id),
          .Emitted (.IllegalTurnDropped carol bob .NotTheirMove)] := by decide
    rintro ⟨before, -, hmem⟩
    rw [heffects] at hmem
    simp at hmem

end

end LocalRuntime

end Kamiroh
