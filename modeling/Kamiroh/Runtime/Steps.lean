import Kamiroh.Runtime.Basic

/-!
# What a step can do

The inversions of `step` and `takeTurn`: everything that is proved of a runtime's runs goes through
their cases.
-/

namespace Kamiroh

open TurnState

variable {P N Ib : Type}

/-! ## One conversation -/

namespace PeerState

@[simp] theorem default_state : (default : PeerState).state = .Idle := rfl
@[simp] theorem default_ackDue : (default : PeerState).ackDue = none := rfl
@[simp] theorem default_turnDue : (default : PeerState).turnDue = none := rfl

@[simp] theorem fail_state (ps : PeerState) : ps.fail.state = ps.state.fail.2 := rfl

@[simp] theorem fail_fail (ps : PeerState) : ps.fail.fail = ps.fail := by
  obtain ⟨state, ackDue, turnDue⟩ := ps
  cases state <;> rfl

theorem fail_of_live {ps : PeerState} (h : ps.state.live = true) :
    ps.fail = ⟨.Failed, none, none⟩ := by
  obtain ⟨state, ackDue, turnDue⟩ := ps
  cases state with
  | Idle | Failed => cases h
  | AwaitingTheirTurn x | OweThem x => rfl

@[simp] theorem settleAck_state (ps : PeerState) (id : RequestId) :
    (ps.settleAck id).state = ps.state := by
  unfold settleAck
  split
  · split <;> rfl
  · rfl

@[simp] theorem settleAck_turnDue (ps : PeerState) (id : RequestId) :
    (ps.settleAck id).turnDue = ps.turnDue := by
  unfold settleAck
  split
  · split <;> rfl
  · rfl

theorem settleAck_ackDue (ps : PeerState) (id : RequestId) :
    (ps.settleAck id).ackDue = ps.ackDue ∨ (ps.settleAck id).ackDue = none := by
  unfold settleAck
  split
  · split
    · exact Or.inr rfl
    · exact Or.inl rfl
  · exact Or.inl rfl

end PeerState

/-! ## One actor -/

namespace LocalActor

@[simp] theorem peer_setPeer_self (actor : LocalActor P Ib) (p : Address) (ps : PeerState) :
    (actor.setPeer p ps).peer p = ps := by
  simp [peer, setPeer]

@[simp] theorem peer_setPeer_of_ne (actor : LocalActor P Ib) {p q : Address} (ps : PeerState)
    (h : q ≠ p) : (actor.setPeer p ps).peer q = actor.peer q := by
  simp [peer, setPeer, AList.lookup_insert_ne h]

theorem peer_modify (actor : LocalActor P Ib) (p q : Address) (f : PeerState → PeerState)
    (hf : f default = default) :
    { actor with conversations := actor.conversations.modify p f }.peer q =
      if q = p then f (actor.peer p) else actor.peer q := by
  simp only [peer]
  split
  · rename_i h
    subst h
    rw [Assoc.lookup_modify_self]
    cases actor.conversations.lookup q <;> simp [hf]
  · rename_i h
    rw [Assoc.lookup_modify_of_ne _ _ h]

theorem mem_affected {actor : LocalActor P Ib} {endpoints : EndpointId → Bool} {p : Address} :
    p ∈ actor.affected endpoints ↔
      (actor.peer p).state.live = true ∧ endpoints p.endpoint = true := by
  simp only [affected, Assoc.mem_keysWhere, Bool.and_eq_true, peer]
  constructor
  · rintro ⟨ps, hps, hlive, hp⟩
    rw [hps]
    exact ⟨hlive, hp⟩
  · rintro ⟨hlive, hp⟩
    cases h : actor.conversations.lookup p with
    | none => simp [h] at hlive
    | some ps => exact ⟨ps, rfl, by simpa [h] using hlive, hp⟩

theorem affected_eq_nil {actor : LocalActor P Ib} {endpoints : EndpointId → Bool} :
    actor.affected endpoints = [] ↔
      ∀ p, endpoints p.endpoint = true → (actor.peer p).state.live = false := by
  rw [List.eq_nil_iff_forall_not_mem]
  simp only [mem_affected, not_and]
  refine forall_congr' fun p => ⟨fun h hp => ?_, fun h hlive hp => ?_⟩
  · cases hlive : (actor.peer p).state.live
    · rfl
    · exact absurd hp (h hlive)
  · rw [h hp] at hlive
    cases hlive

theorem affected_of_quiet {actor : LocalActor P Ib} {dead : Finset EndpointId}
    (hquiet : actor.affected (· ∈ dead) = []) {endpoint : EndpointId} (h : endpoint ∈ dead) :
    actor.affected (· = endpoint) = [] := by
  rw [affected_eq_nil] at hquiet ⊢
  intro p hp
  have hp : p.endpoint = endpoint := by simpa using hp
  exact hquiet p (by simpa [hp] using h)

def livePeers (actor : LocalActor P Ib) : Finset Address := (actor.affected fun _ => true).toFinset

theorem mem_livePeers {actor : LocalActor P Ib} {p : Address} :
    p ∈ actor.livePeers ↔ (actor.peer p).state.live = true := by
  simp [livePeers, mem_affected]

/-! ### Deadlines -/

theorem mem_waits {p q : Address} {ps : PeerState} {kind : DeadlineKind} {at' : Instant} :
    (q, kind, at') ∈ ps.waits p ↔
      q = p ∧ (kind = .Ack ∧ (∃ id, ps.ackDue = some (id, at')) ∨
        kind = .Turn ∧ ps.turnDue = some at') := by
  unfold PeerState.waits
  simp only [List.mem_append, Option.mem_toList, Option.map_eq_some_iff,
    Prod.mk.injEq, Prod.exists]
  constructor
  · rintro (⟨id, a, h, rfl, rfl, rfl⟩ | ⟨a, h, rfl, rfl, rfl⟩)
    · exact ⟨rfl, Or.inl ⟨rfl, id, h⟩⟩
    · exact ⟨rfl, Or.inr ⟨rfl, h⟩⟩
  · rintro ⟨rfl, ⟨rfl, id, h⟩ | ⟨rfl, h⟩⟩
    · exact Or.inl ⟨id, at', h, rfl, rfl, rfl⟩
    · exact Or.inr ⟨at', h, rfl, rfl, rfl⟩

theorem foldl_earlier_mem (waits : List (Address × DeadlineKind × Instant))
    (best : Option (Address × DeadlineKind × Instant)) (w : Address × DeadlineKind × Instant)
    (h : waits.foldl earlier best = some w) : w ∈ waits ∨ best = some w := by
  induction waits generalizing best with
  | nil => exact Or.inr h
  | cons v waits ih =>
    rcases ih _ h with hw | hw
    · exact Or.inl (List.mem_cons_of_mem v hw)
    · unfold earlier at hw
      split at hw
      · split at hw
        · cases hw
          exact Or.inl List.mem_cons_self
        · exact Or.inr hw
      · cases hw
        exact Or.inl List.mem_cons_self

theorem foldl_earlier_isSome (waits : List (Address × DeadlineKind × Instant))
    (b : Address × DeadlineKind × Instant) : (waits.foldl earlier (some b)).isSome = true := by
  induction waits generalizing b with
  | nil => rfl
  | cons v waits ih =>
    rw [List.foldl_cons, earlier]
    split
    · exact ih v
    · exact ih b

theorem foldl_earlier_le (waits : List (Address × DeadlineKind × Instant))
    (best : Option (Address × DeadlineKind × Instant)) (w : Address × DeadlineKind × Instant)
    (h : waits.foldl earlier best = some w) :
    (∀ v ∈ waits, w.2.2 ≤ v.2.2) ∧ ∀ b, best = some b → w.2.2 ≤ b.2.2 := by
  induction waits generalizing best with
  | nil =>
    refine ⟨fun v hv => (List.not_mem_nil hv).elim, fun b hb => ?_⟩
    cases h.symm.trans hb
    exact Nat.le_refl _
  | cons v waits ih =>
    obtain ⟨hwaits, hbest⟩ := ih _ h
    cases best with
    | none => exact ⟨List.forall_mem_cons.mpr ⟨hbest v rfl, hwaits⟩, fun b hb => nomatch hb⟩
    | some b =>
      simp only [earlier] at hbest
      have hboth : w.2.2 ≤ v.2.2 ∧ w.2.2 ≤ b.2.2 := by
        split at hbest
        · rename_i hlt
          exact ⟨hbest v rfl, (hbest v rfl).trans (Nat.le_of_lt hlt)⟩
        · rename_i hle
          exact ⟨(hbest b rfl).trans (Nat.le_of_not_lt hle), hbest b rfl⟩
      refine ⟨List.forall_mem_cons.mpr ⟨hboth.1, hwaits⟩, fun b' hb => ?_⟩
      cases hb
      exact hboth.2

theorem mem_pending {actor : LocalActor P Ib} {w : Address × DeadlineKind × Instant} :
    w ∈ (actor.conversations.entries.flatMap fun e => e.2.waits e.1) ↔
      w ∈ (actor.peer w.1).waits w.1 := by
  obtain ⟨p, kind, due⟩ := w
  rw [List.mem_flatMap]
  constructor
  · rintro ⟨⟨q, ps⟩, hentry, hw⟩
    obtain ⟨rfl, -⟩ := mem_waits.mp hw
    rwa [peer, AList.mem_lookup_iff.mpr hentry, Option.getD_some]
  · intro hw
    cases hp : actor.conversations.lookup p with
    | none => simp [peer, hp, PeerState.waits] at hw
    | some ps =>
      rw [peer, hp, Option.getD_some] at hw
      exact ⟨⟨p, ps⟩, AList.mem_lookup_iff.mp hp, hw⟩

theorem earliestDue_spec {actor : LocalActor P Ib} {w : Address × DeadlineKind × Instant}
    (h : actor.earliestDue = some w) :
    w ∈ (actor.peer w.1).waits w.1 ∧ ∀ v, v ∈ (actor.peer v.1).waits v.1 → w.2.2 ≤ v.2.2 := by
  refine ⟨?_, fun v hv => (foldl_earlier_le _ _ _ h).1 v (mem_pending.mpr hv)⟩
  rcases foldl_earlier_mem _ _ _ h with hmem | hmem
  · exact mem_pending.mp hmem
  · cases hmem

theorem earliestDue_armed {actor : LocalActor P Ib} {p : Address} {kind : DeadlineKind} {due : Instant}
    (h : actor.earliestDue = some (p, kind, due)) :
    (actor.peer p).ackDue.isSome = true ∨ (actor.peer p).turnDue.isSome = true := by
  obtain ⟨-, ⟨-, id, hack⟩ | ⟨-, hturn⟩⟩ := mem_waits.mp (earliestDue_spec h).1
  · exact Or.inl (by rw [hack]; rfl)
  · exact Or.inr (by rw [hturn]; rfl)

theorem unarmed_of_earliestDue_none {actor : LocalActor P Ib} (h : actor.earliestDue = none)
    (p : Address) : (actor.peer p).ackDue = none ∧ (actor.peer p).turnDue = none := by
  have hnil : (actor.conversations.entries.flatMap fun e => e.2.waits e.1) = [] := by
    rw [earliestDue] at h
    cases hw : actor.conversations.entries.flatMap fun e => e.2.waits e.1 with
    | nil => rfl
    | cons w ws =>
      rw [hw, List.foldl_cons, earlier] at h
      have hsome := foldl_earlier_isSome ws w
      rw [h] at hsome
      cases hsome
  cases hp : actor.conversations.lookup p with
  | none => simp [peer, hp]
  | some ps =>
    have hwaits : ps.waits p = [] :=
      List.flatMap_eq_nil_iff.mp hnil ⟨p, ps⟩ (AList.mem_lookup_iff.mp hp)
    simp only [PeerState.waits, List.append_eq_nil_iff, Option.toList_eq_nil_iff,
      Option.map_eq_none_iff] at hwaits
    simpa [peer, hp] using hwaits

/-! ### Handing over and failing -/

section

variable [Party P]

@[simp] theorem handOver_conversations (here : Address) (actor : LocalActor P Ib) (p : Address)
    (turn : Turn) : (actor.handOver here p turn).2.1.conversations = actor.conversations := by
  unfold handOver
  split <;> rfl

@[simp] theorem handOver_peer (here : Address) (actor : LocalActor P Ib) (p q : Address)
    (turn : Turn) : (actor.handOver here p turn).2.1.peer q = actor.peer q := by
  simp [peer]

@[simp] theorem handOver_party_isSome (here : Address) (actor : LocalActor P Ib) (p : Address)
    (turn : Turn) : (actor.handOver here p turn).2.1.party.isSome = actor.party.isSome := by
  unfold handOver
  split
  · rename_i party h
    rw [h]
    rfl
  · rfl

theorem failExchange_conversations (here : Address) (actor : LocalActor P Ib) (p : Address)
    (cause : FailureCause) :
    (actor.failExchange here p cause).1.conversations =
      actor.conversations.modify p PeerState.fail := by
  unfold failExchange
  dsimp only
  split <;> rfl

theorem failExchange_peer (here : Address) (actor : LocalActor P Ib) (p q : Address)
    (cause : FailureCause) :
    (actor.failExchange here p cause).1.peer q =
      if q = p then (actor.peer p).fail else actor.peer q := by
  have h := peer_modify actor p q PeerState.fail rfl
  simpa only [peer, failExchange_conversations] using h

theorem failExchange_snd (here : Address) (actor : LocalActor P Ib) (peer : Address)
    (cause : FailureCause) :
    (actor.failExchange here peer cause).2 =
      ((actor.conversations.lookup peer).map fun ps =>
        Effect.Failed here peer ps.state cause).toList ++
      if actor.party.isSome then [.Told here peer cause] else [] := by
  unfold failExchange
  cases actor.party <;> cases actor.conversations.lookup peer <;> rfl

theorem failExchange_livePeers (here : Address) (actor : LocalActor P Ib) (p : Address)
    (cause : FailureCause) :
    (actor.failExchange here p cause).1.livePeers = actor.livePeers.erase p := by
  ext q
  rw [Finset.mem_erase, mem_livePeers, mem_livePeers, failExchange_peer]
  by_cases hq : q = p <;> simp [hq]

@[simp] theorem failExchange_allowlist (here : Address) (actor : LocalActor P Ib) (p : Address)
    (cause : FailureCause) : (actor.failExchange here p cause).1.allowlist = actor.allowlist := by
  unfold failExchange
  dsimp only
  split <;> rfl

theorem failExchange_party (here : Address) (actor : LocalActor P Ib) (p : Address)
    (cause : FailureCause) :
    (actor.failExchange here p cause).1.party =
      actor.party.map fun party => Party.onExchangeFailed party p cause := by
  unfold failExchange
  cases hparty : actor.party with
  | none => simp
  | some party => rfl

@[simp] theorem failExchange_party_isSome (here : Address) (actor : LocalActor P Ib) (p : Address)
    (cause : FailureCause) :
    (actor.failExchange here p cause).1.party.isSome = actor.party.isSome := by
  rw [failExchange_party, Option.isSome_map]

/-- Everything of an actor is the same but its party and its conversations. -/
structure SameActor (actor actor' : LocalActor P Ib) : Prop where
  inbox : actor'.inbox = actor.inbox
  allowlist : actor'.allowlist = actor.allowlist
  kind : actor'.kind = actor.kind
  deadlines : actor'.deadlines = actor.deadlines

omit [Party P] in
theorem SameActor.refl (actor : LocalActor P Ib) : SameActor actor actor := ⟨rfl, rfl, rfl, rfl⟩

omit [Party P] in
theorem SameActor.trans {actor actor' actor'' : LocalActor P Ib} (h : SameActor actor actor')
    (h' : SameActor actor' actor'') : SameActor actor actor'' :=
  ⟨h'.inbox.trans h.inbox, h'.allowlist.trans h.allowlist, h'.kind.trans h.kind,
    h'.deadlines.trans h.deadlines⟩

omit [Party P] in
theorem SameActor.setPeer (actor : LocalActor P Ib) (p : Address) (ps : PeerState) :
    SameActor actor (actor.setPeer p ps) := ⟨rfl, rfl, rfl, rfl⟩

theorem SameActor.handOver (here : Address) (actor : LocalActor P Ib) (p : Address) (turn : Turn) :
    SameActor actor (actor.handOver here p turn).2.1 := by
  unfold LocalActor.handOver
  split <;> exact ⟨rfl, rfl, rfl, rfl⟩

theorem SameActor.failExchange (here : Address) (actor : LocalActor P Ib) (p : Address)
    (cause : FailureCause) : SameActor actor (actor.failExchange here p cause).1 := by
  unfold LocalActor.failExchange
  dsimp only
  split <;> exact ⟨rfl, rfl, rfl, rfl⟩

end

end LocalActor

/-! ## The runtime -/

namespace LocalRuntime

@[simp] theorem setActor_net (rt : LocalRuntime P N Ib) (name : ActorName)
    (actor : LocalActor P Ib) : (rt.setActor name actor).net = rt.net := rfl

@[simp] theorem setActor_self (rt : LocalRuntime P N Ib) (name : ActorName)
    (actor : LocalActor P Ib) : (rt.setActor name actor).actors name = some actor :=
  Function.update_self ..

@[simp] theorem setActor_of_ne (rt : LocalRuntime P N Ib) {name name' : ActorName}
    (actor : LocalActor P Ib) (h : name' ≠ name) :
    (rt.setActor name actor).actors name' = rt.actors name' :=
  Function.update_of_ne h ..

theorem setActor_eq_self (rt : LocalRuntime P N Ib) {name : ActorName} {actor : LocalActor P Ib}
    (h : rt.actors name = some actor) : rt.setActor name actor = rt := by
  simp [setActor, ← h]

section

variable [Transport N]

theorem send_rt (rt : LocalRuntime P N Ib) (origin target : Address) (message : Message) :
    (rt.send origin target message).rt =
      { rt with net := (Transport.send rt.net origin target message).2 } := by
  unfold send
  split <;> simp_all

theorem send_effects (rt : LocalRuntime P N Ib) (origin target : Address) (message : Message) :
    (rt.send origin target message).effects =
      [.Sent origin target message (rt.send origin target message).result.isOk] := by
  unfold send
  split <;> rfl

def receiptNet (net : N) (self peer : Address) : Option Message → N
  | some ack => (Transport.send net self peer ack).2
  | none => net

theorem receipt_rt (rt : LocalRuntime P N Ib) (self peer : Address) (ack : Option Message) :
    (rt.receipt self peer ack).rt = { rt with net := receiptNet rt.net self peer ack } := by
  cases ack with
  | none => rfl
  | some ack => exact send_rt rt self peer ack

end

@[simp] theorem installInner_effects [Registry N Ib] (rt : LocalRuntime P N Ib) (name : ActorName)
    (allowlist : Allowlist) (deadlines : Deadlines) (kind : ActorKind) (party : Option (Boxed P)) :
    (rt.installInner name allowlist deadlines kind party).effects = [] := by
  unfold installInner
  split
  · rfl
  · split <;> rfl

/-! ### Failing several exchanges -/

section

variable [Party P]

theorem failEach_peer (rt : LocalRuntime P N Ib) (name : ActorName) (actor : LocalActor P Ib)
    (cause : FailureCause) (peers : List Address) (q : Address) :
    (rt.failEach name actor cause peers).1.peer q =
      if q ∈ peers then (actor.peer q).fail else actor.peer q := by
  induction peers generalizing actor with
  | nil => rfl
  | cons p peers ih =>
    rw [failEach, ih, LocalActor.failExchange_peer]
    by_cases hp : q = p
    · subst hp
      simp
    · simp [hp]

theorem failEach_failed (rt : LocalRuntime P N Ib) (name : ActorName) (actor : LocalActor P Ib)
    (cause : FailureCause) (peers : List Address) {p : Address} (hp : p ∈ peers)
    (hlive : (actor.peer p).state.live = true) :
    .Failed (rt.address name) p (actor.peer p).state cause ∈
      (rt.failEach name actor cause peers).2 := by
  induction peers generalizing actor with
  | nil => cases hp
  | cons q peers ih =>
    rw [failEach]
    by_cases hq : p = q
    · subst hq
      refine List.mem_append_left _ (List.mem_append_left _ ?_)
      rw [LocalActor.failExchange_snd]
      cases hlookup : actor.conversations.lookup p with
      | none => simp [LocalActor.peer, hlookup] at hlive
      | some ps => simp [LocalActor.peer, hlookup]
    · have hsame : (actor.failExchange (rt.address name) q cause).1.peer p = actor.peer p := by
        rw [LocalActor.failExchange_peer, if_neg hq]
      rw [← hsame] at hlive ⊢
      exact List.mem_append_right _ (ih _ (List.mem_of_ne_of_mem hq hp) hlive)

theorem failEach_livePeers (rt : LocalRuntime P N Ib) (name : ActorName) (actor : LocalActor P Ib)
    (cause : FailureCause) (peers : List Address) :
    (rt.failEach name actor cause peers).1.livePeers = actor.livePeers.filter (· ∉ peers) := by
  ext q
  rw [Finset.mem_filter, LocalActor.mem_livePeers, LocalActor.mem_livePeers, failEach_peer]
  by_cases hq : q ∈ peers <;> simp [hq]

theorem failEach_same (rt : LocalRuntime P N Ib) (name : ActorName) (actor : LocalActor P Ib)
    (cause : FailureCause) (peers : List Address) :
    actor.SameActor (rt.failEach name actor cause peers).1 := by
  induction peers generalizing actor with
  | nil => exact .refl actor
  | cons p peers ih => exact (LocalActor.SameActor.failExchange ..).trans (ih _)

@[simp] theorem failEach_allowlist (rt : LocalRuntime P N Ib) (name : ActorName)
    (actor : LocalActor P Ib) (cause : FailureCause) (peers : List Address) :
    (rt.failEach name actor cause peers).1.allowlist = actor.allowlist := by
  induction peers generalizing actor with
  | nil => rfl
  | cons p peers ih => rw [failEach, ih, LocalActor.failExchange_allowlist]

end

/-! ### Sweeping -/

theorem filter_affected (actor : LocalActor P Ib) (endpoints : EndpointId → Bool)
    {endpoint : EndpointId} (h : endpoints endpoint = true) :
    ((actor.affected endpoints).filter fun peer => peer.endpoint = endpoint) =
      actor.affected (· = endpoint) := by
  rw [LocalActor.affected, Assoc.filter_keysWhere]
  refine Assoc.keysWhere_congr fun p ps _ => ?_
  by_cases hp : p.endpoint = endpoint
  · simp [hp, h]
  · simp [hp]

theorem affected_insert (actor : LocalActor P Ib) {dead : Finset EndpointId} (endpoint : EndpointId)
    (hquiet : actor.affected (· ∈ dead) = []) :
    actor.affected (· ∈ insert endpoint dead) = actor.affected (· = endpoint) := by
  refine Assoc.keysWhere_congr fun p ps hps => ?_
  have hp := LocalActor.affected_eq_nil.mp hquiet p
  rw [LocalActor.peer, hps, Option.getD_some] at hp
  by_cases hdead : p.endpoint ∈ dead
  · simp [hp (by simpa using hdead)]
  · simp [hdead]

section

variable [Party P]

theorem sweepDead_none {rt : LocalRuntime P N Ib} {name : ActorName} {actor : LocalActor P Ib}
    (h : actor.affected (· ∈ rt.dead) = []) : rt.sweepDead name actor = ⟨none, rt, []⟩ := by
  simp only [sweepDead, h]

theorem sweepDead_some (rt : LocalRuntime P N Ib) (name : ActorName) {actor : LocalActor P Ib}
    (h : actor.affected (· ∈ rt.dead) ≠ []) :
    ∃ endpoint ∈ rt.dead, actor.affected (· = endpoint) ≠ [] ∧
      rt.sweepDead name actor =
        ⟨some (.PeerVanished endpoint (actor.affected (· = endpoint)).length),
          rt.setActor name (rt.failEach name actor .Disconnected (actor.affected (· = endpoint))).1,
          (rt.failEach name actor .Disconnected (actor.affected (· = endpoint))).2⟩ := by
  obtain ⟨first, rest, hfirst⟩ := List.exists_cons_of_ne_nil h
  have hmem : first ∈ actor.affected (· ∈ rt.dead) := by
    rw [hfirst]
    exact List.mem_cons_self
  obtain ⟨hlive, hdead⟩ := LocalActor.mem_affected.mp hmem
  refine ⟨first.endpoint, by simpa using hdead, ?_, ?_⟩
  · have hfirst' : first ∈ actor.affected (· = first.endpoint) :=
      LocalActor.mem_affected.mpr ⟨hlive, by simp⟩
    exact List.ne_nil_of_mem hfirst'
  · have hpeers := filter_affected actor (· ∈ rt.dead) hdead
    rw [hfirst] at hpeers
    simp only [sweepDead, hfirst, hpeers]

end

/-! ### A turn -/

/-- The actor after it accepted a turn, before the party has it. -/
def hear (actor : LocalActor P Ib) (peer : Address) (turn : Turn) : LocalActor P Ib :=
  actor.setPeer peer ⟨afterTurn .OweThem turn, none, none⟩

/-- The actor after its party's legal reply, before the reply is sent. -/
def arm (rt : LocalRuntime P N Ib) (actor : LocalActor P Ib) (peer : Address) (reply : Turn)
    (progress : TurnProgress) : LocalActor P Ib :=
  actor.setPeer peer
    (.armed (afterTurn .AwaitingTheirTurn reply) reply progress rt.clock actor.deadlines)

section

variable [Party P] [Transport N]

inductive Answered (rt : LocalRuntime P N Ib) (name : ActorName) (actor : LocalActor P Ib)
    (self peer : Address) (reply : Turn) : Ran P N Ib Stepped → Prop
  | illegal (error : TurnError) (h : ((actor.peer peer).state.onOutgoing reply).1 = .error error)
      (failed : Ran P N Ib Stepped)
      (hfailed : failed =
        rt.failExchange name (actor.setPeer peer (actor.peer peer)) peer .IllegalReply) :
      Answered rt name actor self peer reply
        { failed with
          effects := .Moved (rt.address name) peer (actor.peer peer).state (actor.peer peer).state ::
            failed.effects }
  | refused (progress : TurnProgress)
      (h : ((actor.peer peer).state.onOutgoing reply).1 = .ok progress)
      (sent : Ran P N Ib (Except RuntimeError Unit)) (hsent : sent = rt.send self peer (.Turn reply))
      (hrefused : sent.result.isOk = false) (failed : Ran P N Ib Stepped)
      (hfailed : failed =
        sent.rt.failExchange name (rt.arm actor peer reply progress) peer .SendFailed) :
      Answered rt name actor self peer reply
        { failed with
          effects := .Moved (rt.address name) peer (actor.peer peer).state
            (afterTurn .AwaitingTheirTurn reply) :: sent.effects ++ failed.effects }
  | sent (progress : TurnProgress)
      (h : ((actor.peer peer).state.onOutgoing reply).1 = .ok progress)
      (sent : Ran P N Ib (Except RuntimeError Unit)) (hsent : sent = rt.send self peer (.Turn reply))
      (haccepted : sent.result.isOk = true) :
      Answered rt name actor self peer reply
        ⟨.Delivered, sent.rt.setActor name (rt.arm actor peer reply progress),
          .Moved (rt.address name) peer (actor.peer peer).state
            (afterTurn .AwaitingTheirTurn reply) :: sent.effects⟩

theorem answer_answered (rt : LocalRuntime P N Ib) (name : ActorName) (actor : LocalActor P Ib)
    (self peer : Address) (reply : Turn) :
    Answered rt name actor self peer reply (rt.answer name actor self peer reply) := by
  cases h : ((actor.peer peer).state.onOutgoing reply).1 with
  | error error =>
    simp only [answer, h, onOutgoing_refused _ _ _ h]
    exact .illegal error h _ rfl
  | ok progress =>
    simp only [answer, h, onOutgoing_state _ _ _ h]
    cases hsent : (rt.send self peer (.Turn reply)).result with
    | ok => exact .sent progress h _ rfl (by rw [hsent]; rfl)
    | error e => exact .refused progress h _ rfl (by rw [hsent]; rfl) _ rfl

inductive TookTurn (rt : LocalRuntime P N Ib) (name : ActorName) (actor : LocalActor P Ib)
    (self peer : Address) (turn : Turn) (ack : Option Message) : Ran P N Ib Stepped → Prop
  | illegal (error : TurnError) (h : ((actor.peer peer).state.onIncoming turn).1 = .error error) :
      TookTurn rt name actor self peer turn ack
        ⟨.Delivered, rt.setActor name (actor.setPeer peer (actor.peer peer)),
          .Moved (rt.address name) peer (actor.peer peer).state (actor.peer peer).state ::
            rt.emit (.IllegalTurnDropped peer self error)⟩
  | silent (progress : TurnProgress)
      (h : ((actor.peer peer).state.onIncoming turn).1 = .ok progress) (taken : LocalActor P Ib)
      (effects : List Effect)
      (hsilent : (hear actor peer turn).handOver (rt.address name) peer turn = (none, taken, effects)) :
      TookTurn rt name actor self peer turn ack
        ⟨.Delivered, (rt.receipt self peer ack).rt.setActor name taken,
          .Moved (rt.address name) peer (actor.peer peer).state (afterTurn .OweThem turn) ::
            (rt.receipt self peer ack).effects ++ effects⟩
  | answered (progress : TurnProgress)
      (h : ((actor.peer peer).state.onIncoming turn).1 = .ok progress) (reply : Turn)
      (taken : LocalActor P Ib) (effects : List Effect)
      (hreply : (hear actor peer turn).handOver (rt.address name) peer turn =
        (some reply, taken, effects))
      (ran : Ran P N Ib Stepped)
      (hran : Answered (rt.receipt self peer ack).rt name taken self peer reply ran) :
      TookTurn rt name actor self peer turn ack
        { ran with
          effects := .Moved (rt.address name) peer (actor.peer peer).state (afterTurn .OweThem turn) ::
            (rt.receipt self peer ack).effects ++ effects ++ ran.effects }

theorem Answered.same {rt : LocalRuntime P N Ib} {name : ActorName} {actor : LocalActor P Ib}
    {self peer : Address} {reply : Turn} {ran : Ran P N Ib Stepped}
    (h : Answered rt name actor self peer reply ran) :
    ∃ net actor', ran.rt = { rt with net }.setActor name actor' ∧ actor.SameActor actor' := by
  rcases h with ⟨error, hout, _, rfl⟩ | ⟨progress, hout, _, rfl, hrefused, _, rfl⟩ |
    ⟨progress, hout, _, rfl, haccepted⟩
  · exact ⟨rt.net, _, rfl, (LocalActor.SameActor.setPeer ..).trans (.failExchange ..)⟩
  · rw [send_rt]
    exact ⟨_, _, rfl, (LocalActor.SameActor.setPeer ..).trans (.failExchange ..)⟩
  · rw [send_rt]
    exact ⟨_, _, rfl, .setPeer ..⟩

theorem TookTurn.same {rt : LocalRuntime P N Ib} {name : ActorName} {actor : LocalActor P Ib}
    {self peer : Address} {turn : Turn} {ack : Option Message} {ran : Ran P N Ib Stepped}
    (h : TookTurn rt name actor self peer turn ack ran) :
    ∃ net actor', ran.rt = { rt with net }.setActor name actor' ∧ actor.SameActor actor' := by
  have hhanded : ∀ reply taken effects,
      (hear actor peer turn).handOver (rt.address name) peer turn = (reply, taken, effects) →
      actor.SameActor taken := by
    intro reply taken effects hhanded
    have hover := LocalActor.SameActor.handOver (rt.address name) (hear actor peer turn) peer turn
    rw [hhanded] at hover
    exact (LocalActor.SameActor.setPeer ..).trans hover
  rcases h with ⟨error, hin⟩ | ⟨progress, hin, taken, effects, hsilent⟩ |
    ⟨progress, hin, reply, taken, effects, hreply, ran, hran⟩
  · exact ⟨rt.net, _, rfl, .setPeer ..⟩
  · rw [receipt_rt]
    exact ⟨_, taken, rfl, hhanded _ _ _ hsilent⟩
  · obtain ⟨net, actor', hrt, hsame⟩ := hran.same
    rw [receipt_rt] at hrt
    exact ⟨net, actor', hrt, (hhanded _ _ _ hreply).trans hsame⟩

theorem takeTurn_tookTurn (rt : LocalRuntime P N Ib) (name : ActorName) (actor : LocalActor P Ib)
    (self peer : Address) (turn : Turn) (ack : Option Message) :
    TookTurn rt name actor self peer turn ack (rt.takeTurn name actor self peer turn ack) := by
  cases h : ((actor.peer peer).state.onIncoming turn).1 with
  | error error =>
    simp only [takeTurn, h, onIncoming_refused _ _ _ h]
    exact .illegal error h
  | ok progress =>
    simp only [takeTurn, h, onIncoming_state _ _ _ h]
    rcases hhanded : (hear actor peer turn).handOver (rt.address name) peer turn with
      ⟨_ | reply, taken, effects⟩
    · rw [hear] at hhanded
      simp only [hhanded]
      exact .silent progress h taken effects hhanded
    · rw [hear] at hhanded
      simp only [hhanded]
      exact .answered progress h reply taken effects hhanded _ (answer_answered ..)

end

/-! ### A step -/

section

variable [Party P] [Transport N] [Registry N Ib]

/-- The cases of a step that takes an admitted delivery or not, in a runtime whose tombstones touch
no live exchange of the actor. -/
inductive Delivered (rt : LocalRuntime P N Ib) (name : ActorName) (actor : LocalActor P Ib)
    (delivery : Delivery) : Ran P N Ib Outcome → Prop
  | denied (h : actor.allowlist.allows delivery.origin.endpoint = false) :
      Delivered rt name actor delivery
        ⟨.Returned (.ok .Delivered), rt, rt.emit (.DeliveryDenied delivery.origin delivery.target)⟩
  | request (h : actor.allowlist.allows delivery.origin.endpoint = true) (request : Request)
      (hmessage : delivery.message = .Request request) :
      Delivered rt name actor delivery
        (rt.sendAndReturn delivery.target delivery.origin (.Ack ⟨request.id⟩))
  | ack (h : actor.allowlist.allows delivery.origin.endpoint = true) (ack : Ack)
      (hmessage : delivery.message = .Ack ack) :
      Delivered rt name actor delivery
        ⟨.Returned (.ok .Delivered),
          rt.setActor name
            { actor with
              conversations :=
                actor.conversations.modify delivery.origin fun ps => ps.settleAck ack.id }, []⟩
  | plain (h : actor.allowlist.allows delivery.origin.endpoint = true) (harness : Harness)
      (hmessage : delivery.message = .Harness harness) (hkind : actor.kind ≠ .Harness) :
      Delivered rt name actor delivery
        (rt.sendAndReturn delivery.target delivery.origin (.Harness (.Failed "not a harness actor")))
  | executed (h : actor.allowlist.allows delivery.origin.endpoint = true) (harness : Harness)
      (hmessage : delivery.message = .Harness harness) (hkind : actor.kind = .Harness)
      (reply : Message) (hreply : (rt.execute harness delivery.origin).result = some reply) :
      Delivered rt name actor delivery
        ((rt.execute harness delivery.origin).rt.sendAndReturn delivery.target delivery.origin reply)
  | ignored (h : actor.allowlist.allows delivery.origin.endpoint = true) (harness : Harness)
      (hmessage : delivery.message = .Harness harness) (hkind : actor.kind = .Harness)
      (hreply : (rt.execute harness delivery.origin).result = none) :
      Delivered rt name actor delivery
        ⟨.Returned (.ok .Delivered), (rt.execute harness delivery.origin).rt, []⟩
  | turn (h : actor.allowlist.allows delivery.origin.endpoint = true) (turn : Turn)
      (hmessage : delivery.message = .Turn turn) (ran : Ran P N Ib Stepped)
      (hran : TookTurn rt name actor delivery.target delivery.origin turn
        (turn.request.map fun request => .Ack ⟨request.id⟩) ran) :
      Delivered rt name actor delivery { ran with result := .Returned (.ok ran.result) }

/-- The tombstone of an endpoint that was heard from goes. -/
def heardFrom (rt : LocalRuntime P N Ib) (endpoint : EndpointId) : LocalRuntime P N Ib :=
  { rt with dead := rt.dead.erase endpoint }

theorem deliver_delivered (rt : LocalRuntime P N Ib) (name : ActorName) (actor : LocalActor P Ib)
    (delivery : Delivery) :
    Delivered (rt.heardFrom delivery.origin.endpoint) name actor delivery
      (rt.deliver name actor delivery) := by
  unfold deliver
  cases h : actor.allowlist.allows delivery.origin.endpoint with
  | false =>
    simp only [process_denied.mpr h]
    exact .denied h
  | true =>
    simp only [process_admitted h]
    cases hmessage : delivery.message with
    | Request request => exact .request h request hmessage
    | Ack ack => exact .ack h ack hmessage
    | Turn turn => exact .turn h turn hmessage _ (takeTurn_tookTurn ..)
    | Harness harness =>
      dsimp only
      split
      · rename_i hkind
        exact .plain h harness hmessage hkind
      · rename_i hkind
        have hkind : actor.kind = .Harness := not_not.mp hkind
        cases hreply : ((rt.heardFrom delivery.origin.endpoint).execute harness delivery.origin).result with
        | some reply =>
          rw [heardFrom] at hreply
          simp only [hreply]
          exact .executed h harness hmessage hkind reply hreply
        | none =>
          rw [heardFrom] at hreply
          simp only [hreply]
          exact .ignored h harness hmessage hkind hreply

theorem deliver_ack (rt : LocalRuntime P N Ib) (name : ActorName) {actor : LocalActor P Ib}
    {peer : Address} (h : actor.allowlist.allows peer.endpoint = true) (self : Address) (ack : Ack) :
    rt.deliver name actor ⟨peer, self, .Ack ack⟩ =
      ⟨.Returned (.ok .Delivered),
        (rt.heardFrom peer.endpoint).setActor name
          { actor with
            conversations := actor.conversations.modify peer fun ps => ps.settleAck ack.id }, []⟩ := by
  have hadmitted : actor.allowlist.allows (⟨peer, self, .Ack ack⟩ : Delivery).origin.endpoint = true := h
  simp only [deliver, process_admitted hadmitted]
  rfl

theorem deliver_turn (rt : LocalRuntime P N Ib) (name : ActorName) {actor : LocalActor P Ib}
    {peer : Address} (h : actor.allowlist.allows peer.endpoint = true) (self : Address) (turn : Turn) :
    rt.deliver name actor ⟨peer, self, .Turn turn⟩ =
      let taken := (rt.heardFrom peer.endpoint).takeTurn name actor self peer turn
        (turn.request.map fun request => .Ack ⟨request.id⟩)
      { taken with result := .Returned (.ok taken.result) } := by
  have hadmitted : actor.allowlist.allows (⟨peer, self, .Turn turn⟩ : Delivery).origin.endpoint = true := h
  simp only [deliver, process_admitted hadmitted]
  rfl

/-- The tombstone of an endpoint that was reported dead stands. -/
def reportDead (rt : LocalRuntime P N Ib) (endpoint : EndpointId) : LocalRuntime P N Ib :=
  { rt with dead := insert endpoint rt.dead }

inductive Did (rt : LocalRuntime P N Ib) (name : ActorName) (actor : LocalActor P Ib) :
    Waited → Ran P N Ib Outcome → Prop
  | swept (waited : Waited) (endpoint : EndpointId) (hdead : endpoint ∈ rt.dead)
      (hlive : actor.affected (· = endpoint) ≠ [])
      (failed : LocalActor P Ib × List Effect)
      (hfailed : failed = rt.failEach name actor .Disconnected (actor.affected (· = endpoint))) :
      Did rt name actor waited
        ⟨.Returned (.ok (.PeerVanished endpoint (actor.affected (· = endpoint)).length)),
          rt.setActor name failed.1, failed.2⟩
  | died (endpoint : EndpointId) (hquiet : actor.affected (· ∈ rt.dead) = [])
      (failed : LocalActor P Ib × List Effect)
      (hfailed : failed =
        (rt.reportDead endpoint).failEach name actor .Disconnected (actor.affected (· = endpoint))) :
      Did rt name actor (.PeerDeath endpoint)
        ⟨.Returned (.ok (.PeerVanished endpoint (actor.affected (· = endpoint)).length)),
          (rt.reportDead endpoint).setActor name failed.1, failed.2⟩
  | elapsed (hquiet : actor.affected (· ∈ rt.dead) = []) (peer : Address) (kind : DeadlineKind)
      (due : Instant) (hdue : actor.earliestDue = some (peer, kind, due))
      (failed : Ran P N Ib Stepped)
      (hfailed : failed = rt.failExchange name actor peer (.DeadlineElapsed kind)) :
      Did rt name actor .DeadlineElapsed { failed with result := .Returned (.ok failed.result) }
  | unarmed (hquiet : actor.affected (· ∈ rt.dead) = []) (hdue : actor.earliestDue = none) :
      Did rt name actor .DeadlineElapsed
        ⟨.Panicked "deadline cannot elapse unarmed", rt, []⟩
  | closed (hquiet : actor.affected (· ∈ rt.dead) = []) :
      Did rt name actor (.Delivery none) ⟨.Returned (.error .InboxClosed), rt, []⟩
  | delivered (hquiet : actor.affected (· ∈ rt.dead) = []) (delivery : Delivery)
      (ran : Ran P N Ib Outcome)
      (hran : Delivered (rt.heardFrom delivery.origin.endpoint) name actor delivery ran) :
      Did rt name actor (.Delivery (some delivery)) ran

theorem step_swept {rt : LocalRuntime P N Ib} {name : ActorName} {actor : LocalActor P Ib}
    (hactor : rt.actors name = some actor) (hloud : actor.affected (· ∈ rt.dead) ≠ [])
    (waited : Waited) :
    ∃ endpoint ∈ rt.dead, actor.affected (· = endpoint) ≠ [] ∧
      rt.step name waited =
        ⟨.Returned (.ok (.PeerVanished endpoint (actor.affected (· = endpoint)).length)),
          rt.setActor name (rt.failEach name actor .Disconnected (actor.affected (· = endpoint))).1,
          (rt.failEach name actor .Disconnected (actor.affected (· = endpoint))).2⟩ := by
  obtain ⟨endpoint, hdead, hlive, hswept⟩ := sweepDead_some rt name hloud
  exact ⟨endpoint, hdead, hlive, by simp only [step, hactor, hswept]⟩

theorem step_reported {rt : LocalRuntime P N Ib} {name : ActorName} {actor : LocalActor P Ib}
    (hactor : rt.actors name = some actor) (hquiet : actor.affected (· ∈ rt.dead) = [])
    (endpoint : EndpointId) :
    rt.step name (.PeerDeath endpoint) =
      ⟨.Returned (.ok (.PeerVanished endpoint (actor.affected (· = endpoint)).length)),
        (rt.reportDead endpoint).setActor name ((rt.reportDead endpoint).failEach name actor
          .Disconnected (actor.affected (· = endpoint))).1,
        ((rt.reportDead endpoint).failEach name actor .Disconnected
          (actor.affected (· = endpoint))).2⟩ := by
  have hreport : actor.affected (· ∈ (rt.reportDead endpoint).dead) = actor.affected (· = endpoint) :=
    affected_insert actor endpoint hquiet
  have hstep : rt.step name (.PeerDeath endpoint) =
      let swept := (rt.reportDead endpoint).sweepDead name actor
      { swept with result := .Returned (.ok (swept.result.getD (.PeerVanished endpoint 0))) } := by
    simp only [step, hactor, sweepDead_none hquiet]
    rfl
  rw [hstep]
  by_cases hlive : actor.affected (· = endpoint) = []
  · rw [sweepDead_none (hreport.trans hlive), hlive, failEach,
      setActor_eq_self (rt.reportDead endpoint) hactor]
    rfl
  · obtain ⟨endpoint', hdead, hlive', hswept⟩ :=
      sweepDead_some (rt.reportDead endpoint) name (hreport ▸ hlive)
    have hsame : endpoint' = endpoint := by
      -- Any other endpoint was dead before, and its exchanges were swept then.
      rcases Finset.mem_insert.mp hdead with h | h
      · exact h
      · exact absurd (LocalActor.affected_of_quiet hquiet h) hlive'
    subst hsame
    rw [hswept]
    rfl

theorem step_delivery (rt : LocalRuntime P N Ib) {name : ActorName} {actor : LocalActor P Ib}
    (hactor : rt.actors name = some actor) (hquiet : actor.affected (· ∈ rt.dead) = [])
    (delivery : Delivery) :
    rt.step name (.Delivery (some delivery)) = rt.deliver name actor delivery := by
  simp only [step, hactor, sweepDead_none hquiet]

theorem step_did {rt : LocalRuntime P N Ib} {name : ActorName} {actor : LocalActor P Ib}
    (hactor : rt.actors name = some actor) (waited : Waited) :
    Did rt name actor waited (rt.step name waited) := by
  by_cases hquiet : actor.affected (· ∈ rt.dead) = []
  · cases waited with
    | PeerDeath endpoint =>
      rw [step_reported hactor hquiet endpoint]
      exact .died endpoint hquiet _ rfl
    | DeadlineElapsed =>
      simp only [step, hactor, sweepDead_none hquiet]
      cases hdue : actor.earliestDue with
      | none => exact .unarmed hquiet hdue
      | some wait =>
        obtain ⟨peer, kind, due⟩ := wait
        exact .elapsed hquiet peer kind due hdue _ rfl
    | Delivery delivery =>
      cases delivery with
      | none =>
        simp only [step, hactor, sweepDead_none hquiet]
        exact .closed hquiet
      | some delivery =>
        rw [step_delivery rt hactor hquiet]
        exact .delivered hquiet delivery _ (deliver_delivered ..)
  · obtain ⟨endpoint, hdead, hlive, hstep⟩ := step_swept hactor hquiet waited
    rw [hstep]
    exact .swept waited endpoint hdead hlive _ rfl

end

end LocalRuntime

end Kamiroh
