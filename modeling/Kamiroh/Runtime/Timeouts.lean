import Kamiroh.Runtime.Polls
import Kamiroh.Runtime.Reports
import Kamiroh.Runtime.Revocations

/-!
# Deadlines fire when they are due, and in order

An armed wait is due at the actor's last turn in the conversation plus the deadline of its kind. The
first wait of the actor to be due is the one that fires, and nothing is taken from the inbox past it.
-/

namespace Kamiroh

open TurnState LocalActor

def Deadlines.of (deadlines : Deadlines) : DeadlineKind → Duration
  | .Ack => deadlines.ack
  | .Turn => deadlines.turn

theorem PeerState.settleAck_some {ps : PeerState} {id id' : RequestId} {due : Instant}
    (h : (ps.settleAck id).ackDue = some (id', due)) : ps.ackDue = some (id', due) ∧ id' ≠ id := by
  unfold settleAck at h
  split at h
  · rename_i heq
    split at h
    · cases h
    · rename_i hne
      cases heq.symm.trans h
      exact ⟨h, hne⟩
  · rename_i hnone
    cases hnone.symm.trans h

/-! ## The wait that is chosen -/

namespace LocalActor

variable {P Ib : Type}

theorem foldl_earlier_first (waits : List (Address × DeadlineKind × Instant))
    (best : Option (Address × DeadlineKind × Instant)) (w : Address × DeadlineKind × Instant)
    (h : waits.foldl earlier best = some w) :
    best = some w ∨ ∃ pre post, waits = pre ++ w :: post ∧ (∀ v ∈ pre, w.2.2 < v.2.2) ∧
      ∀ b, best = some b → w.2.2 < b.2.2 := by
  induction waits generalizing best with
  | nil => exact Or.inl h
  | cons v waits ih =>
    rw [List.foldl_cons] at h
    cases best with
    | none =>
      rcases ih _ h with hv | ⟨pre, post, rfl, hpre, hv⟩
      · cases hv
        exact Or.inr ⟨[], waits, rfl, by simp, by simp⟩
      · refine Or.inr ⟨v :: pre, post, rfl, ?_, by simp⟩
        exact List.forall_mem_cons.mpr ⟨hv v rfl, hpre⟩
    | some b =>
      simp only [earlier] at h
      split at h
      · rename_i hlt
        rcases ih _ h with hv | ⟨pre, post, rfl, hpre, hv⟩
        · cases hv
          exact Or.inr ⟨[], waits, rfl, by simp, fun b' hb' => by cases hb'; exact hlt⟩
        · have hwv := hv v rfl
          refine Or.inr ⟨v :: pre, post, rfl, List.forall_mem_cons.mpr ⟨hwv, hpre⟩, fun b' hb' => ?_⟩
          cases hb'
          exact hwv.trans hlt
      · rename_i hle
        rcases ih _ h with hb | ⟨pre, post, rfl, hpre, hb⟩
        · exact Or.inl hb
        · have hwb := hb b rfl
          refine Or.inr ⟨v :: pre, post, rfl, List.forall_mem_cons.mpr ⟨?_, hpre⟩, hb⟩
          exact hwb.trans_le (Nat.le_of_not_lt hle)

theorem waits_pairwise (actor : LocalActor P Ib) :
    (actor.conversations.entries.flatMap fun e => e.2.waits e.1).Pairwise fun v w =>
      ¬ (v.1 = w.1 ∧ v.2.1 = .Turn ∧ w.2.1 = .Ack) := by
  rw [List.pairwise_flatMap]
  constructor
  · rintro ⟨p, state, ackDue, turnDue⟩ -
    cases ackDue <;> cases turnDue <;> simp [PeerState.waits]
  · have hkeys := actor.conversations.nodupKeys
    refine (List.nodupKeys_iff_pairwise.mp hkeys).imp fun hne v hv w hw hsame => ?_
    obtain ⟨hv', -⟩ := mem_waits.mp hv
    obtain ⟨hw', -⟩ := mem_waits.mp hw
    exact hne (hv'.symm.trans (hsame.1.trans hw'))

/-- Within a conversation the ack wait comes first, so it wins a tie. -/
theorem earliestDue_ack {actor : LocalActor P Ib} {p : Address} {due ackDue : Instant}
    (h : actor.earliestDue = some (p, .Turn, due))
    (hack : (p, .Ack, ackDue) ∈ (actor.peer p).waits p) : due < ackDue := by
  have hmem := mem_pending.mpr hack
  have hpairwise := actor.waits_pairwise
  rcases foldl_earlier_first _ _ _ h with hnone | ⟨pre, post, hwaits, hpre, -⟩
  · cases hnone
  · rw [hwaits] at hmem hpairwise
    rcases List.mem_append.mp hmem with hmem | hmem
    · exact hpre _ hmem
    · rcases List.mem_cons.mp hmem with heq | hmem
      · cases heq
      · obtain ⟨-, hlater, -⟩ := List.pairwise_append.mp hpairwise
        exact absurd ⟨rfl, rfl, rfl⟩ ((List.pairwise_cons.mp hlater).1 _ hmem)

theorem earliestDue_le {actor : LocalActor P Ib} {v : Address × DeadlineKind × Instant}
    (h : v ∈ (actor.peer v.1).waits v.1) : ∃ w, actor.earliestDue = some w ∧ w.2.2 ≤ v.2.2 := by
  cases hdue : actor.earliestDue with
  | some w => exact ⟨w, rfl, (earliestDue_spec hdue).2 v h⟩
  | none =>
    obtain ⟨hack, hturn⟩ := unarmed_of_earliestDue_none hdue v.1
    rcases mem_waits.mp h with ⟨-, ⟨-, id, hid⟩ | ⟨-, hsome⟩⟩
    · cases hack.symm.trans hid
    · cases hturn.symm.trans hsome

end LocalActor

namespace LocalRuntime

variable {P N Ib : Type} [Party P] [Transport N]

/-! ## What a step does about turns and deadlines -/

/-- What a turn of `peer` leaves armed. -/
inductive Timed (rt : LocalRuntime P N Ib) (actor : LocalActor P Ib) (self peer : Address) (turn : Turn)
    (effects : List Effect) (actor' : LocalActor P Ib) : Prop
  | illegal (error : TurnError) (hin : ((actor.peer peer).state.onIncoming turn).1 = .error error)
      (hpeer : actor'.peer peer = actor.peer peer)
      (hsilent : ∀ origin target message accepted, .Sent origin target message accepted ∉ effects)
  | unarmed (hack : (actor'.peer peer).ackDue = none) (hturn : (actor'.peer peer).turnDue = none)
  | armed (reply : Turn) (progress : TurnProgress)
      (hpeer : actor'.peer peer =
        .armed (afterTurn .AwaitingTheirTurn reply) reply progress rt.clock actor.deadlines)
      (hsent : .Sent self peer (.Turn reply) true ∈ effects)

theorem Answered.timed {rt : LocalRuntime P N Ib} {name : ActorName} {actor : LocalActor P Ib}
    {self peer : Address} {reply : Turn} {ran : Ran P N Ib Stepped}
    (h : Answered rt name actor self peer reply ran) {actor' : LocalActor P Ib}
    (hactor' : ran.rt.actors name = some actor') :
    (actor'.peer peer).ackDue = none ∧ (actor'.peer peer).turnDue = none ∨
      ∃ progress, actor'.peer peer =
          .armed (afterTurn .AwaitingTheirTurn reply) reply progress rt.clock actor.deadlines ∧
        .Sent self peer (.Turn reply) true ∈ ran.effects := by
  rcases h with ⟨error, hout, _, rfl⟩ | ⟨progress, hout, _, rfl, hrefused, _, rfl⟩ |
    ⟨progress, hout, _, rfl, haccepted⟩
  · cases hactor'.symm.trans (setActor_self ..)
    refine Or.inl ?_
    rw [LocalActor.failExchange_peer, if_pos rfl]
    exact ⟨rfl, rfl⟩
  · cases hactor'.symm.trans (setActor_self ..)
    refine Or.inl ?_
    rw [LocalActor.failExchange_peer, if_pos rfl]
    exact ⟨rfl, rfl⟩
  · cases hactor'.symm.trans (setActor_self ..)
    refine Or.inr ⟨progress, LocalActor.peer_setPeer_self .., List.mem_cons_of_mem _ ?_⟩
    rw [send_effects, haccepted]
    exact List.mem_singleton_self _

theorem TookTurn.timed {rt : LocalRuntime P N Ib} {name : ActorName} {actor : LocalActor P Ib}
    {self peer : Address} {turn : Turn} {ack : Option Message} {ran : Ran P N Ib Stepped}
    (h : TookTurn rt name actor self peer turn ack ran) {actor' : LocalActor P Ib}
    (hactor' : ran.rt.actors name = some actor') :
    Timed rt actor self peer turn ran.effects actor' := by
  rcases h with ⟨error, hin⟩ | ⟨progress, hin, taken, effects, hsilent⟩ |
    ⟨progress, hin, reply, taken, effects, hreply, ran, hran⟩
  · cases hactor'.symm.trans (setActor_self ..)
    refine .illegal error hin (LocalActor.peer_setPeer_self ..) fun _ _ _ _ hsent => ?_
    rcases List.mem_cons.mp hsent with hsent | hsent
    · cases hsent
    · cases mem_emit hsent
  · cases hactor'.symm.trans (setActor_self ..)
    obtain ⟨-, hpeer, -⟩ := retook_of_handOver hsilent
    exact .unarmed (by rw [hpeer]) (by rw [hpeer])
  · rw [receipt_rt] at hran
    have hdeadlines : taken.deadlines = actor.deadlines := by
      have hsame := LocalActor.SameActor.handOver (rt.address name) (hear actor peer turn) peer turn
      rw [hreply] at hsame
      exact hsame.deadlines
    rcases hran.timed hactor' with ⟨hack, hturn⟩ | ⟨progress', hpeer, hsent⟩
    · exact .unarmed hack hturn
    · rw [hdeadlines] at hpeer
      exact .armed reply progress' hpeer (List.mem_append_right _ hsent)

variable [Registry N Ib]

theorem step_elapses {rt : LocalRuntime P N Ib} {name : ActorName} {waited : Waited} {here p : Address}
    {before : TurnState} {kind : DeadlineKind}
    (h : .Failed here p before (.DeadlineElapsed kind) ∈ (rt.step name waited).effects) :
    waited = .DeadlineElapsed ∧ ∃ actor due, rt.actors name = some actor ∧
      actor.affected (· ∈ rt.dead) = [] ∧ actor.earliestDue = some (p, kind, due) := by
  cases hactor : rt.actors name with
  | none =>
    simp only [step, hactor] at h
    cases h
  | some actor =>
    rcases step_arose hactor h with ⟨_, _, _, _, _, hfailure⟩ | ⟨hquiet, peer, kind', due, hdue, hfailure⟩ |
      ⟨_, _, _, heq⟩ | ⟨_, _, _, _, _, _, heq⟩ | ⟨_, delivery, _, turn, _, ran, hran, hturned⟩
    · cases hfailure
    · cases hfailure
      exact ⟨rfl, actor, due, rfl, hquiet, hdue⟩
    · cases heq
    · cases heq
    · rcases hran.turned hturned with _ | _ | _ | _ | ⟨cause, hcause, _, hfailure⟩
      cases hfailure
      rcases hcause with hcause | hcause <;> cases hcause

theorem step_says {rt : LocalRuntime P N Ib} {name : ActorName} {waited : Waited} {origin p : Address}
    {turn : Turn} {accepted : Bool}
    (h : .Sent origin p (.Turn turn) accepted ∈ (rt.step name waited).effects) :
    ∃ turn', rt.Reaches (.Step name waited) name p (.Turn turn') := by
  cases hactor : rt.actors name with
  | none =>
    simp only [step, hactor] at h
    cases h
  | some actor =>
    rcases step_arose hactor h with ⟨_, _, _, _, _, hfailure⟩ | ⟨_, _, _, _, _, hfailure⟩ | ⟨_, _, _, heq⟩ |
      ⟨_, _, _, message, hmessage, _, heq⟩ | ⟨hquiet, delivery, hok, turn', hm, ran, hran, hturned⟩
    · cases hfailure
    · cases hfailure
    · cases heq
    · cases heq
      exact absurd rfl (hmessage turn)
    · have hpeer : p = delivery.origin := (hran.turned hturned).within
      subst hpeer
      refine ⟨turn', actor, delivery.target, ?_, hactor, hquiet, hok⟩
      rw [← hm]

/-! ## What the actor said last -/

variable [Inbox N Ib] [DeathWatch N]

/-- In this moment the actor takes a message of an admitted peer from its inbox. -/
def Gets (rt : LocalRuntime P N Ib) (m : Moment P N) (name : ActorName) (p : Address)
    (message : Message) : Prop :=
  ∃ waker rt' actor target, m = .Poll name waker ∧
    rt.race name waker = some (.Delivery (some ⟨p, target, message⟩), rt') ∧
    rt.actors name = some actor ∧ actor.allowlist.allows p.endpoint = true

/-- It is a turn, and a legal one. -/
def Accepts (rt : LocalRuntime P N Ib) (m : Moment P N) (name : ActorName) (p : Address) : Prop :=
  ∃ turn actor progress, rt.Gets m name p (.Turn turn) ∧ rt.actors name = some actor ∧
    ((actor.peer p).state.onIncoming turn).1 = .ok progress

/-- In this moment the actor sends a turn to `p`, and the transport takes it. -/
def Says (rt : LocalRuntime P N Ib) (m : Moment P N) (name : ActorName) (p : Address) (turn : Turn) :
    Prop :=
  ∃ waker origin, m = .Poll name waker ∧ .Sent origin p (.Turn turn) true ∈ (rt.moment m).2

/-- In a run the actor said `turn` to `p` at this instant. Since then it said nothing to `p` and
accepted no turn of it. And if `kind` is that of an ack, it got none for the request in `turn`. -/
inductive LastSaid (rt : LocalRuntime P N Ib) (name : ActorName) (p : Address) (kind : DeadlineKind) :
    List (Moment P N) → Instant → Turn → Prop
  | now (ms : List (Moment P N)) (m : Moment P N) (turn : Turn)
      (h : (rt.moments ms).Says m name p turn) :
      LastSaid rt name p kind (ms ++ [m]) (rt.moments ms).clock turn
  | since (ms : List (Moment P N)) (m : Moment P N) (instant : Instant) (turn : Turn)
      (h : LastSaid rt name p kind ms instant turn)
      (htells : ∀ turn', ¬ (rt.moments ms).Says m name p turn')
      (haccepts : ¬ (rt.moments ms).Accepts m name p)
      (hacks : kind = .Ack → ∀ request, turn.request = some request →
        ¬ (rt.moments ms).Gets m name p (.Ack ⟨request.id⟩)) :
      LastSaid rt name p kind (ms ++ [m]) instant turn

omit [Party P] [Transport N] [Registry N Ib] in
theorem reaches_of_gets {rt : LocalRuntime P N Ib} {net : N} {name₀ name : ActorName} {waker : Waker}
    {waited : Waited} (hrace : rt.race name₀ waker = some (waited, { rt with net }) ∨
      rt.race name₀ waker = none ∧ waited = .DeadlineElapsed) {p : Address} {message : Message}
    (h : rt.Gets (.Poll name₀ waker) name p message) :
    ({ rt with net } : LocalRuntime P N Ib).Reaches (.Step name₀ waited) name p message := by
  obtain ⟨waker', rt', actor, target, hm, hgot, hactor, hadmitted⟩ := h
  cases hm
  rcases hrace with hrace | ⟨hnone, -⟩
  · cases hrace.symm.trans hgot
    exact ⟨actor, target, rfl, hactor, quiet_of_race hgot hactor, hadmitted⟩
  · cases hnone.symm.trans hgot

/-- Every wait armed for `p` is due this long after what the actor said to `p` last. An ack wait is for
the request in that. -/
def Dated (rt : LocalRuntime P N Ib) (ms : List (Moment P N)) (name : ActorName)
    (actor : LocalActor P Ib) (p : Address) : Prop :=
  ∀ kind due, (p, kind, due) ∈ (actor.peer p).waits p → ∃ instant turn,
    LastSaid rt name p kind ms instant turn ∧ due = instant + actor.deadlines.of kind ∧
      (kind = .Ack → ∃ request, turn.request = some request ∧
        (actor.peer p).ackDue = some (request.id, due))

section

variable {rt : LocalRuntime P N Ib} {ms : List (Moment P N)} {m : Moment P N} {name : ActorName}
  {actor actor' : LocalActor P Ib} {p : Address}

theorem dated_of_unarmed (hack : (actor.peer p).ackDue = none) (hturn : (actor.peer p).turnDue = none) :
    Dated rt ms name actor p := by
  intro kind due hwait
  rcases mem_waits.mp hwait with ⟨-, ⟨-, id, hid⟩ | ⟨-, hdue⟩⟩
  · cases hack.symm.trans hid
  · cases hturn.symm.trans hdue

theorem Dated.since (h : Dated rt ms name actor p) (hdeadlines : actor'.deadlines = actor.deadlines)
    (hack : ∀ id due, (actor'.peer p).ackDue = some (id, due) → (actor.peer p).ackDue = some (id, due) ∧
      ¬ (rt.moments ms).Gets m name p (.Ack ⟨id⟩))
    (hturn : (actor'.peer p).turnDue = (actor.peer p).turnDue)
    (htells : ∀ turn, ¬ (rt.moments ms).Says m name p turn)
    (haccepts : ¬ (rt.moments ms).Accepts m name p) : Dated rt (ms ++ [m]) name actor' p := by
  intro kind due hwait
  rw [hdeadlines]
  rcases mem_waits.mp hwait with ⟨-, ⟨rfl, id, hid⟩ | ⟨rfl, hdue⟩⟩
  · obtain ⟨hid', hgets⟩ := hack id due hid
    obtain ⟨instant, turn, hlast, hinstant, hposed⟩ :=
      h .Ack due (mem_waits.mpr ⟨rfl, Or.inl ⟨rfl, id, hid'⟩⟩)
    obtain ⟨request, hrequest, hrequestDue⟩ := hposed rfl
    cases hid'.symm.trans hrequestDue
    refine ⟨instant, turn, .since ms m instant turn hlast htells haccepts fun _ request' hrequest' => ?_,
      hinstant, fun _ => ⟨request, hrequest, hid⟩⟩
    cases hrequest.symm.trans hrequest'
    exact hgets
  · obtain ⟨instant, turn, hlast, hinstant, -⟩ :=
      h .Turn due (mem_waits.mpr ⟨rfl, Or.inr ⟨rfl, hturn ▸ hdue⟩⟩)
    exact ⟨instant, turn, .since ms m instant turn hlast htells haccepts (by simp), hinstant, by simp⟩

theorem dated_armed {reply : Turn} {progress : TurnProgress}
    (hpeer : actor'.peer p = .armed (afterTurn .AwaitingTheirTurn reply) reply progress
      (rt.moments ms).clock actor'.deadlines)
    (htells : (rt.moments ms).Says m name p reply) : Dated rt (ms ++ [m]) name actor' p := by
  intro kind due hwait
  have hlast : LastSaid rt name p kind (ms ++ [m]) (rt.moments ms).clock reply := .now ms m reply htells
  rcases mem_waits.mp hwait with ⟨-, ⟨rfl, id, hid⟩ | ⟨rfl, hdue⟩⟩
  · rw [hpeer] at hid ⊢
    obtain ⟨request, hrequest, heq⟩ := Option.map_eq_some_iff.mp hid
    cases heq
    exact ⟨_, reply, hlast, rfl, fun _ => ⟨request, hrequest, hid⟩⟩
  · rw [hpeer] at hdue
    refine ⟨_, reply, hlast, ?_, by simp⟩
    cases progress with
    | Continuing => exact (Option.some.inj hdue).symm
    | Concluded => cases hdue

theorem Dated.idle (h : Dated rt ms name actor p) (hdeadlines : actor'.deadlines = actor.deadlines)
    (hpeer : actor'.peer p = actor.peer p) (htells : ∀ turn, ¬ (rt.moments ms).Says m name p turn)
    (hturns : ∀ turn, ¬ (rt.moments ms).Gets m name p (.Turn turn))
    (hacks : ∀ ack, ¬ (rt.moments ms).Gets m name p (.Ack ack)) :
    Dated rt (ms ++ [m]) name actor' p := by
  refine h.since hdeadlines (fun id due hid => ⟨hpeer ▸ hid, hacks _⟩) (by rw [hpeer]) htells ?_
  rintro ⟨turn, actor, progress, hgot, -⟩
  exact hturns turn hgot

theorem Dated.settled (h : Dated rt ms name actor p) (hdeadlines : actor'.deadlines = actor.deadlines)
    {ack : Ack} (hsettled : actor'.peer p = (actor.peer p).settleAck ack.id)
    (htells : ∀ turn, ¬ (rt.moments ms).Says m name p turn)
    (hgets : ∀ message, (rt.moments ms).Gets m name p message → message = .Ack ack) :
    Dated rt (ms ++ [m]) name actor' p := by
  refine h.since hdeadlines (fun id due hid => ?_) (by rw [hsettled]; simp) htells ?_
  · rw [hsettled] at hid
    obtain ⟨hid', hne⟩ := PeerState.settleAck_some hid
    refine ⟨hid', fun hgot => hne ?_⟩
    cases hgets _ hgot
    rfl
  · rintro ⟨turn, _, _, hgot, -⟩
    cases hgets _ hgot

end

theorem Timed.dated {rt : LocalRuntime P N Ib} {ms : List (Moment P N)} {m : Moment P N}
    {name : ActorName} {actor actor' : LocalActor P Ib} {self p : Address} {turn : Turn}
    {effects : List Effect} {rt' : LocalRuntime P N Ib} (hclock : rt'.clock = (rt.moments ms).clock)
    (htimed : Timed rt' actor self p turn effects actor') (h : Dated rt ms name actor p)
    (hactor : (rt.moments ms).actors name = some actor) (hdeadlines : actor'.deadlines = actor.deadlines)
    (htells : ∀ turn, (rt.moments ms).Says m name p turn ↔ ∃ origin,
      .Sent origin p (.Turn turn) true ∈ effects)
    (hgets : ∀ message, (rt.moments ms).Gets m name p message → message = .Turn turn) :
    Dated rt (ms ++ [m]) name actor' p := by
  rcases htimed with ⟨error, hin, hpeer, hsilent⟩ | ⟨hack, hturn⟩ | ⟨reply, progress, hpeer, hsent⟩
  · refine h.since hdeadlines (fun id due hid => ⟨hpeer ▸ hid, fun hgot => ?_⟩) (by rw [hpeer]) ?_ ?_
    · cases hgets _ hgot
    · intro reply hsaid
      obtain ⟨origin, hsent⟩ := (htells reply).mp hsaid
      exact hsilent _ _ _ _ hsent
    · rintro ⟨turn', actor₁, progress, hgot, hactor₁, hlegal⟩
      cases hgets _ hgot
      cases hactor.symm.trans hactor₁
      cases hin.symm.trans hlegal
  · exact dated_of_unarmed hack hturn
  · rw [← hdeadlines, hclock] at hpeer
    exact dated_armed hpeer ((htells reply).mpr ⟨self, hsent⟩)

section

variable {rt : LocalRuntime P N Ib} {ms : List (Moment P N)} {name : ActorName}
  {actor actor' : LocalActor P Ib} {p : Address}

theorem Dated.pending (h : Dated rt ms name actor p) {m : Moment P N}
    (hrace : ∀ name waker, m = .Poll name waker → (rt.moments ms).race name waker = none)
    (hsilent : ((rt.moments ms).moment m).2 = []) : Dated rt (ms ++ [m]) name actor p := by
  have hgets : ∀ message, ¬ (rt.moments ms).Gets m name p message := by
    rintro message ⟨waker, rt', actor, target, hm, hgot, -⟩
    cases (hrace name waker hm).symm.trans hgot
  refine h.idle rfl rfl ?_ (fun _ => hgets _) fun _ => hgets _
  rintro turn ⟨waker, origin, -, hsent⟩
  rw [hsilent] at hsent
  cases hsent

theorem dated_polled (h : ∀ actor, (rt.moments ms).actors name = some actor → Dated rt ms name actor p)
    {net : N} {name₀ : ActorName} {waker : Waker} {waited : Waited}
    (hrace : (rt.moments ms).race name₀ waker = some (waited, { rt.moments ms with net }) ∨
      (rt.moments ms).race name₀ waker = none ∧ waited = .DeadlineElapsed)
    (hmoment : (rt.moments ms).moment (.Poll name₀ waker) =
      ({ rt.moments ms with net } : LocalRuntime P N Ib).exec (.Step name₀ waited))
    (hactor' : (({ rt.moments ms with net } : LocalRuntime P N Ib).exec
      (.Step name₀ waited)).1.actors name = some actor') :
    Dated rt (ms ++ [.Poll name₀ waker]) name actor' p := by
  have hgets : ∀ message, (rt.moments ms).Gets (.Poll name₀ waker) name p message →
      ({ rt.moments ms with net } : LocalRuntime P N Ib).Reaches (.Step name₀ waited) name p message :=
    fun _ => reaches_of_gets hrace
  have htells : ∀ turn, (rt.moments ms).Says (.Poll name₀ waker) name p turn →
      ∃ turn', ({ rt.moments ms with net } : LocalRuntime P N Ib).Reaches (.Step name₀ waited) name p
        (.Turn turn') := by
    rintro turn ⟨waker', origin, hm, hsent⟩
    cases hm
    rw [hmoment] at hsent
    exact step_says hsent
  rcases exec_became hactor' p with hfresh | ⟨actor, hactor, hdeadlines, hspared, hpeer⟩ |
    ⟨actor, hactor, hfailed⟩ | ⟨actor, hactor, hdeadlines, ack, ⟨_, _, hcall, -⟩, hsettled⟩ |
    ⟨actor, hactor, target, turn, hcall, hquiet, hadmitted, ran, hran, heffects, hrt⟩
  · exact dated_of_unarmed (by rw [hfresh]; rfl) (by rw [hfresh]; rfl)
  · refine (h actor hactor).idle hdeadlines hpeer (fun turn hsaid => ?_)
      (fun turn hgot => (hspared _ (hgets _ hgot)).2 turn rfl)
      fun ack hgot => (hspared _ (hgets _ hgot)).1 ack rfl
    obtain ⟨turn', hreached⟩ := htells turn hsaid
    exact (hspared _ hreached).2 turn' rfl
  · exact dated_of_unarmed (by rw [hfailed]; rfl) (by rw [hfailed]; rfl)
  · have honly : ∀ message, ({ rt.moments ms with net } : LocalRuntime P N Ib).Reaches
        (.Step name₀ waited) name p message → message = .Ack ack := by
      rintro message ⟨_, _, hcall', -⟩
      rw [hcall] at hcall'
      cases hcall'
      rfl
    refine (h actor hactor).settled hdeadlines hsettled (fun turn hsaid => ?_)
      fun message hgot => honly message (hgets message hgot)
    obtain ⟨turn', hreached⟩ := htells turn hsaid
    cases honly _ hreached
  · cases hcall
    refine Timed.dated ?_ (hran.timed hrt) (h actor hactor) hactor ?_ (fun reply => ?_)
      fun message hgot => ?_
    · rfl
    · obtain ⟨net', taken, hrt', hsame⟩ := hran.same
      cases hrt.symm.trans ((congrArg (fun rt => rt.actors name) hrt').trans (setActor_self ..))
      exact hsame.deadlines
    · rw [heffects]
      constructor
      · rintro ⟨_, origin, hm, hsent⟩
        rw [hmoment] at hsent
        exact ⟨origin, hsent⟩
      · rintro ⟨origin, hsent⟩
        refine ⟨waker, origin, rfl, ?_⟩
        rw [hmoment]
        exact hsent
    · obtain ⟨_, _, hcall, -⟩ := hgets _ hgot
      cases hcall
      rfl

theorem dated_other (h : ∀ actor, (rt.moments ms).actors name = some actor → Dated rt ms name actor p)
    {call : Call P N} (hother : ∀ name waited, call ≠ .Step name waited)
    (hactor' : ((rt.moments ms).exec call).1.actors name = some actor') :
    Dated rt (ms ++ [.Other call hother]) name actor' p := by
  have hgets : ∀ message, ¬ (rt.moments ms).Gets (.Other call hother) name p message := by
    rintro message ⟨waker, rt', actor, target, hm, -⟩
    cases hm
  have htells : ∀ turn, ¬ (rt.moments ms).Says (.Other call hother) name p turn := by
    rintro turn ⟨waker, origin, hm, -⟩
    cases hm
  rcases exec_became hactor' p with hfresh | ⟨actor, hactor, hdeadlines, -, hpeer⟩ |
    ⟨actor, hactor, hfailed⟩ | ⟨actor, hactor, -, ack, ⟨_, _, hcall, -⟩, -⟩ |
    ⟨actor, hactor, target, turn, hcall, -⟩
  · exact dated_of_unarmed (by rw [hfresh]; rfl) (by rw [hfresh]; rfl)
  · exact (h actor hactor).idle hdeadlines hpeer htells (fun _ => hgets _) fun _ => hgets _
  · exact dated_of_unarmed (by rw [hfailed]; rfl) (by rw [hfailed]; rfl)
  · exact absurd hcall (hother _ _)
  · exact absurd hcall (hother _ _)

theorem dated_snoc
    (h : ∀ name actor, (rt.moments ms).actors name = some actor → ∀ p, Dated rt ms name actor p)
    (m : Moment P N) (hactor' : (rt.moments (ms ++ [m])).actors name = some actor') (p : Address) :
    Dated rt (ms ++ [m]) name actor' p := by
  rw [moments_snoc] at hactor'
  have hcalled := moment_called (rt.moments ms) m
  generalize hmoment : (rt.moments ms).moment m = after at hcalled hactor'
  rcases hcalled with ⟨net, hrace⟩ | ⟨net, name₀, waker, rfl, waited, hrace⟩ | ⟨call, hother, rfl⟩
  · exact (h name actor' hactor' p).pending hrace (by rw [hmoment])
  · exact dated_polled (fun actor hactor => h name actor hactor p) hrace hmoment hactor'
  · exact dated_other (fun actor hactor => h name actor hactor p) hother hactor'

end

theorem dated_moments {rt : LocalRuntime P N Ib} (hfresh : rt.Fresh) (ms : List (Moment P N)) :
    ∀ name actor, (rt.moments ms).actors name = some actor → ∀ p, Dated rt ms name actor p := by
  induction ms using List.reverseRecOn with
  | nil =>
    intro name actor hactor
    cases (hfresh.actors name).symm.trans hactor
  | append_singleton ms m ih => exact fun name actor hactor p => dated_snoc ih m hactor p

/-! ## Deadlines are exact -/

/-- A poll fails an exchange for a deadline only once the clock has reached the actor's last turn in that
conversation plus the deadline of that kind, when it neither accepted a turn nor, for an ack, got the ack
since. It is the wait of the actor that is due first, an ack's before a turn's in one conversation. At or
past an armed instant no poll takes a delivery, and none is pending. -/
theorem deadlines_exact {rt : LocalRuntime P N Ib} (hfresh : rt.Fresh) (ms : List (Moment P N))
    (name : ActorName) (waker : Waker) :
    (∀ here p before kind,
      .Failed here p before (.DeadlineElapsed kind) ∈ ((rt.moments ms).poll name waker).2.2 →
      ∃ actor due instant turn, (rt.moments ms).actors name = some actor ∧
        (p, kind, due) ∈ (actor.peer p).waits p ∧ due ≤ (rt.moments ms).clock ∧
        LastSaid rt name p kind ms instant turn ∧ due = instant + actor.deadlines.of kind ∧
        (kind = .Ack → turn.request.isSome = true) ∧
        (∀ q kind' due', (q, kind', due') ∈ (actor.peer q).waits q → due ≤ due') ∧
        (kind = .Turn → ∀ due', (p, .Ack, due') ∈ (actor.peer p).waits p → due < due')) ∧
    ∀ actor, (rt.moments ms).actors name = some actor →
      ∀ q kind due, (q, kind, due) ∈ (actor.peer q).waits q → due ≤ (rt.moments ms).clock →
        ((rt.moments ms).poll name waker).1 ≠ .Pending ∧
        ∀ delivery rt', (rt.moments ms).race name waker ≠ some (.Delivery delivery, rt') := by
  constructor
  · intro here p before kind hfailed
    have hpolled := poll_raced (rt.moments ms) name waker
    generalize (rt.moments ms).poll name waker = polled at hpolled hfailed
    rcases hpolled with ⟨hnone⟩ | ⟨net, hrace⟩ | ⟨actor, hactor, hloud, hrace, _, rfl⟩ |
      ⟨actor, hactor, hquiet, waited, net, hrace, _, rfl⟩
    · cases hfailed
    · cases hfailed
    · obtain ⟨-, actor₁, due, hactor₁, hquiet, -⟩ := step_elapses hfailed
      cases hactor.symm.trans hactor₁
      exact absurd hquiet hloud
    · obtain ⟨rfl, actor₁, due, hactor₁, -, hdue⟩ := step_elapses hfailed
      cases hactor.symm.trans hactor₁
      obtain ⟨hwait, hleast⟩ := LocalActor.earliestDue_spec hdue
      obtain ⟨w, hw, hclock⟩ := (onTime_of_race hrace hactor).elapsed rfl
      cases hdue.symm.trans hw
      obtain ⟨instant, turn, hlast, hinstant, hposed⟩ :=
        dated_moments hfresh ms name actor hactor p kind due hwait
      refine ⟨actor, due, instant, turn, hactor, hwait, hclock, hlast, hinstant, fun hkind => ?_,
        fun q kind' due' h => hleast (q, kind', due') h, fun hkind due' hack => ?_⟩
      · obtain ⟨request, hrequest, -⟩ := hposed hkind
        rw [hrequest]
        rfl
      · subst hkind
        exact LocalActor.earliestDue_ack hdue hack
  · intro actor hactor q kind due hwait hdue
    obtain ⟨w, hw, hfirst⟩ := LocalActor.earliestDue_le hwait
    have helapsed : w.2.2 ≤ (rt.moments ms).clock := hfirst.trans hdue
    refine ⟨poll_of_elapsed hactor hw helapsed waker, fun delivery rt' hrace => ?_⟩
    have hearly := (onTime_of_race hrace hactor).delivered delivery rfl w hw
    exact absurd helapsed (Nat.not_le_of_lt hearly)

open Sample

/-- Bob's party answers Alice's `Open` with a request of its own, and she does not ack that. -/
def unacked : List (Moment (Hosted Empty) Shared) :=
  [.Other (.Elsewhere (fun net => (net.register alice).2) 0) nofun,
    .Other (.InstallParty bob.name (Allowlist.empty.admitEndpoint alice.endpoint) patience
      (.app (.countdown (.new 1)))) nofun,
    .Other (.Elsewhere (fun net => (net.send alice bob (.Turn (.Open (request 1)))).2.1) 2) nofun,
    .Poll bob.name 0, .Other (.Elsewhere id 7) nofun]

theorem deadlines_exact_bob :
    ∃ actor instant turn,
      ((bobsRuntime (Hosted Empty)).moments unacked).actors bob.name = some actor ∧
      LastSaid (bobsRuntime (Hosted Empty)) bob.name alice .Ack unacked instant turn ∧
      instant + actor.deadlines.ack ≤ ((bobsRuntime (Hosted Empty)).moments unacked).clock := by
  have hfails : (((bobsRuntime (Hosted Empty)).moments unacked).poll bob.name 0).2.2.any
      (fun | .Failed _ peer _ cause => peer = alice && cause = .DeadlineElapsed .Ack | _ => false) =
        true := by decide +kernel
  obtain ⟨e, he, hcause⟩ := List.any_eq_true.mp hfails
  split at hcause
  · rw [Bool.and_eq_true, decide_eq_true_eq, decide_eq_true_eq] at hcause
    obtain ⟨rfl, rfl⟩ := hcause
    obtain ⟨actor, due, instant, turn, hactor, -, hclock, hlast, rfl, -⟩ :=
      (deadlines_exact (bobsRuntime_fresh _) unacked bob.name 0).1 _ _ _ _ he
    exact ⟨actor, instant, turn, hactor, hlast, hclock⟩
  · cases hcause

end LocalRuntime

end Kamiroh
