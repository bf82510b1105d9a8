import Kamiroh.Kameo.Timers
import Kamiroh.Runtime.Deaths

/-!
# One handler, one method

What the Kameo host does in one handler, the toy runtime does in one method or one step, and the other
way round.
-/

namespace Kamiroh

open TurnState

variable {P N Ib : Type}

/-! ## Abstraction -/

/-- The waits with the instants at which their tasks wake. -/
def PeerWaits.abs (waits : PeerWaits) : PeerState :=
  ⟨waits.state, waits.ack.map fun ack => (ack.1, ack.2.due), waits.turn.map (·.due)⟩

theorem PeerWaits.abs_settleAck (waits : PeerWaits) (id : RequestId) :
    (waits.settleAck id).1.abs = waits.abs.settleAck id := by
  obtain ⟨state, _ | ⟨due, task⟩, turn, epoch⟩ := waits
  · rfl
  · by_cases h : due = id <;> simp [settleAck, abs, PeerState.settleAck, h]

/-- The toy runtime's actor holds what the host holds, but for the order of the conversations. -/
structure Seen (actor : LocalActor P Ib) (host : Host P) : Prop where
  allowlist : actor.allowlist = host.allowlist
  kind : actor.kind = host.kind
  deadlines : actor.deadlines = host.deadlines
  party : actor.party = host.party
  lookup : ∀ peer, actor.conversations.lookup peer =
    (host.conversations.lookup peer).map PeerWaits.abs

namespace Seen

variable {actor : LocalActor P Ib} {host : Host P}

theorem peer (h : Seen actor host) (peer : Address) : actor.peer peer = (host.waits peer).abs := by
  rw [LocalActor.peer, Host.waits, h.lookup]
  cases host.conversations.lookup peer <;> rfl

theorem setWaits (h : Seen actor host) (peer : Address) {ps : PeerState} {waits : PeerWaits}
    (hps : ps = waits.abs) : Seen (actor.setPeer peer ps) (host.setWaits peer waits) where
  allowlist := h.allowlist
  kind := h.kind
  deadlines := h.deadlines
  party := h.party
  lookup p := by
    simp only [LocalActor.setPeer, Host.setWaits, hps]
    by_cases hp : p = peer
    · subst hp
      rw [AList.lookup_insert, AList.lookup_insert]
      rfl
    · rw [AList.lookup_insert_ne hp, AList.lookup_insert_ne hp, h.lookup]

theorem abort (h : Seen actor host) (tasks : List Task) : Seen actor (host.abort tasks) :=
  ⟨h.allowlist, h.kind, h.deadlines, h.party, h.lookup⟩

theorem spawn (h : Seen actor host) (due : Instant) (report : DeadlineElapsed) :
    Seen actor (host.spawn due report).2 :=
  ⟨h.allowlist, h.kind, h.deadlines, h.party, h.lookup⟩

theorem update (h : Seen actor host) (peer : Address) {f : PeerWaits → PeerWaits × List Task}
    {g : PeerState → PeerState} (hfg : ∀ waits, (f waits).1.abs = g waits.abs) :
    Seen { actor with conversations := actor.conversations.modify peer g } (host.update peer f) := by
  have hlookup := h.lookup peer
  unfold Host.update
  cases hpeer : host.conversations.lookup peer with
  | none =>
    rw [Assoc.modify_of_none g (by rw [hlookup, hpeer]; rfl)]
    exact h
  | some waits =>
    rw [Assoc.modify_of_lookup g (v := waits.abs) (by rw [hlookup, hpeer]; rfl)]
    exact (h.abort _).setWaits peer (hfg waits).symm

theorem settleAck (h : Seen actor host) (peer : Address) (id : RequestId) :
    Seen { actor with conversations := actor.conversations.modify peer fun ps => ps.settleAck id }
      (host.settleAck peer id) :=
  h.update peer fun waits => waits.abs_settleAck id

theorem settleAll (h : Seen actor host) (peer : Address) (state : TurnState) :
    Seen (actor.setPeer peer ⟨state, none, none⟩) (host.settleAll peer state) :=
  (h.abort _).setWaits peer rfl

/-- Arming: the toy runtime sets instants, the host spawns tasks that wake at them. -/
theorem arm (h : Seen actor host) {peer : Address} (reply : Turn) (progress : TurnProgress)
    (now : Instant) (hunarmed : (host.waits peer).ack = none) :
    Seen (actor.setPeer peer
        (.armed (host.waits peer).state reply progress now actor.deadlines))
      (host.arm peer reply.posed progress now) := by
  rw [h.deadlines]
  simp only [Host.arm, hunarmed]
  cases reply with
  | Open request | Continue answer request =>
    cases progress
    · exact ((h.spawn _ _).spawn _ _).setWaits peer rfl
    · exact (h.spawn _ _).setWaits peer rfl
  | Close answer =>
    cases progress
    · exact (h.spawn _ _).setWaits peer rfl
    · exact h.setWaits peer rfl

variable [Party P]

theorem handOver (h : Seen actor host) {here : Address} (haddress : host.address = here)
    (peer : Address) (turn : Turn) :
    (actor.handOver here peer turn).1 = (host.handOver peer turn).1 ∧
      (actor.handOver here peer turn).2.2 = (host.handOver peer turn).2.2 ∧
      Seen (actor.handOver here peer turn).2.1 (host.handOver peer turn).2.1 := by
  subst haddress
  unfold LocalActor.handOver Host.handOver
  rw [h.party]
  cases host.party with
  | none => exact ⟨rfl, rfl, h⟩
  | some party => exact ⟨rfl, rfl, h.allowlist, h.kind, h.deadlines, rfl, h.lookup⟩

theorem failExchange (h : Seen actor host) {here : Address} (haddress : host.address = here)
    (krt : KameoRuntime P N Ib) (peer : Address) (cause : FailureCause) :
    Seen (actor.failExchange here peer cause).1 (krt.failExchange host peer cause).1 ∧
      (krt.failExchange host peer cause).2 =
        (actor.failExchange here peer cause).2 ++ krt.emit (.ExchangeFailed here peer cause) := by
  subst haddress
  have hfailed := h.update peer (f := PeerWaits.fail) (g := PeerState.fail) fun _ => rfl
  have hparty : actor.party = (host.update peer PeerWaits.fail).party := hfailed.party
  simp only [LocalActor.failExchange, KameoRuntime.failExchange, hparty, h.lookup peer]
  cases hp : (host.update peer PeerWaits.fail).party with
  | none =>
    refine ⟨⟨hfailed.allowlist, hfailed.kind, hfailed.deadlines, hp.symm, hfailed.lookup⟩, ?_⟩
    cases host.conversations.lookup peer <;> rfl
  | some party =>
    refine ⟨⟨hfailed.allowlist, hfailed.kind, hfailed.deadlines, rfl, hfailed.lookup⟩, ?_⟩
    cases host.conversations.lookup peer <;> rfl

end Seen

/-! ## Addresses -/

namespace Host

variable (host : Host P)

@[simp] theorem setWaits_address (peer : Address) (waits : PeerWaits) :
    (host.setWaits peer waits).address = host.address := rfl

@[simp] theorem settleAll_address (peer : Address) (state : TurnState) :
    (host.settleAll peer state).address = host.address := rfl

@[simp] theorem update_address (peer : Address) (f : PeerWaits → PeerWaits × List Task) :
    (host.update peer f).address = host.address := by
  unfold update
  split <;> rfl

@[simp] theorem settleAck_address (peer : Address) (id : RequestId) :
    (host.settleAck peer id).address = host.address := host.update_address ..

@[simp] theorem arm_address (peer : Address) (posed : Option RequestId) (progress : TurnProgress)
    (now : Instant) : (host.arm peer posed progress now).address = host.address := by
  cases posed <;> cases progress <;> rfl

variable [Party P]

@[simp] theorem handOver_address (peer : Address) (turn : Turn) :
    (host.handOver peer turn).2.1.address = host.address := by
  unfold handOver
  split <;> rfl

end Host

section

variable [Party P]

@[simp] theorem KameoRuntime.failExchange_address (krt : KameoRuntime P N Ib) (host : Host P)
    (peer : Address) (cause : FailureCause) :
    (krt.failExchange host peer cause).1.address = host.address := by
  unfold failExchange
  dsimp only
  split <;> exact host.update_address ..

@[simp] theorem KameoRuntime.failEach_address (krt : KameoRuntime P N Ib) (host : Host P)
    (cause : FailureCause) (peers : List Address) :
    (krt.failEach host cause peers).1.address = host.address := by
  induction peers generalizing host with
  | nil => rfl
  | cons peer peers ih => rw [failEach, ih, failExchange_address]

theorem LocalRuntime.failExchange_setPeer (rt : LocalRuntime P N Ib) (name : ActorName)
    (actor : LocalActor P Ib) (peer : Address) (cause : FailureCause) (ps ps' : PeerState)
    (h : ps.state = ps'.state) :
    rt.failExchange name (actor.setPeer peer ps) peer cause =
      rt.failExchange name (actor.setPeer peer ps') peer cause := by
  have hmodify : ∀ ps : PeerState,
      Assoc.modify (actor.conversations.insert peer ps) peer PeerState.fail =
        actor.conversations.insert peer ps.fail := fun ps => by
    rw [Assoc.modify_of_lookup PeerState.fail (AList.lookup_insert _), AList.insert_insert]
  simp only [failExchange, LocalActor.failExchange, LocalActor.setPeer, AList.lookup_insert, hmodify,
    PeerState.fail, h]

omit [Party P] in
theorem LocalActor.setPeer_setPeer (actor : LocalActor P Ib) (peer : Address) (ps ps' : PeerState) :
    (actor.setPeer peer ps).setPeer peer ps' = actor.setPeer peer ps' := by
  simp only [setPeer, AList.insert_insert]

end

theorem LocalRuntime.rehash_cases {rt : LocalRuntime P N Ib} {name : ActorName}
    {actor : LocalActor P Ib} (hactor : rt.actors name = some actor)
    (conversations : Assoc Address PeerState) :
    ∃ arranged : Assoc Address PeerState,
      (∀ peer, arranged.lookup peer = actor.conversations.lookup peer) ∧
        rt.rehash name conversations = rt.setActor name { actor with conversations := arranged } := by
  by_cases hperm : conversations.entries.Perm actor.conversations.entries
  · refine ⟨conversations, fun peer => AList.perm_lookup hperm, ?_⟩
    simp only [rehash, hactor, if_pos hperm]
  · refine ⟨actor.conversations, fun peer => rfl, ?_⟩
    simp only [rehash, hactor, if_neg hperm]
    exact (setActor_eq_self rt hactor).symm

/-! ## Methods and handlers -/

structure Beside (rt : LocalRuntime P N Ib) (krt : KameoRuntime P N Ib) : Prop where
  endpoint : rt.endpoint = krt.endpoint
  net : rt.net = krt.net
  clock : rt.clock = krt.clock
  observer : rt.observer = krt.observer

theorem Beside.emit {rt : LocalRuntime P N Ib} {krt : KameoRuntime P N Ib} (h : Beside rt krt)
    (event : Event) : rt.emit event = krt.emit event := by
  rw [LocalRuntime.emit, KameoRuntime.emit, h.observer]

theorem Beside.withNet {rt : LocalRuntime P N Ib} {krt : KameoRuntime P N Ib} (h : Beside rt krt)
    (net : N) : Beside { rt with net } { krt with net } := ⟨h.endpoint, rfl, h.clock, h.observer⟩

/-- A method on the actor `name` and a handler of its host did the same. -/
structure Tracks {α β : Type} (rt : LocalRuntime P N Ib) (krt : KameoRuntime P N Ib)
    (name : ActorName) (ran : Ran P N Ib α) (handled : Handled P N Ib β) : Prop where
  effects : ran.effects = handled.effects
  actor : ∃ actor, Seen actor handled.host ∧
    ran.rt = { rt with net := handled.rt.net }.setActor name actor
  outside : handled.rt = { krt with net := handled.rt.net }
  address : handled.host.address = rt.address name

section

variable {rt : LocalRuntime P N Ib} {krt : KameoRuntime P N Ib} {name : ActorName}

theorem Tracks.after {α β : Type} {ran : Ran P N Ib α} {handled : Handled P N Ib β}
    (h : Tracks rt krt name ran handled) (effects : List Effect) :
    Tracks rt krt name { ran with effects := effects ++ ran.effects }
      { handled with effects := effects ++ handled.effects } :=
  ⟨congrArg (effects ++ ·) h.effects, h.actor, h.outside, h.address⟩

theorem Tracks.withNet {α β : Type} {ran : Ran P N Ib α} {handled : Handled P N Ib β} {net : N}
    (h : Tracks { rt with net } { krt with net } name ran handled) : Tracks rt krt name ran handled :=
  ⟨h.effects, h.actor, h.outside, h.address⟩

variable {actor : LocalActor P Ib} {host : Host P} [Party P]

theorem tracks_failEach (hbeside : Beside rt krt) (hseen : Seen actor host)
    (haddress : host.address = rt.address name) (cause : FailureCause) (peers : List Address) :
    Seen (rt.failEach name actor cause peers).1 (krt.failEach host cause peers).1 ∧
      (rt.failEach name actor cause peers).2 = (krt.failEach host cause peers).2 := by
  induction peers generalizing actor host with
  | nil => exact ⟨hseen, rfl⟩
  | cons peer peers ih =>
    obtain ⟨hfailed, heffects⟩ := hseen.failExchange haddress krt peer cause
    obtain ⟨hrest, hreffects⟩ :=
      ih hfailed ((krt.failExchange_address host peer cause).trans haddress)
    refine ⟨hrest, ?_⟩
    rw [LocalRuntime.failEach, KameoRuntime.failEach, hreffects, heffects, hbeside.emit]

theorem tracks_failExchange (hbeside : Beside rt krt) (hseen : Seen actor host)
    (haddress : host.address = rt.address name) (peer : Address) (cause : FailureCause) :
    let failed := krt.failExchange host peer cause
    Tracks rt krt name (rt.failExchange name actor peer cause)
      (⟨(), krt, failed.1, failed.2⟩ : Handled P N Ib Unit) := by
  obtain ⟨hfailed, heffects⟩ := hseen.failExchange haddress krt peer cause
  refine ⟨?_, ⟨_, hfailed, ?_⟩, rfl, (krt.failExchange_address host peer cause).trans haddress⟩
  · rw [heffects, LocalRuntime.failExchange, hbeside.emit]
  · rw [← hbeside.net]
    rfl

variable [Transport N]

omit [Party P] in
theorem send_beside (hbeside : Beside rt krt) (origin target : Address) (message : Message) :
    krt.send origin target message =
      ((rt.send origin target message).result.isOk,
        { krt with net := (rt.send origin target message).rt.net },
        (rt.send origin target message).effects) := by
  unfold KameoRuntime.send LocalRuntime.send
  rw [← hbeside.net]
  rcases Transport.send rt.net origin target message with ⟨_ | _, net⟩ <;> rfl

omit [Party P] in
theorem tracks_receipt (hbeside : Beside rt krt) (haddress : host.address = rt.address name)
    (peer : Address) (ack : Option Message) :
    krt.sendIgnored host peer ack =
      ⟨(), { krt with net := (rt.receipt (rt.address name) peer ack).rt.net }, host,
        (rt.receipt (rt.address name) peer ack).effects⟩ := by
  cases ack with
  | none => simp only [KameoRuntime.sendIgnored, LocalRuntime.receipt, hbeside.net]
  | some ack =>
    simp only [KameoRuntime.sendIgnored, LocalRuntime.receipt, haddress, send_beside hbeside]

/-- The toy runtime arms before it sends and the host after, which makes no difference: a refused send
clears what was armed. -/
theorem tracks_answer (hbeside : Beside rt krt) (hseen : Seen actor host)
    (haddress : host.address = rt.address name) {peer : Address} (hunarmed : (host.waits peer).ack = none)
    {reply : Turn} {ran : Ran P N Ib Stepped}
    (hran : LocalRuntime.Answered rt name actor (rt.address name) peer reply ran) :
    Tracks rt krt name ran (krt.answer host peer reply) := by
  have hpeer : actor.peer peer = (host.waits peer).abs := hseen.peer peer
  have hstate : (actor.peer peer).state = (host.waits peer).state := congrArg PeerState.state hpeer
  have hmoved : ∀ state, Seen (actor.setPeer peer { actor.peer peer with state })
      (host.setWaits peer { host.waits peer with state }) := fun state =>
    hseen.setWaits peer (by rw [hpeer]; rfl)
  rcases hran with ⟨error, hout, failed, rfl⟩ | ⟨progress, hout, sent, rfl, hrefused, failed, rfl⟩ |
    ⟨progress, hout, sent, rfl, haccepted⟩
  · rw [hstate] at hout ⊢
    simp only [KameoRuntime.answer, hout, onOutgoing_refused _ _ _ hout, haddress]
    have hseen' : Seen (actor.setPeer peer (actor.peer peer)) (host.setWaits peer (host.waits peer)) :=
      hseen.setWaits peer hpeer
    exact (tracks_failExchange hbeside hseen' haddress peer .IllegalReply).after
      [.Moved (rt.address name) peer (host.waits peer).state (host.waits peer).state]
  · rw [hstate] at hout ⊢
    have hrefused : (rt.send (rt.address name) peer (.Turn reply)).result.isOk = false := hrefused
    simp only [KameoRuntime.answer, hout, onOutgoing_state _ _ _ hout, Host.setWaits_address,
      haddress, send_beside hbeside, hrefused, Bool.false_eq_true, if_false]
    have hforget : ∀ rt' : LocalRuntime P N Ib,
        rt'.failExchange name (rt.arm actor peer reply progress) peer .SendFailed =
          rt'.failExchange name
            (actor.setPeer peer { actor.peer peer with state := afterTurn .AwaitingTheirTurn reply })
            peer .SendFailed := fun rt' => rt'.failExchange_setPeer name actor peer .SendFailed _ _ rfl
    rw [LocalRuntime.send_rt, hforget]
    generalize (Transport.send rt.net (rt.address name) peer (.Turn reply)).2 = net
    have hfailed := tracks_failExchange (hbeside.withNet net)
      (hmoved (afterTurn .AwaitingTheirTurn reply)) haddress peer .SendFailed
    exact hfailed.withNet.after (_ :: _)
  · rw [hstate] at hout ⊢
    have haccepted : (rt.send (rt.address name) peer (.Turn reply)).result.isOk = true := haccepted
    simp only [KameoRuntime.answer, hout, onOutgoing_state _ _ _ hout, Host.setWaits_address,
      haddress, send_beside hbeside, haccepted, if_true]
    have harmed := (hmoved (afterTurn .AwaitingTheirTurn reply)).arm reply progress
      rt.clock (by rwa [Host.waits_setWaits_self])
    rw [Host.waits_setWaits_self, LocalActor.setPeer_setPeer] at harmed
    refine ⟨rfl, ⟨_, ?_, by rw [LocalRuntime.send_rt]⟩, rfl, (Host.arm_address ..).trans haddress⟩
    rw [← hbeside.clock]
    exact harmed

theorem tracks_takeTurn (hbeside : Beside rt krt) (hseen : Seen actor host)
    (haddress : host.address = rt.address name) {peer : Address} {turn : Turn}
    {ack : Option Message} {ran : Ran P N Ib Stepped}
    (hran : LocalRuntime.TookTurn rt name actor (rt.address name) peer turn ack ran) :
    Tracks rt krt name ran (krt.takeTurn host peer turn ack) := by
  have hpeer : actor.peer peer = (host.waits peer).abs := hseen.peer peer
  have hstate : (actor.peer peer).state = (host.waits peer).state := congrArg PeerState.state hpeer
  have hheard : Seen (LocalRuntime.hear actor peer turn)
      (host.settleAll peer (afterTurn .OweThem turn)) := hseen.settleAll peer _
  have hreceipt := tracks_receipt hbeside
    ((host.settleAll_address peer (afterTurn .OweThem turn)).trans haddress) peer ack
  rw [LocalRuntime.receipt_rt] at hreceipt
  obtain ⟨hreply, hsame, htaken⟩ := hheard.handOver haddress peer turn
  rcases hran with ⟨error, hin⟩ | ⟨progress, hin, taken, effects, hsilent⟩ |
    ⟨progress, hin, reply, taken, effects, hanswer, ran, hran⟩
  · rw [hstate] at hin ⊢
    simp only [KameoRuntime.takeTurn, hin, onIncoming_refused _ _ _ hin, haddress, ← hbeside.emit]
    refine ⟨rfl, ⟨_, hseen.setWaits peer hpeer, ?_⟩, rfl, haddress⟩
    rw [← hbeside.net]
  · rw [hsilent] at hreply hsame htaken
    rw [hstate] at hin ⊢
    simp only [KameoRuntime.takeTurn, hin, onIncoming_state _ _ _ hin, haddress, hreceipt, ← hreply,
      ← hsame, LocalRuntime.receipt_rt]
    exact ⟨rfl, ⟨taken, htaken, rfl⟩, rfl, (Host.handOver_address ..).trans haddress⟩
  · rw [hanswer] at hreply hsame htaken
    rw [hstate] at hin ⊢
    simp only [KameoRuntime.takeTurn, hin, onIncoming_state _ _ _ hin, haddress, hreceipt, ← hreply,
      ← hsame]
    rw [LocalRuntime.receipt_rt] at hran
    generalize LocalRuntime.receiptNet rt.net (rt.address name) peer ack = net at hran ⊢
    have hanswered := tracks_answer (hbeside.withNet net) htaken
      ((Host.handOver_address ..).trans haddress) (by simp) hran
    exact hanswered.withNet.after _

theorem tracks_onDeliver [Registry N Ib] (hbeside : Beside rt krt) (hseen : Seen actor host)
    (haddress : host.address = rt.address name) (hactor : rt.actors name = some actor)
    {delivery : Delivery} (htarget : delivery.target = rt.address name)
    (hmessage : ∀ harness, delivery.message ≠ .Harness harness) {ran : Ran P N Ib Outcome}
    (hran : LocalRuntime.Delivered rt name actor delivery ran) :
    Tracks rt krt name ran (krt.onDeliver host delivery) := by
  have hput : ∀ net, ({ rt with net } : LocalRuntime P N Ib).setActor name actor = { rt with net } :=
    fun net => LocalRuntime.setActor_eq_self { rt with net } hactor
  rcases hran with h | ⟨h, request, hrequest⟩ | ⟨h, ack, hack⟩ | ⟨_, harness, hharness, _⟩ |
    ⟨_, harness, hharness, _⟩ | ⟨_, harness, hharness, _⟩ | ⟨h, turn, hturn, ran, hran⟩
  · rw [hseen.allowlist] at h
    simp only [KameoRuntime.onDeliver, process_denied.mpr h, htarget, haddress, hbeside.emit]
    exact ⟨rfl, ⟨actor, hseen, by rw [← hbeside.net, hput]⟩, rfl, haddress⟩
  · rw [hseen.allowlist] at h
    simp only [KameoRuntime.onDeliver, process_admitted h, hrequest, KameoRuntime.sendIgnored,
      haddress, send_beside hbeside, LocalRuntime.sendAndReturn, htarget]
    refine ⟨rfl, ⟨actor, hseen, ?_⟩, rfl, haddress⟩
    rw [hput, LocalRuntime.send_rt]
  · rw [hseen.allowlist] at h
    simp only [KameoRuntime.onDeliver, process_admitted h, hack]
    refine ⟨rfl, ⟨_, hseen.settleAck delivery.origin ack.id, ?_⟩, rfl,
      (host.settleAck_address ..).trans haddress⟩
    rw [← hbeside.net]
  · exact absurd hharness (hmessage harness)
  · exact absurd hharness (hmessage harness)
  · exact absurd hharness (hmessage harness)
  · rw [hseen.allowlist] at h
    simp only [KameoRuntime.onDeliver, process_admitted h, hturn]
    rw [htarget] at hran
    have htaken := tracks_takeTurn hbeside hseen haddress hran
    exact ⟨htaken.effects, htaken.actor, htaken.outside, htaken.address⟩

omit [Party P] [Transport N] in
theorem tracks_onAdmit (hbeside : Beside rt krt) (hseen : Seen actor host)
    (haddress : host.address = rt.address name) (hactor : rt.actors name = some actor)
    (endpoint : EndpointId) :
    Tracks rt krt name (rt.admitEndpoint name endpoint) (krt.onAdmit host endpoint) := by
  have hseen' : Seen { actor with allowlist := actor.allowlist.admitEndpoint endpoint }
      { host with allowlist := host.allowlist.admitEndpoint endpoint } :=
    ⟨congrArg (·.admitEndpoint endpoint) hseen.allowlist, hseen.kind, hseen.deadlines, hseen.party,
      hseen.lookup⟩
  simp only [LocalRuntime.admitEndpoint, hactor, KameoRuntime.onAdmit]
  exact ⟨rfl, ⟨_, hseen', by rw [← hbeside.net]⟩, rfl, haddress⟩

omit [Transport N] in
theorem tracks_onRevoke (hbeside : Beside rt krt) (hseen : Seen actor host)
    (haddress : host.address = rt.address name) (hactor : rt.actors name = some actor)
    {endpoint : EndpointId} (hagreed : actor.affected (· = endpoint) = host.affected endpoint) :
    Tracks rt krt name (rt.revoke name endpoint) (krt.onRevoke host endpoint) := by
  have hseen' : Seen { actor with allowlist := actor.allowlist.revoke endpoint }
      { host with allowlist := host.allowlist.revoke endpoint } :=
    ⟨congrArg (·.revoke endpoint) hseen.allowlist, hseen.kind, hseen.deadlines, hseen.party,
      hseen.lookup⟩
  obtain ⟨hfailed, heffects⟩ :=
    tracks_failEach hbeside hseen' haddress .Revoked (host.affected endpoint)
  have hrevoke : (rt.revoke name endpoint).rt = rt.setActor name
        (rt.failEach name { actor with allowlist := actor.allowlist.revoke endpoint } .Revoked
          (host.affected endpoint)).1 ∧
      (rt.revoke name endpoint).effects =
        (rt.failEach name { actor with allowlist := actor.allowlist.revoke endpoint } .Revoked
          (host.affected endpoint)).2 := by
    rw [← hagreed]
    simp only [LocalRuntime.revoke, hactor]
    exact ⟨rfl, rfl⟩
  refine ⟨hrevoke.2.trans heffects, ⟨_, hfailed, ?_⟩, rfl,
    (krt.failEach_address ..).trans haddress⟩
  rw [hrevoke.1, KameoRuntime.onRevoke, ← hbeside.net]

theorem tracks_onPeerDied [Registry N Ib] (hbeside : Beside rt krt) (hseen : Seen actor host)
    (haddress : host.address = rt.address name) (hactor : rt.actors name = some actor)
    (hquiet : rt.Quiet name) {endpoint : EndpointId}
    (hagreed : actor.affected (· = endpoint) = host.affected endpoint) :
    Tracks (rt.reportDead endpoint) krt name (rt.step name (.PeerDeath endpoint))
      (krt.onPeerDied host endpoint) := by
  have hdid := LocalRuntime.step_did hactor (.PeerDeath endpoint)
  generalize rt.step name (.PeerDeath endpoint) = ran at hdid
  rcases hdid with ⟨_, endpoint', hdead, hlive, _, rfl⟩ | ⟨_, _, _, rfl⟩
  · exact absurd (LocalActor.affected_of_quiet (hquiet actor hactor) hdead) hlive
  · have hbeside' : Beside (rt.reportDead endpoint) krt :=
      ⟨hbeside.endpoint, hbeside.net, hbeside.clock, hbeside.observer⟩
    obtain ⟨hfailed, heffects⟩ :=
      tracks_failEach hbeside' hseen haddress .Disconnected (host.affected endpoint)
    rw [hagreed]
    refine ⟨heffects, ⟨_, hfailed, ?_⟩, rfl, (krt.failEach_address ..).trans haddress⟩
    rw [KameoRuntime.onPeerDied, ← hbeside.net]
    rfl

omit [Party P] [Transport N] in
theorem tracks_onRehash (hbeside : Beside rt krt) (hseen : Seen actor host)
    (haddress : host.address = rt.address name) (hactor : rt.actors name = some actor)
    (conversations : Assoc Address PeerState) (conversations' : Assoc Address PeerWaits) :
    Tracks rt krt name (⟨(), rt.rehash name conversations, []⟩ : Ran P N Ib Unit)
      (krt.onRehash host conversations') := by
  obtain ⟨arranged, hlookup, hrehash⟩ := LocalRuntime.rehash_cases hactor conversations
  obtain ⟨arranged', hlookup', hrehash'⟩ := krt.onRehash_cases host conversations'
  have hseen' : Seen { actor with conversations := arranged }
      { host with conversations := arranged' } :=
    ⟨hseen.allowlist, hseen.kind, hseen.deadlines, hseen.party, fun peer => by
      rw [hlookup, hlookup', hseen.lookup]⟩
  rw [hrehash, hrehash']
  exact ⟨rfl, ⟨_, hseen', by rw [← hbeside.net]⟩, rfl, haddress⟩

theorem tracks_elapsed [Registry N Ib] (hbeside : Beside rt krt) (hseen : Seen actor host)
    (haddress : host.address = rt.address name) (hactor : rt.actors name = some actor)
    (hquiet : rt.Quiet name) (htended : host.Tended) {task : Task} (htask : task ∈ host.sleeping)
    (hdue : actor.earliestDue = some (task.report.peer, task.report.kind, task.due)) :
    Tracks rt krt name (rt.step name .DeadlineElapsed)
      (krt.onDeadlineElapsed (host.abort [task]) task.report) := by
  have hfailed := tracks_failExchange hbeside hseen haddress task.report.peer
    (.DeadlineElapsed task.report.kind)
  rw [KameoRuntime.onDeadlineElapsed_awake htended krt htask]
  simp only [LocalRuntime.step, hactor, LocalRuntime.sweepDead_none (hquiet actor hactor), hdue]
  exact ⟨hfailed.effects, hfailed.actor, hfailed.outside, hfailed.address⟩

end

end Kamiroh
