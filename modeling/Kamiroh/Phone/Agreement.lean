import Kamiroh.Phone.Waits
import Kamiroh.Runtime.Overheard

/-!
# A phone and a party agree on their exchanges

A phone with its pump, the runtime that hosts the peer, and the network between them. Deadlines elapse on
either side, endpoints die, are cut off and revoked, and the app opens again: what either side accepts is
what the other one said in the same exchange.
-/

namespace Kamiroh

open TurnState

/-! ## Two machines and a history that accounts for them -/

namespace Transcripts

/-- Whatever a side accepted, the other side had said, in an exchange that both had seen alike from its
`Open` on. -/
def Agrees (log : List Act) : Prop :=
  ∀ pre post s t, log = pre ++ .Accept s t :: post →
    ∃ before between, pre = before ++ .Send s.other t :: between ∧
      transcript s (pre ++ [.Accept s t]) = transcript s.other (before ++ [.Send s.other t]) ∧
      FromOpen (transcript s (pre ++ [.Accept s t]))

/-- The log is the history of the two machines, and every turn that is on its way was said in it. -/
structure Witnessed (log : List Act) (machine : Side → TurnState) (onTheWay : Side → Turn → Prop) :
    Prop where
  known : ∃ flight, Inv log ⟨machine, flight⟩ ∧ ∀ s t, onTheWay s t → t ∈ flight s
  agrees : Agrees log

section

variable {log : List Act} {machine machine' : Side → TurnState} {onTheWay onTheWay' : Side → Turn → Prop}

theorem witnessed_start (honTheWay : ∀ s t, ¬ onTheWay s t) (hmachine : ∀ s, machine s = .Idle) :
    Witnessed [] machine onTheWay := by
  have hidle : machine = start.machine := funext hmachine
  subst hidle
  refine ⟨⟨start.flight, inv_start, fun s t ht => absurd ht (honTheWay s t)⟩, ?_⟩
  intro pre post s t h
  simp at h

theorem Witnessed.quiet (h : Witnessed log machine onTheWay)
    (hmachine : ∀ s, machine' s = machine s ∨ (machine' s).live = false)
    (honTheWay : ∀ s t, onTheWay' s t → onTheWay s t) : Witnessed log machine' onTheWay' := by
  obtain ⟨⟨flight, hinv, hflight⟩, hagrees⟩ := h
  have hlive : ∀ s, (machine' s).live = true → machine' s = machine s := by
    intro s hs
    rcases hmachine s with hsame | hover
    · exact hsame
    · rw [hover] at hs
      cases hs
  refine ⟨⟨flight, ⟨fun s hs => ?_, fun s x hx => ?_, fun s x hx => ?_, hinv.flight⟩,
    fun s t ht => hflight s t (honTheWay s t ht)⟩, hagrees⟩
  · have hlives : (machine' s).live = true := hs
    have hsame := hlive s hlives
    rw [hsame] at hlives
    exact hinv.opened s hlives
  · have hawaits : machine' s = .AwaitingTheirTurn x := hx
    have hsame := hlive s (by rw [hawaits]; rfl)
    exact hinv.awaits s x (hsame.symm.trans hawaits)
  · have howes : machine' s = .OweThem x := hx
    have hsame := hlive s (by rw [howes]; rfl)
    exact hinv.owes s x (hsame.symm.trans howes)

theorem Agrees.said (h : Agrees log) (s : Side) (t : Turn) : Agrees (log ++ [.Send s t]) := by
  intro pre post s' t' hlog
  rcases List.eq_nil_or_concat post with rfl | ⟨post, last, rfl⟩
  · have hlast := (List.append_inj' hlog rfl).2
    simp at hlast
  · rw [List.concat_eq_append, ← List.cons_append, ← List.append_assoc] at hlog
    exact h pre post s' t' (List.append_inj' hlog rfl).1

theorem Witnessed.said (h : Witnessed log machine onTheWay) {s : Side} {t : Turn} {progress : TurnProgress}
    (hturn : ((machine s).onOutgoing t).1 = .ok progress) :
    Witnessed (log ++ [.Send s t]) (Function.update machine s (afterTurn .AwaitingTheirTurn t))
      (fun s' t' => onTheWay s' t' ∨ s' = s.other ∧ t' = t) := by
  obtain ⟨⟨flight, hinv, hflight⟩, hagrees⟩ := h
  have hsaid := inv_send hinv s t progress hturn
  rw [onOutgoing_state _ _ _ hturn] at hsaid
  refine ⟨⟨_, hsaid, fun s' t' ht' => ?_⟩, hagrees.said s t⟩
  by_cases hs : s' = s.other
  · subst hs
    rw [Function.update_self, Multiset.mem_cons]
    rcases ht' with hbefore | ⟨-, rfl⟩
    · exact Or.inr (hflight _ t' hbefore)
    · exact Or.inl rfl
  · rw [Function.update_of_ne hs]
    rcases ht' with hbefore | ⟨hother, -⟩
    · exact hflight s' t' hbefore
    · exact absurd hother hs

theorem Witnessed.heard (h : Witnessed log machine onTheWay) (hn : (posedIds log).Nodup) {s : Side} {t : Turn}
    (ht : onTheWay s t) {progress : TurnProgress} (hturn : ((machine s).onIncoming t).1 = .ok progress) :
    Witnessed (log ++ [.Accept s t]) (Function.update machine s (afterTurn .OweThem t)) onTheWay := by
  obtain ⟨⟨flight, hinv, hflight⟩, hagrees⟩ := h
  have hin := hflight s t ht
  refine ⟨⟨flight, ?_, hflight⟩, ?_⟩
  · -- One more of the same turn may be taken out again.
    have hmore : Inv log ⟨machine, Function.update flight s (t ::ₘ flight s)⟩ := by
      refine ⟨hinv.opened, hinv.awaits, hinv.owes, fun s' t' ht' => ?_⟩
      simp only at ht'
      by_cases hs : s' = s
      · subst hs
        rw [Function.update_self, Multiset.mem_cons] at ht'
        rcases ht' with rfl | ht'
        · exact hinv.flight _ _ hin
        · exact hinv.flight _ t' ht'
      · rw [Function.update_of_ne hs] at ht'
        exact hinv.flight s' t' ht'
    have hmem : t ∈ Function.update flight s (t ::ₘ flight s) s := by
      rw [Function.update_self]
      exact Multiset.mem_cons_self ..
    have haccepted := inv_accept hmore hn s t hmem progress hturn
    simp only at haccepted
    rwa [onIncoming_state _ _ _ hturn, Function.update_self, Multiset.erase_cons_head, Function.update_idem,
      Function.update_eq_self] at haccepted
  · intro pre post s' t' hlog
    rcases List.eq_nil_or_concat post with rfl | ⟨post, last, rfl⟩
    · obtain ⟨rfl, hlast⟩ := List.append_inj' hlog rfl
      cases hlast
      obtain ⟨before, between, hpre, hsent⟩ := accepted_was_sent hinv hn hin hturn
      refine ⟨before, between, hpre, ?_, ?_⟩
      · rw [transcript_snoc, record_accept, if_pos rfl]
        exact hsent.symm
      · rw [transcript_snoc, record_accept, if_pos rfl]
        exact accepted_fromOpen hinv hturn
    · rw [List.concat_eq_append, ← List.cons_append, ← List.append_assoc] at hlog
      exact hagrees pre post s' t' (List.append_inj' hlog rfl).1

theorem Witnessed.spoke (h : Witnessed log machine onTheWay) {reached : Turn → Prop} {said : List Act}
    {after : TurnState} (hspoke : LocalRuntime.Spoke reached (machine .Right) said after)
    (hn : (posedIds (log ++ said)).Nodup)
    (hreached : ∀ t, reached t → onTheWay .Right t)
    (honTheWay : ∀ s t, onTheWay' s t → onTheWay s t ∨ s = .Left ∧ .Send .Right t ∈ said)
    (hleft : machine' .Left = machine .Left) (hright : machine' .Right = after) :
    Witnessed (log ++ said) machine' onTheWay' := by
  have hn' := nodup_of_append hn
  rcases hspoke with ⟨_, hafter⟩ | ⟨turn, hturn, progress, hin, _, hafter⟩ |
    ⟨turn, hturn, progress, hin, reply, progress', hout⟩
  · rw [List.append_nil]
    refine h.quiet (fun s => ?_) fun s t ht => ?_
    · cases s with
      | Left => exact Or.inl hleft
      | Right => rwa [hright]
    · rcases honTheWay s t ht with hbefore | ⟨-, hsaid⟩
      · exact hbefore
      · cases hsaid
  · refine (h.heard hn' (hreached turn hturn) hin).quiet (fun s => ?_) fun s t ht => ?_
    · cases s with
      | Left => exact Or.inl (by rw [Function.update_of_ne (by decide), hleft])
      | Right => rwa [Function.update_self, hright]
    · rcases honTheWay s t ht with hbefore | ⟨-, hsaid⟩
      · exact hbefore
      · simp at hsaid
  · have hheard := h.heard hn' (hreached turn hturn) hin
    have hreply : ((Function.update machine .Right (afterTurn .OweThem turn) Side.Right).onOutgoing reply).1 =
        .ok progress' := by
      rw [Function.update_self]
      exact hout
    have hsaid := hheard.said hreply
    rw [List.append_assoc] at hsaid
    refine hsaid.quiet (fun s => Or.inl ?_) fun s t ht => ?_
    · cases s with
      | Left => rw [Function.update_of_ne (by decide), Function.update_of_ne (by decide), hleft]
      | Right => rw [Function.update_self, hright]
    · rcases honTheWay s t ht with hbefore | ⟨hside, hreplied⟩
      · exact Or.inl hbefore
      · exact Or.inr ⟨hside, by simpa using hreplied⟩

end

end Transcripts

/-! ## The phone and the runtime -/

variable {P : Type}

/-- The network and the clock are those of the runtime. `allowlist` is the one that the pump checks, `log` is
history: what the phone and its peer said to each other, and what they accepted. -/
structure Talk (P : Type) where
  phone : Phone
  allowlist : Allowlist
  rt : LocalRuntime P Shared MemoryInbox
  log : List Transcripts.Act

namespace Talk

open Transcripts

/-- `Converse` puts a new phone in the place of the old one, and `OpenMany` too, if the peer is among those
that are asked. `Elsewhere` is what anybody else does to the network while time passes. -/
inductive Act (P : Type)
  | SendTurn (turn : Turn)
  | OpenMany (names : List ActorName) (request : Request)
  | Converse
  | Read (waker : Waker)
  | Elapse
  | PeerDeath (endpoint : EndpointId)
  | Admit (endpoint : EndpointId)
  | Revoke (endpoint : EndpointId)
  | Moment (moment : Moment P Shared)
  | Elsewhere (op : Shared.Op) (clock : Instant)

def sendTurn (talk : Talk P) (turn : Turn) : Talk P :=
  let sent := talk.phone.sendTurn talk.rt.net talk.rt.clock turn
  { talk with
    phone := sent.2.1
    rt := { talk.rt with net := sent.2.2 }
    log := if sent.1.isOk then talk.log ++ [.Send .Left turn] else talk.log }

def openMany (talk : Talk P) (names : List ActorName) (request : Request) : Talk P :=
  let opened := Phone.openMany talk.rt.net talk.rt.clock talk.phone.selfAddress talk.phone.peer.endpoint names
    request talk.phone.deadlines
  let talk := { talk with rt := { talk.rt with net := opened.2 } }
  match opened.1 with
  | .ok phones =>
    match phones.find? (·.peer = talk.phone.peer) with
    | some phone => { talk with phone, log := talk.log ++ [.Send .Left (.Open request)] }
    | none => talk
  | .error _ => talk

def converse (talk : Talk P) : Talk P :=
  { talk with phone := .converse talk.phone.selfAddress talk.phone.peer talk.phone.deadlines }

/-- The pump gives the phone the turns of its peer, and every ack. -/
def dispatch (talk : Talk P) (delivery : Delivery) : Talk P :=
  match process talk.allowlist delivery with
  | .AckReceived ack => { talk with phone := (talk.phone.noteAck ack).2 }
  | .Turn turn _ replyTo _ =>
    if replyTo = talk.phone.peer then
      let heard := talk.phone.onIncoming turn
      { talk with
        phone := heard.2
        log := if heard.1.isOk then talk.log ++ [.Accept .Left turn] else talk.log }
    else talk
  | .Denied | .Request .. | .Harness .. => talk

def readNext (talk : Talk P) (waker : Waker) : Talk P :=
  let polled := talk.rt.net.pollNext ⟨talk.phone.selfAddress⟩ waker
  let talk := { talk with rt := { talk.rt with net := polled.2 } }
  match polled.1 with
  | .Ready (some delivery) => talk.dispatch delivery
  | _ => talk

def moment [Party P] (talk : Talk P) (moment : Moment P Shared) : Talk P :=
  let ran := talk.rt.moment moment
  { talk with
    rt := ran.1
    log := talk.log ++ LocalRuntime.overheard talk.phone.peer talk.phone.selfAddress ran.2 }

def act [Party P] (talk : Talk P) : Act P → Talk P
  | .SendTurn turn => talk.sendTurn turn
  | .OpenMany names request => talk.openMany names request
  | .Converse => talk.converse
  | .Read waker => talk.readNext waker
  | .Elapse => { talk with phone := talk.phone.onDeadlineElapsed.2 }
  | .PeerDeath endpoint => { talk with phone := (talk.phone.onPeerDeath endpoint).2 }
  | .Admit endpoint => { talk with allowlist := talk.allowlist.admitEndpoint endpoint }
  | .Revoke endpoint =>
    { talk with
      allowlist := talk.allowlist.revoke endpoint
      phone := (talk.phone.onRevoked endpoint).2 }
  | .Moment moment => talk.moment moment
  | .Elsewhere op clock => { talk with rt := { talk.rt with net := talk.rt.net.run op, clock } }

def after [Party P] (talk : Talk P) (acts : List (Act P)) : Talk P := Run.after act talk acts

/-- Nobody else puts a turn between the two on the network. -/
def Act.Lawful (app peer : Address) : Act P → Prop
  | .Moment (.Other call _) => ∀ net clock, call ≠ .Elsewhere net clock
  | .Elsewhere op _ => ∀ delivery ∈ op.brings, ∀ turn, delivery.message = .Turn turn →
      ¬ (delivery.origin = app ∧ delivery.target = peer) ∧ ¬ (delivery.origin = peer ∧ delivery.target = app)
  | _ => True

def start (app peer : Address) (deadlines : Deadlines) (allowlist : Allowlist)
    (rt : LocalRuntime P Shared MemoryInbox) : Talk P :=
  ⟨.converse app peer deadlines, allowlist, rt, []⟩

/-! ## The invariant -/

def machine (talk : Talk P) : Side → TurnState
  | .Left => talk.phone.state
  | .Right => talk.rt.converses talk.phone.peer.name talk.phone.selfAddress

/-- A turn on its way to `s`. -/
def letter (app peer : Address) (s : Side) (turn : Turn) : Delivery :=
  match s with
  | .Left => ⟨peer, app, .Turn turn⟩
  | .Right => ⟨app, peer, .Turn turn⟩

structure Holds (app peer : Address) (talk : Talk P) : Prop where
  ours : talk.phone.selfAddress = app
  theirs : talk.phone.peer = peer
  endpoint : talk.rt.endpoint = peer.endpoint
  sorted : talk.rt.net.Sorted
  moored : talk.rt.Moored
  witnessed : (posedIds talk.log).Nodup →
    Witnessed talk.log talk.machine fun s turn => talk.rt.net.Carries (letter app peer s turn)

section

variable {app peer : Address} {talk : Talk P}

theorem Holds.phone (h : Holds app peer talk) (phone : Phone) (hself : phone.selfAddress = talk.phone.selfAddress)
    (hpeer : phone.peer = talk.phone.peer)
    (hstate : phone.state = talk.phone.state ∨ phone.state.live = false) (allowlist : Allowlist) :
    Holds app peer { talk with phone, allowlist } := by
  refine ⟨hself.trans h.ours, hpeer.trans h.theirs, h.endpoint, h.sorted, h.moored, fun hn => ?_⟩
  refine (h.witnessed hn).quiet (fun s => ?_) fun _ _ hcarries => hcarries
  cases s with
  | Left => exact hstate
  | Right =>
    left
    simp only [machine, hself, hpeer]

theorem Holds.net (h : Holds app peer talk) {net : Shared} (hsorted : talk.rt.net.Sorted → net.Sorted)
    (hcarries : ∀ s turn, net.Carries (letter app peer s turn) → talk.rt.net.Carries (letter app peer s turn))
    (clock : Instant) : Holds app peer { talk with rt := { talk.rt with net, clock } } := by
  refine ⟨h.ours, h.theirs, h.endpoint, hsorted h.sorted, h.moored.of_same rfl rfl, fun hn => ?_⟩
  refine (h.witnessed hn).quiet (fun s => Or.inl ?_) hcarries
  cases s <;> rfl

theorem Holds.said (h : Holds app peer talk) (phone : Phone) (hself : phone.selfAddress = talk.phone.selfAddress)
    (hpeer : phone.peer = talk.phone.peer) {turn : Turn} {progress : TurnProgress}
    (hturn : (talk.phone.state.onOutgoing turn).1 = .ok progress)
    (hstate : phone.state = afterTurn .AwaitingTheirTurn turn) {net : Shared}
    (hsorted : talk.rt.net.Sorted → net.Sorted)
    (hcarries : ∀ s turn', net.Carries (letter app peer s turn') →
      talk.rt.net.Carries (letter app peer s turn') ∨ s = .Right ∧ turn' = turn) :
    Holds app peer
      { talk with phone, rt := { talk.rt with net }, log := talk.log ++ [.Send .Left turn] } := by
  refine ⟨hself.trans h.ours, hpeer.trans h.theirs, h.endpoint, hsorted h.sorted,
    h.moored.of_same rfl rfl, fun hn => ?_⟩
  have hwitnessed := (h.witnessed (nodup_of_append hn)).said (s := .Left) hturn
  refine hwitnessed.quiet (fun s => Or.inl ?_) hcarries
  cases s with
  | Left =>
    rw [Function.update_self]
    exact hstate
  | Right =>
    rw [Function.update_of_ne (by decide)]
    simp only [machine, hself, hpeer]
    rfl

theorem Holds.sendTurn (h : Holds app peer talk) (hne : app ≠ peer) (turn : Turn) :
    Holds app peer (talk.sendTurn turn) := by
  have hsent := talk.phone.sendTurn_sent talk.rt.net talk.rt.clock turn
  have hrun : (Transport.send talk.rt.net talk.phone.selfAddress talk.phone.peer (.Turn turn)).2 =
      talk.rt.net.run (.Send talk.phone.selfAddress talk.phone.peer (.Turn turn)) := rfl
  unfold Talk.sendTurn
  generalize talk.phone.sendTurn talk.rt.net talk.rt.clock turn = sent at hsent
  rcases hsent with ⟨error, hturn⟩ | ⟨progress, hturn, text, net, hsend⟩ | ⟨progress, hturn, net, hsend⟩
  · exact h.phone talk.phone rfl rfl (Or.inl rfl) talk.allowlist
  · -- A refused turn never was on the network.
    have hnet : net = talk.rt.net := by
      have hrefused : (talk.rt.net.send talk.phone.selfAddress talk.phone.peer (.Turn turn)).1.mapError
          MemoryTransportError.display = .error text := congrArg Prod.fst hsend
      have hafter : (talk.rt.net.send talk.phone.selfAddress talk.phone.peer (.Turn turn)).2.1 = net :=
        congrArg Prod.snd hsend
      cases hresult : (talk.rt.net.send talk.phone.selfAddress talk.phone.peer (.Turn turn)).1 with
      | ok =>
        rw [hresult] at hrefused
        cases hrefused
      | error error => rw [← hafter, Shared.send_refused hresult]
    subst hnet
    exact h.phone (talk.phone.stopped _) rfl rfl (Or.inr (fail_not_live _)) talk.allowlist
  · rw [hsend] at hrun
    subst hrun
    refine h.said (talk.phone.awaiting turn progress talk.rt.clock) rfl rfl hturn rfl
      (fun hsorted => hsorted.run _) fun s turn' hcarries => ?_
    refine (Shared.carries_run hcarries).imp_right fun hbrought => ?_
    have hletter := List.mem_singleton.mp hbrought
    rw [h.ours, h.theirs] at hletter
    cases s with
    | Left =>
      cases hletter
      exact absurd rfl hne
    | Right =>
      cases hletter
      exact ⟨rfl, rfl⟩

theorem Holds.converse (h : Holds app peer talk) : Holds app peer talk.converse :=
  h.phone (.converse talk.phone.selfAddress talk.phone.peer talk.phone.deadlines) rfl rfl (Or.inr rfl)
    talk.allowlist

theorem openMany_cases (net : Shared) (now : Instant) (selfAddress : Address) (endpoint : EndpointId)
    (names : List ActorName) (request : Request) (deadlines : Deadlines) :
    (∃ text, Phone.openMany net now selfAddress endpoint names request deadlines =
      (.error (.Transport text), net)) ∨
    Phone.openMany net now selfAddress endpoint names request deadlines =
      (.ok (names.map fun name => Phone.fanned selfAddress ⟨endpoint, name⟩ deadlines now request),
        net.run (.OpenMany selfAddress endpoint names request)) := by
  simp only [Phone.openMany, FanOut.openMany, Shared.run]
  cases hresult : (net.openMany selfAddress endpoint names request).1 with
  | error error =>
    left
    rw [Shared.openMany_refused hresult]
    exact ⟨error.display, rfl⟩
  | ok => exact Or.inr rfl

theorem Holds.openMany (h : Holds app peer talk) (hne : app ≠ peer) (names : List ActorName) (request : Request) :
    Holds app peer (talk.openMany names request) := by
  -- The batch brings one `Open` to the peer, if the peer is asked at all.
  have hletter : ∀ s turn, letter app peer s turn ∈
      (Shared.Op.OpenMany talk.phone.selfAddress talk.phone.peer.endpoint names request).brings →
      s = .Right ∧ turn = .Open request ∧ peer.name ∈ names := by
    intro s turn hbrought
    rw [h.ours, h.theirs] at hbrought
    rcases List.mem_cons.mp hbrought with hreceipt | hfanned
    · cases s <;> simp [letter] at hreceipt
    · obtain ⟨name, hname, heq⟩ := List.mem_map.mp hfanned
      cases s with
      | Left =>
        simp only [letter, Delivery.mk.injEq] at heq
        exact absurd heq.1 hne
      | Right =>
        simp only [letter, Delivery.mk.injEq, Message.Turn.injEq, true_and] at heq
        obtain ⟨htarget, rfl⟩ := heq
        exact ⟨rfl, rfl, htarget ▸ hname⟩
  have hcarries : ∀ s turn, (talk.rt.net.run (.OpenMany talk.phone.selfAddress talk.phone.peer.endpoint names
      request)).Carries (letter app peer s turn) → talk.rt.net.Carries (letter app peer s turn) ∨
      s = .Right ∧ turn = .Open request ∧ peer.name ∈ names :=
    fun s turn hcarries => (Shared.carries_run hcarries).imp_right (hletter s turn)
  unfold Talk.openMany
  rcases openMany_cases talk.rt.net talk.rt.clock talk.phone.selfAddress talk.phone.peer.endpoint names request
    talk.phone.deadlines with ⟨text, hopened⟩ | hopened
  · rw [hopened]
    exact h.net id (fun _ _ hcarries => hcarries) talk.rt.clock
  · simp only [hopened]
    cases hfound : (names.map fun name => Phone.fanned talk.phone.selfAddress ⟨talk.phone.peer.endpoint, name⟩
        talk.phone.deadlines talk.rt.clock request).find? (·.peer = talk.phone.peer) with
    | none =>
      refine h.net (fun hsorted => hsorted.run _) (fun s turn hafter => ?_) talk.rt.clock
      rcases hcarries s turn hafter with hbefore | ⟨-, -, hasked⟩
      · exact hbefore
      · have hnobody := List.find?_eq_none.mp hfound _ (List.mem_map.mpr ⟨peer.name, hasked, rfl⟩)
        rw [h.theirs] at hnobody
        exact absurd (decide_eq_true rfl) hnobody
    | some phone =>
      obtain ⟨name, -, rfl⟩ := List.mem_map.mp (List.mem_of_find?_eq_some hfound)
      have hpeer : (⟨talk.phone.peer.endpoint, name⟩ : Address) = talk.phone.peer := by
        have hsome := List.find?_some hfound
        exact of_decide_eq_true hsome
      have hopen : ((Talk.converse talk).phone.state.onOutgoing (.Open request)).1 = .ok .Continuing := rfl
      refine h.converse.said (.fanned talk.phone.selfAddress ⟨talk.phone.peer.endpoint, name⟩ talk.phone.deadlines
        talk.rt.clock request) rfl hpeer hopen rfl (fun hsorted => hsorted.run _) fun s turn hafter => ?_
      exact (hcarries s turn hafter).imp_right fun hbrought => ⟨hbrought.1, hbrought.2.1⟩

theorem Holds.dispatch (h : Holds app peer talk) {delivery : Delivery}
    (hcame : ∀ turn, delivery.message = .Turn turn → delivery.origin = peer → (posedIds talk.log).Nodup →
      Witnessed talk.log talk.machine fun s turn' => talk.rt.net.Carries (letter app peer s turn') ∨
        s = .Left ∧ turn' = turn) :
    Holds app peer (talk.dispatch delivery) := by
  unfold Talk.dispatch
  cases hallows : talk.allowlist.allows delivery.origin.endpoint with
  | false =>
    rw [process_denied.mpr hallows]
    exact h
  | true =>
    rw [process_admitted hallows]
    cases hmessage : delivery.message with
    | Request request => exact h
    | Harness harness => exact h
    | Ack ack =>
      rcases talk.phone.noteAck_cases ack with ⟨hnoted, -⟩ | hnoted
      · simp only [hnoted]
        exact h.phone { talk.phone with ackDue := none } rfl rfl (Or.inl rfl) talk.allowlist
      · simp only [hnoted]
        exact h.phone talk.phone rfl rfl (Or.inl rfl) talk.allowlist
    | Turn turn =>
      simp only
      split
      · rename_i horigin
        have hheard := talk.phone.onIncoming_heard turn
        generalize talk.phone.onIncoming turn = heard at hheard
        rcases hheard with ⟨error, hturn⟩ | ⟨progress, hturn⟩
        · exact h.phone talk.phone rfl rfl (Or.inl rfl) talk.allowlist
        · refine ⟨h.ours, h.theirs, h.endpoint, h.sorted, h.moored, fun hn => ?_⟩
          have hn' := nodup_of_append hn
          have hwitnessed := hcame turn hmessage (horigin.trans h.theirs) hn'
          refine (hwitnessed.heard hn' (Or.inr ⟨rfl, rfl⟩) hturn).quiet (fun s => Or.inl ?_) fun _ _ => Or.inl
          cases s with
          | Left =>
            rw [Function.update_self]
            rfl
          | Right =>
            rw [Function.update_of_ne (by decide)]
            rfl
      · exact h

theorem Holds.readNext (h : Holds app peer talk) (waker : Waker) : Holds app peer (talk.readNext waker) := by
  have hrun : (talk.rt.net.pollNext ⟨talk.phone.selfAddress⟩ waker).2 =
      talk.rt.net.run (.PollNext ⟨talk.phone.selfAddress⟩ waker) := rfl
  have hop : (Shared.Op.PollNext ⟨talk.phone.selfAddress⟩ waker).brings = [] := rfl
  have hcarries : ∀ s turn, (talk.rt.net.run (.PollNext ⟨talk.phone.selfAddress⟩ waker)).Carries
      (letter app peer s turn) → talk.rt.net.Carries (letter app peer s turn) :=
    fun s turn => Shared.carries_of_silent hop
  have hlies : ∀ delivery, (talk.rt.net.pollNext ⟨talk.phone.selfAddress⟩ waker).1 = .Ready (some delivery) →
      talk.rt.net.Lies talk.phone.selfAddress delivery := fun _ hready => Shared.lies_of_polled hready
  unfold Talk.readNext
  have hnet := h.net (fun hsorted => hsorted.run _) hcarries talk.rt.clock
  rw [← hrun] at hnet hcarries
  generalize talk.rt.net.pollNext ⟨talk.phone.selfAddress⟩ waker = polled at hlies hnet hcarries
  obtain ⟨(_ | delivery) | _, net⟩ := polled
  · exact hnet
  · obtain ⟨htarget, hcarried⟩ := h.sorted.carries (hlies delivery rfl)
    refine hnet.dispatch fun turn hmessage horigin hn => ?_
    refine (h.witnessed hn).quiet (fun s => Or.inl (by cases s <;> rfl)) fun s turn' hway => ?_
    rcases hway with hafter | ⟨rfl, rfl⟩
    · exact hcarries s turn' hafter
    · have hletter : letter app peer .Left turn' = delivery := by
        obtain ⟨origin, target, message⟩ := delivery
        simp only [letter, Delivery.mk.injEq]
        exact ⟨horigin.symm, (htarget.trans h.ours).symm, hmessage.symm⟩
      rwa [hletter]
  · exact hnet

variable [Party P]

theorem Holds.exec (h : Holds app peer talk) (hne : app.endpoint ≠ peer.endpoint) {net : Shared}
    (hbefore : ∀ delivery, net.Carries delivery → talk.rt.net.Carries delivery)
    (hsorted : talk.rt.net.Sorted → net.Sorted) {call : Call P Shared}
    (hcall : ∀ net clock, call ≠ .Elsewhere net clock)
    (htaken : ∀ own delivery, call = .Step own (.Delivery (some delivery)) →
      delivery.target = talk.rt.address own ∧ talk.rt.net.Carries delivery) :
    Holds app peer
      { talk with
        rt := ({ talk.rt with net }.exec call).1
        log := talk.log ++ LocalRuntime.overheard talk.phone.peer talk.phone.selfAddress
          ({ talk.rt with net }.exec call).2 } := by
  have hmoored : ({ talk.rt with net } : LocalRuntime P Shared MemoryInbox).Moored := h.moored.of_same rfl rfl
  have haimed : ({ talk.rt with net } : LocalRuntime P Shared MemoryInbox).Aimed call :=
    fun own delivery hstep => (htaken own delivery hstep).1
  have hhere : peer = ({ talk.rt with net } : LocalRuntime P Shared MemoryInbox).address peer.name := by
    rw [LocalRuntime.address, h.endpoint]
  have hspoke := @LocalRuntime.exec_spoke _ _ _ _ _ _ _ _ peer.name app haimed
  have hbrought := LocalRuntime.brought_exec { talk.rt with net } hcall
  rw [← hhere] at hspoke
  refine ⟨h.ours, h.theirs, ?_, ?_, hmoored.exec call, fun hn => ?_⟩
  · exact (LocalRuntime.exec_same _ call).endpoint.trans h.endpoint
  · exact LocalRuntime.sorted_exec (hsorted h.sorted) hcall
  · rw [h.ours, h.theirs] at hn ⊢
    -- What is on its way now was before, or the peer just said it.
    have hway : ∀ s turn, ({ talk.rt with net }.exec call).1.net.Carries (letter app peer s turn) →
        talk.rt.net.Carries (letter app peer s turn) ∨ s = .Left ∧ .Send .Right turn ∈
          LocalRuntime.overheard peer app ({ talk.rt with net }.exec call).2 := by
      intro s turn hcarries
      rcases hbrought _ hcarries with hearlier | hsent
      · exact Or.inl (hbefore _ hearlier)
      · cases s with
        | Left => exact Or.inr ⟨rfl, LocalRuntime.mem_overheard hsent⟩
        | Right => exact absurd ((LocalRuntime.sent_from_here haimed hsent).trans h.endpoint) hne
    have hwitnessed := h.witnessed (nodup_of_append hn)
    have hmachine : talk.machine .Right =
        ({ talk.rt with net } : LocalRuntime P Shared MemoryInbox).converses peer.name app := by
      simp only [machine, h.ours, h.theirs]
      rfl
    rw [← hmachine] at hspoke
    refine hwitnessed.spoke hspoke hn (fun turn hstep => (htaken _ _ hstep).2) hway rfl ?_
    simp only [machine, h.ours, h.theirs]

theorem Holds.moment (h : Holds app peer talk) (hne : app.endpoint ≠ peer.endpoint) (m : Moment P Shared)
    (hlawful : (Act.Moment m).Lawful app peer) : Holds app peer (talk.moment m) := by
  cases m with
  | Other call hother =>
    have hnone : ∀ own delivery, call = .Step own (.Delivery (some delivery)) →
        delivery.target = talk.rt.address own ∧ talk.rt.net.Carries delivery :=
      fun own delivery hstep => absurd hstep (hother own _)
    exact h.exec hne (fun _ hcarries => hcarries) id hlawful hnone
  | Poll name waker =>
    have hstepping := LocalRuntime.poll_stepping talk.rt name waker
    unfold Talk.moment
    simp only [LocalRuntime.moment]
    generalize (talk.rt.poll name waker).2 = polled at hstepping
    rcases hstepping with ⟨net, hcarries, hsorted⟩ | ⟨net, hcarries, hsorted, waited, hlies⟩
    · have hnet := h.net hsorted (fun s turn => hcarries _) talk.rt.clock
      simpa using hnet
    · refine h.exec hne hcarries hsorted (by simp) fun own delivery hstep => ?_
      cases hstep
      obtain ⟨actor, hactor, hdelivery⟩ := hlies delivery rfl
      obtain ⟨htarget, hcarried⟩ := h.sorted.carries hdelivery
      exact ⟨htarget.trans (h.moored name actor hactor), hcarried⟩

theorem Holds.act (h : Holds app peer talk) (hne : app.endpoint ≠ peer.endpoint) (a : Act P)
    (hlawful : a.Lawful app peer) : Holds app peer (talk.act a) := by
  have happ : app ≠ peer := fun heq => hne (congrArg Address.endpoint heq)
  have hcutOff : ∀ endpoint cause allowlist,
      Holds app peer { talk with phone := (talk.phone.cutOff endpoint cause).2, allowlist } := by
    intro endpoint cause allowlist
    rcases talk.phone.cutOff_cases endpoint cause with ⟨hcut, -⟩ | ⟨hcut, -⟩
    · rw [hcut]
      exact h.phone (talk.phone.stopped .Failed) rfl rfl (Or.inr rfl) allowlist
    · rw [hcut]
      exact h.phone talk.phone rfl rfl (Or.inl rfl) allowlist
  cases a with
  | SendTurn turn => exact h.sendTurn happ turn
  | OpenMany names request => exact h.openMany happ names request
  | Converse => exact h.converse
  | Read waker => exact h.readNext waker
  | Elapse =>
    simp only [Talk.act]
    rcases talk.phone.onDeadlineElapsed_cases with ⟨kind, due, -, helapsed⟩ | ⟨-, helapsed⟩
    · rw [helapsed]
      exact h.phone (talk.phone.stopped _) rfl rfl (Or.inr (fail_not_live _)) talk.allowlist
    · rw [helapsed]
      exact h.phone talk.phone rfl rfl (Or.inl rfl) talk.allowlist
  | PeerDeath endpoint => exact hcutOff endpoint .Disconnected talk.allowlist
  | Admit endpoint => exact h.phone talk.phone rfl rfl (Or.inl rfl) _
  | Revoke endpoint => exact hcutOff endpoint .Revoked _
  | Moment m => exact h.moment hne m hlawful
  | Elsewhere op clock =>
    refine h.net (fun hsorted => hsorted.run op) (fun s turn hcarries => ?_) clock
    rcases Shared.carries_run hcarries with hbefore | hbrought
    · exact hbefore
    · cases s with
      | Left => exact absurd ⟨rfl, rfl⟩ (hlawful _ hbrought turn rfl).2
      | Right => exact absurd ⟨rfl, rfl⟩ (hlawful _ hbrought turn rfl).1

omit [Party P] in
theorem holds_start {rt : LocalRuntime P Shared MemoryInbox} (hfresh : rt.Fresh) (hnet : rt.net = .new)
    (hendpoint : rt.endpoint = peer.endpoint) (deadlines : Deadlines) (allowlist : Allowlist) :
    Holds app peer (start app peer deadlines allowlist rt) := by
  refine ⟨rfl, rfl, hendpoint, ?_, fun name actor hactor => ?_, fun _ => ?_⟩
  · simp only [start, hnet]
    exact Shared.sorted_new
  · rw [start, hfresh.actors name] at hactor
    cases hactor
  · refine witnessed_start (fun s turn hcarries => ?_) fun s => ?_
    · simp only [start, hnet] at hcarries
      exact Shared.carries_new hcarries
    · cases s with
      | Left => rfl
      | Right => simp only [machine, start, LocalRuntime.converses, hfresh.actors]

end

variable [Party P]

/-- Whatever the app, the network and the runtime do, in any order: if no request id is posed twice and no
one else speaks for the two, then each accepts only what the other said, in an exchange that both saw
alike from its `Open` up to there. -/
theorem real_transcripts_agree (app peer : Address) (hne : app.endpoint ≠ peer.endpoint)
    (rt : LocalRuntime P Shared MemoryInbox) (hfresh : rt.Fresh) (hnet : rt.net = .new)
    (hendpoint : rt.endpoint = peer.endpoint) (deadlines : Deadlines) (allowlist : Allowlist)
    (acts : List (Act P)) (hlawful : ∀ a ∈ acts, a.Lawful app peer)
    (hposed : (posedIds ((start app peer deadlines allowlist rt).after acts).log).Nodup)
    (pre post : List Transcripts.Act) (s : Side) (turn : Turn)
    (h : ((start app peer deadlines allowlist rt).after acts).log = pre ++ .Accept s turn :: post) :
    ∃ before between, pre = before ++ .Send s.other turn :: between ∧
      transcript s (pre ++ [.Accept s turn]) = transcript s.other (before ++ [.Send s.other turn]) ∧
      FromOpen (transcript s (pre ++ [.Accept s turn])) := by
  have halong : Run.Along act (fun _ a => a.Lawful app peer) (start app peer deadlines allowlist rt) acts :=
    Run.along_of_mem act (fun _ a ha => hlawful a ha) _
  have hstart : Holds app peer (start app peer deadlines allowlist rt) :=
    holds_start hfresh hnet hendpoint deadlines allowlist
  have hstep : ∀ (talk : Talk P) (a : Act P), Holds app peer talk → a.Lawful app peer →
      Holds app peer (talk.act a) := fun _ a hholds hok => hholds.act hne a hok
  have hholds := Run.invariant act hstep _ acts hstart halong
  exact (hholds.witnessed hposed).agrees pre post s turn h

/-- Alice's patience ends, she asks again, and both answers are under way. She takes the second one. -/
theorem real_transcripts_agree_alice :
    let reply (n : UInt8) : Turn := .Close ⟨(Sample.request n).id, (Sample.request n).body⟩
    let pre : List Transcripts.Act :=
      [.Send .Left (.Open (Sample.request 1)), .Send .Left (.Open (Sample.request 2)),
      .Accept .Right (.Open (Sample.request 1)), .Send .Right (reply 1),
      .Accept .Right (.Open (Sample.request 2)), .Send .Right (reply 2)]
    ∃ before between, pre = before ++ .Send .Right (reply 2) :: between ∧
      transcript .Left (pre ++ [.Accept .Left (reply 2)]) =
        transcript .Right (before ++ [.Send .Right (reply 2)]) ∧
      FromOpen (transcript .Left (pre ++ [.Accept .Left (reply 2)])) := by
  intro reply pre
  exact real_transcripts_agree (P := CountdownParty) Sample.alice Sample.bob (by decide) (Sample.bobsRuntime _)
    (Sample.bobsRuntime_fresh _) rfl rfl Sample.patience ⟨{Sample.bob.endpoint}⟩
    [.Moment (.Other (.InstallParty Sample.bob.name ⟨{Sample.alice.endpoint}⟩ Sample.patience (.echo .new))
        (by simp)),
      .Elsewhere (.Register Sample.alice) 0, .SendTurn (.Open (Sample.request 1)), .Elapse,
      .SendTurn (.Open (Sample.request 2)), .Moment (.Poll Sample.bob.name 0), .Moment (.Poll Sample.bob.name 0),
      .Read 0, .Read 0, .Read 0, .Read 0]
    (by simp [Act.Lawful, Shared.Op.brings]) (by decide +kernel) pre [] .Left (reply 2) (by decide +kernel)

end Talk

end Kamiroh
