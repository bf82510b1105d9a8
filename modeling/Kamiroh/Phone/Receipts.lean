import Kamiroh.Phone.Choreography
import Kamiroh.Phone.Line

/-!
# One receipt for each request, ahead of its answer

`Stage` says what the two sides hold and what is under way between them. A turn that carries a request is
answered with its receipt and the party's turn, in one step and in this order.
-/

namespace Kamiroh

open TurnState

variable {P : Type} {app peer : Address}

def Message.turn : Message → Option Kamiroh.Turn
  | .Turn turn => some turn
  | _ => none

def Message.ack : Message → Option Kamiroh.Ack
  | .Ack ack => some ack
  | _ => none

/-- The turn that the party was given. -/
def Effect.handed : Effect → Option Turn
  | .Handed _ _ turn => some turn
  | _ => none

/-- A turn was dropped as illegal. -/
def Effect.drops : Effect → Bool
  | .Emitted (.IllegalTurnDropped ..) => true
  | _ => false

/-! ## The stages of a conversation -/

/-- The phone's state and the ack it waits for, the actor's state, the turns that are on their way to the
actor, and the messages that are on their way to the phone. -/
inductive Stage : TurnState → Option RequestId → TurnState → List Turn → List Message → Prop
  | rest : Stage .Idle none .Idle [] []
  | owes (x : RequestId) : Stage (.OweThem x) none (.AwaitingTheirTurn x) [] []
  | closed (a : Response) : Stage .Idle none (.AwaitingTheirTurn a.id) [.Close a] []
  | reopened (a : Response) (r : Request) :
    Stage (.AwaitingTheirTurn r.id) (some r.id) (.AwaitingTheirTurn a.id) [.Close a, .Open r] []
  | asked (s : TurnState) (turn : Turn) (r : Request) (hrequest : turn.request = some r)
      (hlegal : (s.onIncoming turn).1.isOk = true) :
    Stage (.AwaitingTheirTurn r.id) (some r.id) s [turn] []
  | acked (x : RequestId) (reply : Turn) (hreply : ((OweThem x).onOutgoing reply).1.isOk = true) :
    Stage (.AwaitingTheirTurn x) (some x) (afterTurn .AwaitingTheirTurn reply) []
      [.Ack ⟨x⟩, .Turn reply]
  | answered (x : RequestId) (reply : Turn) (hreply : ((OweThem x).onOutgoing reply).1.isOk = true) :
    Stage (.AwaitingTheirTurn x) none (afterTurn .AwaitingTheirTurn reply) [] [.Turn reply]

namespace Stage

variable {s t : TurnState} {due : Option RequestId} {turns : List Turn} {toApp : List Message}

theorem said (h : Stage s due t turns toApp) {turn : Turn} {progress : TurnProgress}
    (hlegal : (s.onOutgoing turn).1 = .ok progress) :
    Stage (afterTurn .AwaitingTheirTurn turn) turn.posed t (turns ++ [turn]) toApp := by
  rcases (onOutgoing_ok_iff s turn progress).mp hlegal with ⟨r, hs⟩ | ⟨a, r, hs⟩ | ⟨a, hs⟩
  · cases h with
    | rest => exact .asked .Idle (.Open r) r rfl rfl
    | closed a => exact .reopened a r
    | _ => simp at hs
  · cases h with
    | owes x =>
      cases hs
      exact .asked _ (.Continue a r) r rfl (by simp [onIncoming, Except.isOk, Except.toBool])
    | _ => cases hs
  · cases h with
    | owes x =>
      cases hs
      exact .closed a
    | _ => cases hs

theorem taken {turn : Turn} (h : Stage s due t (turn :: turns) toApp) :
    toApp = [] ∧ (t.onIncoming turn).1.isOk = true ∧
      (turn.request = none → Stage s due .Idle turns []) ∧
      ∀ r reply, turn.request = some r → ((OweThem r.id).onOutgoing reply).1.isOk = true →
        turns = [] ∧ Stage s due (afterTurn .AwaitingTheirTurn reply) [] [.Ack ⟨r.id⟩, .Turn reply] := by
  cases h with
  | closed a =>
    refine ⟨rfl, by simp [onIncoming, Except.isOk, Except.toBool], fun _ => .rest, fun r reply hr => ?_⟩
    cases hr
  | reopened a r =>
    refine ⟨rfl, by simp [onIncoming, Except.isOk, Except.toBool],
      fun _ => .asked .Idle (.Open r) r rfl rfl, fun r reply hr => ?_⟩
    cases hr
  | asked s turn r hrequest hlegal =>
    refine ⟨rfl, hlegal, fun hnone => ?_, fun r' reply hr hreply => ⟨rfl, ?_⟩⟩
    · rw [hrequest] at hnone
      cases hnone
    · cases hrequest.symm.trans hr
      exact .acked r.id reply hreply

theorem answering_of_legal {x : RequestId} {reply : Turn}
    (h : ((OweThem x).onOutgoing reply).1.isOk = true) : reply.response.map (·.id) = some x := by
  obtain ⟨progress, h⟩ := isOk_iff.mp h
  rcases (onOutgoing_ok_iff _ _ _).mp h with ⟨r, hs⟩ | ⟨a, r, hs⟩ | ⟨a, hs⟩
  · simp at hs
  · cases hs
    rfl
  · cases hs
    rfl

theorem noted {ack : Ack} (h : Stage s due t turns (.Ack ack :: toApp)) :
    due = some ack.id ∧ Stage s none t turns toApp := by
  cases h with
  | acked x reply hreply => exact ⟨rfl, .answered x reply hreply⟩

theorem heard {turn : Turn} (h : Stage s due t turns (.Turn turn :: toApp)) :
    (s.onIncoming turn).1.isOk = true ∧ Stage (afterTurn .OweThem turn) none t turns toApp := by
  cases h with
  | answered x reply hreply =>
    obtain ⟨progress, hreply⟩ := isOk_iff.mp hreply
    rcases (onOutgoing_ok_iff _ _ _).mp hreply with ⟨r, hs⟩ | ⟨a, r, hs⟩ | ⟨a, hs⟩
    · simp at hs
    · cases hs
      exact ⟨by simp [onIncoming, Except.isOk, Except.toBool], .owes r.id⟩
    · cases hs
      exact ⟨by simp [onIncoming, Except.isOk, Except.toBool], .rest⟩

theorem head {message : Message} (h : Stage s due t turns (message :: toApp)) :
    (∃ ack, message = .Ack ack) ∨ ∃ turn, message = .Turn turn := by
  cases h with
  | acked x reply hreply => exact Or.inl ⟨_, rfl⟩
  | answered x reply hreply => exact Or.inr ⟨_, rfl⟩

end Stage

/-! ## The actor -/

section

variable [Party P] {I : Boxed P → TurnState → Prop} {rt : LocalRuntime P Shared MemoryInbox}
  {name : ActorName} {actor : LocalActor P MemoryInbox} {turn : Turn} {rest : List Message}

/-- What a step on a legal turn leaves behind: `net'`, `actor'` in place of `actor`, and `toApp` for the
app. -/
structure Served (I : Boxed P → TurnState → Prop) (app peer : Address)
    (rt : LocalRuntime P Shared MemoryInbox) (name : ActorName) (actor : LocalActor P MemoryInbox)
    (turn : Turn) (rest : List Message) (ran : Ran P Shared MemoryInbox Stepped) (net' : Shared)
    (actor' : LocalActor P MemoryInbox) (toApp : List Message) : Prop where
  rt : ran.rt = { rt with net := net' }.setActor name actor'
  carries : LocalActor.Carries actor actor' app (actor'.peer app)
  party : ∃ party, actor'.party = some party ∧ I party (actor'.peer app).state
  wired : Wired net' app peer toApp rest
  handed : ran.effects.filterMap Effect.handed = [turn]
  kept : ∀ effect ∈ ran.effects, effect.drops = false
  answer : (turn.request = none ∧ toApp = [] ∧ (actor'.peer app).state = .Idle) ∨
    ∃ r reply, turn.request = some r ∧ ((OweThem r.id).onOutgoing reply).1.isOk = true ∧
      toApp = [.Ack ⟨r.id⟩, .Turn reply] ∧
      (actor'.peer app).state = afterTurn .AwaitingTheirTurn reply

omit [Party P] in
theorem send_ok {origin target : Address} {message : Message} {net : Shared}
    (h : Transport.send rt.net origin target message = (.ok (), net)) :
    rt.send origin target message = ⟨.ok (), { rt with net }, [.Sent origin target message true]⟩ := by
  simp only [LocalRuntime.send, h]

theorem handOver_party (here app : Address) (turn : Turn) {party : Boxed P} (h : actor.party = some party) :
    (LocalRuntime.hear actor app turn).handOver here app turn =
      ((Party.onTurn party app turn).2,
        { LocalRuntime.hear actor app turn with party := some (Party.onTurn party app turn).1 },
        [.Handed here app turn]) := by
  have hparty : (LocalRuntime.hear actor app turn).party = some party := h
  simp only [LocalActor.handOver, hparty]

theorem takeTurn_silent {progress : TurnProgress}
    (hlegal : ((actor.peer app).state.onIncoming turn).1 = .ok progress) {party : Boxed P}
    (hparty : actor.party = some party) (hnone : (Party.onTurn party app turn).2 = none) :
    rt.takeTurn name actor peer app turn none =
      ⟨.Delivered,
        rt.setActor name
          { LocalRuntime.hear actor app turn with party := some (Party.onTurn party app turn).1 },
        [.Moved (rt.address name) app (actor.peer app).state (afterTurn .OweThem turn),
          .Handed (rt.address name) app turn]⟩ := by
  have hhanded := handOver_party (rt.address name) app turn hparty
  simp only [LocalRuntime.hear] at hhanded
  simp only [LocalRuntime.takeTurn, hlegal, onIncoming_state _ _ _ hlegal, LocalRuntime.receipt,
    hhanded, hnone]
  rfl

theorem takeTurn_answered {progress progress' : TurnProgress}
    (hlegal : ((actor.peer app).state.onIncoming turn).1 = .ok progress) {party : Boxed P}
    (hparty : actor.party = some party) {reply : Turn}
    (hreply : (Party.onTurn party app turn).2 = some reply)
    (hout : ((afterTurn .OweThem turn).onOutgoing reply).1 = .ok progress') {ack : Message}
    {net₁ net₂ : Shared} (hack : Transport.send rt.net peer app ack = (.ok (), net₁))
    (hsend : Transport.send net₁ peer app (.Turn reply) = (.ok (), net₂)) :
    rt.takeTurn name actor peer app turn (some ack) =
      ⟨.Delivered,
        { rt with net := net₂ }.setActor name (LocalRuntime.arm { rt with net := net₁ }
          { LocalRuntime.hear actor app turn with party := some (Party.onTurn party app turn).1 }
          app reply progress'),
        [.Moved (rt.address name) app (actor.peer app).state (afterTurn .OweThem turn),
          .Sent peer app ack true, .Handed (rt.address name) app turn,
          .Moved (rt.address name) app (afterTurn .OweThem turn) (afterTurn .AwaitingTheirTurn reply),
          .Sent peer app (.Turn reply) true]⟩ := by
  have hhanded := handOver_party (rt.address name) app turn hparty
  simp only [LocalRuntime.hear] at hhanded
  have hstate : ({ actor.setPeer app ⟨afterTurn .OweThem turn, none, none⟩ with
      party := some (Party.onTurn party app turn).1 } : LocalActor P MemoryInbox).peer app =
        ⟨afterTurn .OweThem turn, none, none⟩ := LocalActor.peer_setPeer_self ..
  have hsent : LocalRuntime.send { rt with net := net₁ } peer app (.Turn reply) =
      ⟨.ok (), { rt with net := net₂ }, [.Sent peer app (.Turn reply) true]⟩ := send_ok hsend
  simp only [LocalRuntime.takeTurn, hlegal, onIncoming_state _ _ _ hlegal, LocalRuntime.receipt,
    send_ok hack, hhanded, hreply, LocalRuntime.answer, hstate, hout, onOutgoing_state _ _ _ hout, hsent]
  rfl

theorem takeTurn_served (hkeeps : Keeps app I) (hne : app ≠ peer) {party : Boxed P}
    (hparty : actor.party = some party) (hI : I party (actor.peer app).state)
    (hwired : Wired rt.net app peer [] rest)
    (hlegal : ((actor.peer app).state.onIncoming turn).1.isOk = true) :
    ∃ net' actor' toApp, Served I app peer rt name actor turn rest
      (rt.takeTurn name actor peer app turn (turn.request.map fun request => .Ack ⟨request.id⟩))
      net' actor' toApp := by
  obtain ⟨progress, hlegal⟩ := isOk_iff.mp hlegal
  have hstate := onIncoming_state _ _ _ hlegal
  cases hrequest : turn.request with
  | none =>
    obtain ⟨hnone, hnext⟩ := hkeeps.silent hI hlegal hrequest
    rw [Option.map_none, takeTurn_silent hlegal hparty hnone]
    have hidle : afterTurn .OweThem turn = .Idle := afterTurn_of_none hrequest
    have hcarries := LocalActor.Carries.setPeer actor app ⟨afterTurn .OweThem turn, none, none⟩
    refine ⟨_, _, [], ⟨rfl, ⟨rfl, hcarries.others, ⟨rfl, rfl, rfl, rfl⟩⟩, ⟨_, rfl, ?_⟩, hwired, rfl, ?_,
      Or.inl ⟨hrequest, rfl, ?_⟩⟩⟩
    · rw [hstate] at hnext
      exact hcarries.took ▸ hnext
    · simp [Effect.drops]
    · exact (congrArg PeerState.state hcarries.took).trans hidle
  | some r =>
    obtain ⟨reply, progress', hreply, hout, hnext⟩ := hkeeps.answers hI hlegal hrequest
    have howes : afterTurn .OweThem turn = .OweThem r.id := by simp [afterTurn, Turn.posed, hrequest]
    rw [hstate] at hout hnext
    obtain ⟨net₁, hack, hwired₁⟩ := hwired.symm.send hne.symm (.Ack ⟨r.id⟩)
    obtain ⟨net₂, hsend, hwired₂⟩ := hwired₁.send hne.symm (.Turn reply)
    rw [Option.map_some, takeTurn_answered hlegal hparty hreply hout hack hsend]
    have hhear := LocalActor.Carries.setPeer actor app ⟨afterTurn .OweThem turn, none, none⟩
    have harm := LocalActor.Carries.setPeer
      { LocalRuntime.hear actor app turn with party := some (Party.onTurn party app turn).1 } app
      (.armed (afterTurn .AwaitingTheirTurn reply) reply progress' rt.clock actor.deadlines)
    refine ⟨_, _, [.Ack ⟨r.id⟩, .Turn reply], ⟨rfl, ⟨rfl, ?_, ?_⟩, ⟨_, rfl, ?_⟩, hwired₂.symm, rfl, ?_,
      Or.inr ⟨r, reply, hrequest, ?_, rfl, ?_⟩⟩⟩
    · exact fun q hq => (harm.others q hq).trans (hhear.others q hq)
    · exact ⟨rfl, rfl, rfl, rfl⟩
    · rw [onOutgoing_state _ _ _ hout] at hnext
      exact harm.took ▸ hnext
    · simp [Effect.drops]
    · rw [howes] at hout
      exact isOk_iff.mpr ⟨_, hout⟩
    · exact congrArg PeerState.state harm.took

theorem poll_wired (hactor : rt.actors name = some actor)
    (hquiet : actor.affected (· ∈ rt.dead) = []) (hinbox : actor.inbox = ⟨peer⟩) (hne : app ≠ peer)
    {toApp toPeer : List Message} (hwired : Wired rt.net app peer toApp toPeer)
    (hdue : ∀ wait, actor.earliestDue = some wait → rt.clock < wait.2.2)
    (hdeaths : ∀ watch, rt.deathWatch = some watch → rt.net.deaths watch = []) (waker : Waker) :
    (toPeer = [] ∧ ∃ net', rt.poll name waker = (.Pending, { rt with net := net' }, []) ∧
        Wired net' app peer toApp []) ∨
      ∃ message rest net', toPeer = message :: rest ∧ Wired net' app peer toApp rest ∧
        let stepped := { rt with net := net' }.deliver name actor ⟨app, peer, message⟩
        rt.poll name waker = (.Ready stepped.result, stepped.rt, stepped.effects) := by
  have hdue' : ∀ at', actor.earliestDue.map (·.2.2) = some at' → rt.clock < at' := by
    intro at' hat
    obtain ⟨wait, hwait, rfl⟩ := Option.map_eq_some_iff.mp hat
    exact hdue wait hwait
  simp only [LocalRuntime.poll, hactor, LocalRuntime.sweepDead_none hquiet, hinbox]
  rcases hwired.race hne hdue' hdeaths waker with ⟨hnil, net', hrace, hnet⟩ |
    ⟨message, rest, net', hcons, hrace, hnet⟩
  · exact Or.inl ⟨hnil, net', by rw [hrace], hnet⟩
  · refine Or.inr ⟨message, rest, net', hcons, hnet, ?_⟩
    have hdeliver : ({ rt with net := net' } : LocalRuntime P Shared MemoryInbox).step name
        (.Delivery (some ⟨app, peer, message⟩)) =
          { rt with net := net' }.deliver name actor ⟨app, peer, message⟩ :=
      LocalRuntime.step_delivery { rt with net := net' } hactor hquiet _
    rw [hrace]
    simp only [hdeliver]

end

/-! ## The line -/

namespace Line

/-- Neither a deadline nor a death wins the race of a step, and what others do leaves the two mailboxes
alone and the two endpoints together. -/
def Undisturbed (line : Line P) : Act → Prop
  | .Step _ =>
    (∀ actor, line.rt.actors line.phone.peer.name = some actor →
      ∀ wait, actor.earliestDue = some wait → line.rt.clock < wait.2.2) ∧
    ∀ watch, line.rt.deathWatch = some watch → line.rt.net.deaths watch = []
  | .Elsewhere net _ =>
    let app := line.phone.selfAddress
    let peer := line.phone.peer
    (app.endpoint, peer.endpoint) ∉ (net line.rt.net).partitions ∧
    (peer.endpoint, app.endpoint) ∉ (net line.rt.net).partitions ∧
    ∀ address, address = app ∨ address = peer →
      ((net line.rt.net).mailboxes.lookup address).map (·.queue) =
        (line.rt.net.mailboxes.lookup address).map (·.queue)
  | _ => True

structure Going (I : Boxed P → TurnState → Prop) (app peer : Address) (line : Line P)
    (actor : LocalActor P MemoryInbox) (toApp toPeer : List Message) : Prop where
  self : line.phone.selfAddress = app
  them : line.phone.peer = peer
  apart : app ≠ peer
  inbox : line.inbox = ⟨app⟩
  heeded : line.allowlist.allows peer.endpoint = true
  address : line.rt.address peer.name = peer
  installed : line.rt.actors peer.name = some actor
  box : actor.inbox = ⟨peer⟩
  admitted : actor.allowlist.allows app.endpoint = true
  only : actor.Only app
  buried : app.endpoint ∈ line.rt.dead → (actor.peer app).state.live = false
  party : ∃ party, actor.party = some party ∧ I party (actor.peer app).state
  wired : Wired line.rt.net app peer toApp toPeer
  talk : ∀ message ∈ toPeer, (∃ turn, message = .Turn turn) ∨ ∃ ack, message = .Ack ack
  stage : Stage line.phone.state (line.phone.ackDue.map (·.1)) (actor.peer app).state
    (toPeer.filterMap Message.turn) toApp

/-- `answers` are the requests that the actor has taken, each with the turn that answers it. `toApp` and
`toPeer` are the messages that lie in the two mailboxes. What has come to the app is the receipt of each
request with the answer behind it and nothing else, every turn is taken, and each receipt is noted. -/
structure Receipted (line : Line P) (toApp toPeer : List Message) (answers : List (Request × Turn)) :
    Prop where
  arrived : line.read ++ toApp = answers.flatMap fun answer => [.Ack ⟨answer.1.id⟩, .Turn answer.2]
  asked : line.said.filterMap Turn.request =
    answers.map (·.1) ++ (toPeer.filterMap Message.turn).filterMap Turn.request
  answering : ∀ answer ∈ answers, answer.2.response.map (·.id) = some answer.1.id
  handed : line.said = line.effects.filterMap Effect.handed ++ toPeer.filterMap Message.turn
  kept : ∀ effect ∈ line.effects, effect.drops = false
  noted : line.noted = (line.read.filterMap Message.ack).map fun ack => (ack, true)
  heard : line.heard = (line.read.filterMap Message.turn).map fun turn => (turn, true)

section

variable [Party P] {I : Boxed P → TurnState → Prop} {line : Line P} {actor : LocalActor P MemoryInbox}
  {toApp toPeer : List Message} {answers : List (Request × Turn)}

def Holds (I : Boxed P → TurnState → Prop) (app peer : Address) (line : Line P) : Prop :=
  ∃ actor toApp toPeer answers, Going I app peer line actor toApp toPeer ∧
    Receipted line toApp toPeer answers

omit [Party P] in
theorem Going.sendTurn (h : Going I app peer line actor toApp toPeer)
    (hreceipted : Receipted line toApp toPeer answers) (turn : Turn) :
    Holds I app peer (line.sendTurn turn) := by
  have hsent := Phone.sendTurn_sent line.phone line.rt.net line.rt.clock turn
  obtain ⟨net, hsend, hwired⟩ := h.wired.send h.apart (.Turn turn)
  rw [← h.self, ← h.them] at hsend
  unfold Line.sendTurn
  generalize line.phone.sendTurn line.rt.net line.rt.clock turn = sent at hsent
  rcases hsent with ⟨error, hout⟩ | ⟨progress, hout, text, net', hrefused⟩ | ⟨progress, hout, net', hok⟩
  · exact ⟨actor, toApp, toPeer, answers, h, hreceipted⟩
  · rw [hsend] at hrefused
    cases hrefused
  · cases hsend.symm.trans hok
    have hturns : (toPeer ++ [Message.Turn turn]).filterMap Message.turn =
        toPeer.filterMap Message.turn ++ [turn] := by simp [Message.turn]
    refine ⟨actor, toApp, toPeer ++ [.Turn turn], answers,
      { h with wired := hwired, talk := ?_, stage := ?_ }, { hreceipted with asked := ?_, handed := ?_ }⟩
    · intro message hmessage
      rcases List.mem_append.mp hmessage with hmessage | hmessage
      · exact h.talk message hmessage
      · exact Or.inl ⟨turn, List.mem_singleton.mp hmessage⟩
    · have hdue : (line.phone.awaiting turn progress line.rt.clock).ackDue.map (·.1) = turn.posed := by
        cases turn <;> rfl
      have hstage := h.stage.said hout
      rw [← hturns, ← hdue] at hstage
      exact hstage
    · rw [hturns, List.filterMap_append, ← List.append_assoc, ← hreceipted.asked]
      exact List.filterMap_append
    · rw [hturns, ← List.append_assoc, ← hreceipted.handed]
      rfl

omit [Party P] in
theorem Going.receipt (h : Going I app peer line actor toApp toPeer)
    (hreceipted : Receipted line toApp toPeer answers) (ack : Ack) : Holds I app peer (line.receipt ack) := by
  obtain ⟨net, hsend, hwired⟩ := h.wired.send h.apart (.Ack ack)
  rw [← h.self, ← h.them] at hsend
  have hturns : (toPeer ++ [Message.Ack ack]).filterMap Message.turn = toPeer.filterMap Message.turn := by
    simp [Message.turn]
  unfold Line.receipt
  rw [hsend]
  refine ⟨actor, toApp, toPeer ++ [.Ack ack], answers,
    { h with wired := hwired, talk := ?_, stage := hturns ▸ h.stage },
    { hreceipted with asked := hturns ▸ hreceipted.asked, handed := hturns ▸ hreceipted.handed }⟩
  intro message hmessage
  rcases List.mem_append.mp hmessage with hmessage | hmessage
  · exact h.talk message hmessage
  · exact Or.inr ⟨ack, List.mem_singleton.mp hmessage⟩

omit [Party P] in
theorem Going.served (h : Going I app peer line actor toApp toPeer) {net : Shared}
    {dead : Finset EndpointId} (hdead : app.endpoint ∉ dead) {actor' : LocalActor P MemoryInbox}
    (hcarries : LocalActor.Carries actor actor' app (actor'.peer app))
    (hparty : ∃ party, actor'.party = some party ∧ I party (actor'.peer app).state)
    {toApp' : List Message} (hwired : Wired net app peer toApp' toPeer.tail)
    (hstage : Stage line.phone.state (line.phone.ackDue.map (·.1)) (actor'.peer app).state
      (toPeer.tail.filterMap Message.turn) toApp') (effects : List Effect) :
    Going I app peer
      { line with rt := { line.rt with net, dead }.setActor line.phone.peer.name actor', effects }
      actor' toApp' toPeer.tail where
  self := h.self
  them := h.them
  apart := h.apart
  inbox := h.inbox
  heeded := h.heeded
  address := h.address
  installed := by
    rw [h.them]
    exact LocalRuntime.setActor_self ..
  box := hcarries.same.inbox.trans h.box
  admitted := by rw [hcarries.same.allowlist, h.admitted]
  only := fun q hq => (hcarries.others q hq).trans (h.only q hq)
  buried := fun hmem => absurd hmem hdead
  party := hparty
  wired := hwired
  talk := fun message hmessage => h.talk message (List.mem_of_mem_tail hmessage)
  stage := hstage

theorem Going.tookTurn {turn : Turn} {rest : List Message} (hkeeps : Keeps app I)
    (h : Going I app peer line actor toApp (.Turn turn :: rest))
    (hreceipted : Receipted line toApp (.Turn turn :: rest) answers) {net : Shared}
    (hwired : Wired net app peer toApp rest) :
    let stepped := { line.rt with net }.deliver line.phone.peer.name actor ⟨app, peer, .Turn turn⟩
    let next := { line with rt := stepped.rt, effects := line.effects ++ stepped.effects }
    ∃ actor' toApp' answers', Going I app peer next actor' toApp' rest ∧
      Receipted next toApp' rest answers' := by
  have hdead : app.endpoint ∉ line.rt.dead.erase app.endpoint := Finset.notMem_erase _ _
  obtain ⟨rfl, hlegal, hsilent, hanswer⟩ := h.stage.taken
  obtain ⟨party, hparty, hI⟩ := h.party
  have hserved : ∃ net' actor' toApp', Served I app peer
      (LocalRuntime.heardFrom { line.rt with net } app.endpoint) line.phone.peer.name actor turn rest
      _ net' actor' toApp' := takeTurn_served hkeeps h.apart hparty hI hwired hlegal
  obtain ⟨net', actor', toApp', hserved⟩ := hserved
  rw [LocalRuntime.deliver_turn _ _ h.admitted]
  simp only [hserved.rt]
  have hhanded : ∀ effects : List Effect, effects.filterMap Effect.handed = [turn] →
      line.said = (line.effects ++ effects).filterMap Effect.handed ++
        rest.filterMap Message.turn := by
    intro effects heffects
    rw [List.filterMap_append, heffects, List.append_assoc]
    exact hreceipted.handed
  have hkept := List.forall_mem_append.mpr ⟨hreceipted.kept, hserved.kept⟩
  rcases hserved.answer with ⟨hnone, rfl, hstate⟩ | ⟨r, reply, hr, hreply, rfl, hstate⟩
  · have hstage := hsilent hnone
    rw [← hstate] at hstage
    refine ⟨actor', [], answers,
      h.served hdead hserved.carries hserved.party hserved.wired hstage _,
      { hreceipted with asked := ?_, handed := hhanded _ hserved.handed, kept := hkept }⟩
    simpa [Message.turn, hnone] using hreceipted.asked
  · obtain ⟨hnil, hstage⟩ := hanswer r reply hr hreply
    have hasked : line.said.filterMap Turn.request = answers.map (·.1) ++ [r] := by
      simpa [Message.turn, hr, hnil] using hreceipted.asked
    rw [← hstate, ← hnil] at hstage
    refine ⟨actor', _, answers ++ [(r, reply)],
      h.served hdead hserved.carries hserved.party hserved.wired hstage _,
      { hreceipted with
        arrived := ?_
        asked := ?_
        answering := ?_
        handed := hhanded _ hserved.handed
        kept := hkept }⟩
    · have harrived := hreceipted.arrived
      rw [List.append_nil] at harrived
      rw [List.flatMap_append, ← harrived]
      rfl
    · rw [hnil, List.filterMap_nil, List.append_nil, List.map_append]
      exact hasked
    · intro answer hmem
      rcases List.mem_append.mp hmem with hmem | hmem
      · exact hreceipted.answering answer hmem
      · rw [List.mem_singleton.mp hmem]
        exact Stage.answering_of_legal hreply

/-- The app's own receipts settle no wait that the stage speaks of. -/
theorem Going.tookAck {ack : Ack} {rest : List Message}
    (h : Going I app peer line actor toApp (.Ack ack :: rest))
    (hreceipted : Receipted line toApp (.Ack ack :: rest) answers) {net : Shared}
    (hwired : Wired net app peer toApp rest) :
    let stepped := { line.rt with net }.deliver line.phone.peer.name actor ⟨app, peer, .Ack ack⟩
    let next := { line with rt := stepped.rt, effects := line.effects ++ stepped.effects }
    ∃ actor', Going I app peer next actor' toApp rest ∧ Receipted next toApp rest answers := by
  have hdead : app.endpoint ∉ line.rt.dead.erase app.endpoint := Finset.notMem_erase _ _
  rw [LocalRuntime.deliver_ack _ _ h.admitted]
  simp only [List.append_nil]
  have hcarries := LocalActor.Carries.settleAck actor app ack.id
  have hsame : ((actor.peer app).settleAck ack.id).state = (actor.peer app).state :=
    PeerState.settleAck_state ..
  obtain ⟨party, hparty, hI⟩ := h.party
  have hgoing := h.served hdead ⟨rfl, hcarries.others, hcarries.same⟩ ⟨party, hparty, ?_⟩ hwired ?_
    line.effects
  · exact ⟨_, hgoing, { hreceipted with }⟩
  · rw [hcarries.took, hsame]
    exact hI
  · rw [hcarries.took, hsame]
    exact h.stage

theorem Going.step (hkeeps : Keeps app I) (h : Going I app peer line actor toApp toPeer)
    (hreceipted : Receipted line toApp toPeer answers) (waker : Waker)
    (hundisturbed : Undisturbed line (.Step waker)) :
    ∃ actor' toApp' answers', Going I app peer (line.step waker) actor' toApp' toPeer.tail ∧
      Receipted (line.step waker) toApp' toPeer.tail answers' := by
  obtain ⟨hdue, hdeaths⟩ := hundisturbed
  have hinstalled : line.rt.actors line.phone.peer.name = some actor := by rw [h.them, h.installed]
  have hpolled := poll_wired hinstalled (h.only.quiet h.buried) h.box h.apart h.wired
    (hdue actor hinstalled) hdeaths waker
  unfold Line.step
  rcases hpolled with ⟨rfl, net, hpoll, hwired⟩ | ⟨message, rest, net, rfl, hwired, hpoll⟩
  · rw [hpoll]
    simp only [List.append_nil]
    exact ⟨actor, toApp, answers, { h with wired := hwired }, { hreceipted with }⟩
  · rw [hpoll]
    rcases h.talk message List.mem_cons_self with ⟨turn, rfl⟩ | ⟨ack, rfl⟩
    · exact h.tookTurn hkeeps hreceipted hwired
    · obtain ⟨actor', hgoing, hreceipted'⟩ := h.tookAck hreceipted hwired
      exact ⟨actor', toApp, answers, hgoing, hreceipted'⟩

omit [Party P] in
theorem Going.dispatch {message : Message} (h : Going I app peer line actor (message :: toApp) toPeer)
    (hreceipted : Receipted line (message :: toApp) toPeer answers) {net : Shared}
    (hwired : Wired net app peer toApp toPeer) :
    let read : Line P := { line with rt := { line.rt with net } }
    Going I app peer (read.dispatch ⟨peer, app, message⟩) actor toApp toPeer ∧
      Receipted (read.dispatch ⟨peer, app, message⟩) toApp toPeer answers := by
  have harrived : line.read ++ [message] ++ toApp =
      answers.flatMap fun answer => [.Ack ⟨answer.1.id⟩, .Turn answer.2] := by
    rw [List.append_assoc]
    exact hreceipted.arrived
  have hadmitted : line.allowlist.allows (⟨peer, app, message⟩ : Delivery).origin.endpoint = true :=
    h.heeded
  have hprocess := process_admitted hadmitted
  rcases h.stage.head with ⟨ack, rfl⟩ | ⟨turn, rfl⟩
  · obtain ⟨hdue, hstage⟩ := h.stage.noted
    obtain ⟨⟨id, due⟩, hdue, rfl⟩ := Option.map_eq_some_iff.mp hdue
    have hnoted : line.phone.noteAck ack = (true, { line.phone with ackDue := none }) := by
      simp [Phone.noteAck, hdue]
    simp only [Line.dispatch, hprocess, hnoted]
    refine ⟨{ h with wired := hwired, stage := hstage },
      { hreceipted with arrived := harrived, noted := ?_, heard := ?_ }⟩
    · rw [List.filterMap_append, List.map_append, ← hreceipted.noted]
      rfl
    · rw [List.filterMap_append, List.map_append, ← hreceipted.heard]
      exact (List.append_nil _).symm
  · obtain ⟨hlegal, hstage⟩ := h.stage.heard
    obtain ⟨progress, hlegal⟩ := isOk_iff.mp hlegal
    have hheard : line.phone.onIncoming turn =
        (.ok progress, line.phone.stopped (afterTurn .OweThem turn)) := by
      simp only [Phone.onIncoming, hlegal, onIncoming_state _ _ _ hlegal]
      rfl
    simp only [Line.dispatch, hprocess, hheard]
    refine ⟨{ h with wired := hwired, stage := hstage },
      { hreceipted with arrived := harrived, noted := ?_, heard := ?_ }⟩
    · rw [List.filterMap_append, List.map_append, ← hreceipted.noted]
      exact (List.append_nil _).symm
    · rw [List.filterMap_append, List.map_append, ← hreceipted.heard]
      rfl

omit [Party P] in
theorem Going.readNext (h : Going I app peer line actor toApp toPeer)
    (hreceipted : Receipted line toApp toPeer answers) (waker : Waker) :
    Going I app peer (line.readNext waker) actor toApp.tail toPeer ∧
      Receipted (line.readNext waker) toApp.tail toPeer answers := by
  unfold Line.readNext
  rcases h.wired.symm.pollNext h.apart.symm waker with ⟨rfl, net, hpoll, hwired⟩ |
    ⟨message, rest, net, rfl, hpoll, hwired⟩ <;> rw [← h.inbox] at hpoll
  · rw [hpoll]
    exact ⟨{ h with wired := hwired.symm }, { hreceipted with }⟩
  · rw [hpoll]
    exact h.dispatch hreceipted hwired.symm

omit [Party P] in
theorem Going.elsewhere (h : Going I app peer line actor toApp toPeer) {net : Shared → Shared}
    {clock : Instant} (hundisturbed : Undisturbed line (.Elsewhere net clock)) :
    Going I app peer { line with rt := { line.rt with net := net line.rt.net, clock } } actor toApp
      toPeer := by
  obtain ⟨hthere, hback, hqueues⟩ := hundisturbed
  rw [h.self, h.them] at hthere hback hqueues
  exact { h with
    wired := ⟨hthere, hback, (hqueues app (Or.inl rfl)).trans h.wired.left,
      (hqueues peer (Or.inr rfl)).trans h.wired.right⟩ }

theorem Holds.act (hkeeps : Keeps app I) (h : Holds I app peer line) (a : Act)
    (hundisturbed : Undisturbed line a) : Holds I app peer (line.act a) := by
  obtain ⟨actor, toApp, toPeer, answers, hgoing, hreceipted⟩ := h
  cases a with
  | SendTurn turn => exact hgoing.sendTurn hreceipted turn
  | Receipt ack => exact hgoing.receipt hreceipted ack
  | Step waker =>
    obtain ⟨actor', toApp', answers', hgoing', hreceipted'⟩ :=
      hgoing.step hkeeps hreceipted waker hundisturbed
    exact ⟨actor', toApp', _, answers', hgoing', hreceipted'⟩
  | Read waker =>
    obtain ⟨hgoing', hreceipted'⟩ := hgoing.readNext hreceipted waker
    exact ⟨actor, _, toPeer, answers, hgoing', hreceipted'⟩
  | Elsewhere net clock =>
    exact ⟨actor, toApp, toPeer, answers, hgoing.elsewhere hundisturbed, { hreceipted with }⟩

omit [Party P] in
theorem Going.queued (h : Going I app peer line actor toApp toPeer) :
    line.queued app = toApp ∧ line.queued peer = toPeer := by
  obtain ⟨mailbox, hmailbox, hqueue⟩ := Option.map_eq_some_iff.mp h.wired.left
  obtain ⟨mailbox', hmailbox', hqueue'⟩ := Option.map_eq_some_iff.mp h.wired.right
  simp [Line.queued, hmailbox, hqueue, hmailbox', hqueue', Function.comp_def]

omit [Party P] in
theorem holds_start {rt : LocalRuntime P Shared MemoryInbox} (hendpoint : rt.endpoint = peer.endpoint)
    (hthere : (app.endpoint, peer.endpoint) ∉ rt.net.partitions)
    (hback : (peer.endpoint, app.endpoint) ∉ rt.net.partitions)
    (hinbox : (rt.net.mailboxes.lookup app).map (·.queue) = some []) {allowlist heeded : Allowlist}
    (hallowed : allowlist.allows app.endpoint = true) (hheeded : heeded.allows peer.endpoint = true)
    (deadlines deadlines' : Deadlines) {party : Boxed P} (hI : I party .Idle)
    (hinstalled : (rt.installParty peer.name allowlist deadlines party).result = .ok ()) :
    Holds I app peer
      (start app peer deadlines' heeded (rt.installParty peer.name allowlist deadlines party).rt) := by
  have haddress : rt.address peer.name = peer := congrArg₂ _ hendpoint rfl
  unfold LocalRuntime.installParty LocalRuntime.installInner at hinstalled ⊢
  split at hinstalled
  · cases hinstalled
  · rename_i hfree
    simp only [if_neg hfree, haddress] at hinstalled ⊢
    split at hinstalled
    · cases hinstalled
    · rename_i inbox net hbind
      obtain ⟨hfresh, rfl, rfl⟩ := Shared.bind_ok hbind
      have hne : app ≠ peer := by
        rintro rfl
        rw [hfresh] at hinbox
        cases hinbox
      have hleft : ((rt.net.mailboxes.insert peer default).lookup app).map (·.queue) = some [] := by
        rw [AList.lookup_insert_ne hne, hinbox]
      have hright : ((rt.net.mailboxes.insert peer default).lookup peer).map (·.queue) = some [] := by
        rw [AList.lookup_insert]
        rfl
      refine ⟨⟨⟨peer⟩, allowlist, .Plain, deadlines, some party, ∅⟩, [], [], [], ?_,
        ⟨rfl, rfl, nofun, rfl, nofun, rfl, rfl⟩⟩
      exact ⟨rfl, rfl, hne, rfl, hheeded, haddress, LocalRuntime.setActor_self .., rfl, hallowed,
        fun _ _ => rfl, fun _ => rfl, ⟨party, rfl, hI⟩, ⟨hthere, hback, hleft, hright⟩, nofun, .rest⟩

end

/-- The party of the actor keeps its contract, nothing parts the two, and nobody is killed, revoked or
out of time. However the app's sends, the runtime's steps and the pump's reads interleave: each request
that the phone sends is answered by one receipt and then the party's turn, in the order of the requests,
nothing else comes to the app, and a step takes whatever comes next. -/
theorem one_receipt_per_request [Party P] (app peer : Address) (rt : LocalRuntime P Shared MemoryInbox)
    (hendpoint : rt.endpoint = peer.endpoint)
    (hthere : (app.endpoint, peer.endpoint) ∉ rt.net.partitions)
    (hback : (peer.endpoint, app.endpoint) ∉ rt.net.partitions)
    (hinbox : (rt.net.mailboxes.lookup app).map (·.queue) = some []) (allowlist heeded : Allowlist)
    (hallowed : allowlist.allows app.endpoint = true) (hheeded : heeded.allows peer.endpoint = true)
    (deadlines deadlines' : Deadlines) (party : Boxed P) (hobeys : Obeys app party)
    (hinstalled : (rt.installParty peer.name allowlist deadlines party).result = .ok ())
    (acts : List Act)
    (hundisturbed : Run.Along act Undisturbed
      (start app peer deadlines' heeded (rt.installParty peer.name allowlist deadlines party).rt) acts) :
    let line :=
      (start app peer deadlines' heeded (rt.installParty peer.name allowlist deadlines party).rt).after acts
    (∃ answers, Receipted line (line.queued app) (line.queued peer) answers) ∧
      (∀ waker, Undisturbed line (.Step waker) →
        (line.act (.Step waker)).queued peer = (line.queued peer).tail) ∧
      ∀ waker, (line.act (.Read waker)).queued app = (line.queued app).tail := by
  intro line
  obtain ⟨I, hkeeps, hI⟩ := hobeys
  have hstart := holds_start hendpoint hthere hback hinbox hallowed hheeded deadlines deadlines' hI
    hinstalled
  have hholds : Holds I app peer line :=
    Run.invariant act (fun _ a h hok => h.act hkeeps a hok) _ acts hstart hundisturbed
  obtain ⟨actor, toApp, toPeer, answers, hgoing, hreceipted⟩ := hholds
  obtain ⟨hleft, hright⟩ := hgoing.queued
  rw [hleft, hright]
  refine ⟨⟨answers, hreceipted⟩, fun waker hok => ?_, fun waker => ?_⟩
  · obtain ⟨actor', toApp', answers', hgoing', -⟩ := hgoing.step hkeeps hreceipted waker hok
    exact hgoing'.queued.2
  · exact (hgoing.readNext hreceipted waker).1.queued.1

/-- Alice asks and reads the receipt and the answer. -/
theorem one_receipt_per_request_bob :
    let rt : LocalRuntime CountdownParty Shared MemoryInbox :=
      .new Sample.bob.endpoint (Shared.new.register Sample.alice).2 0 Sample.patience
    let installed := rt.installParty Sample.bob.name ⟨{Sample.alice.endpoint}⟩ Sample.patience
      (.app (.new 0))
    let line := (start Sample.alice Sample.bob Sample.patience ⟨{Sample.bob.endpoint}⟩ installed.rt).after
      [.SendTurn (.Open (Sample.request 1)), .Step 0, .Read 0, .Read 0]
    (∃ answers, Receipted line (line.queued Sample.alice) (line.queued Sample.bob) answers) ∧
      (∀ waker, Undisturbed line (.Step waker) →
        (line.act (.Step waker)).queued Sample.bob = (line.queued Sample.bob).tail) ∧
      ∀ waker, (line.act (.Read waker)).queued Sample.alice = (line.queued Sample.alice).tail := by
  intro rt installed line
  refine one_receipt_per_request Sample.alice Sample.bob rt rfl (by decide) (by decide) rfl _ _
    (by decide) (by decide) Sample.patience Sample.patience _ (CountdownParty.obeys 0 _).app rfl _
    ⟨trivial, ⟨?_, by decide⟩, trivial, trivial, trivial⟩
  intro actor hactor
  cases hactor
  decide

end Line

end Kamiroh
