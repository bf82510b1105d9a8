import Kamiroh.Assoc
import Kamiroh.Ports

/-!
# Stock parties

Both keep a shadow of the turn machine for each peer.
-/

namespace Kamiroh

/-- Answers every request with its own body, and never asks anything. -/
structure EchoParty where
  states : Assoc Address TurnState

namespace EchoParty

def new : EchoParty := ⟨∅⟩

def state (party : EchoParty) (peer : Address) : TurnState := (party.states.lookup peer).getD default

def onTurn (party : EchoParty) (peer : Address) (turn : Turn) : EchoParty × Option Turn :=
  let heard := (party.state peer).onIncoming turn
  match heard.1 with
  | .error _ => (⟨party.states.insert peer heard.2⟩, none)
  | .ok _ =>
    match turn.request with
    | none => (⟨party.states.insert peer heard.2⟩, none)
    | some request =>
      -- The source expects that this reply is legal, see `reply_legal`.
      let reply := Turn.Close ⟨request.id, request.body⟩
      (⟨party.states.insert peer (heard.2.onOutgoing reply).2⟩, some reply)

def onExchangeFailed (party : EchoParty) (peer : Address) (_cause : FailureCause) : EchoParty :=
  ⟨party.states.modify peer fun state => state.fail.2⟩

instance : Party EchoParty := ⟨onTurn, onExchangeFailed⟩

end EchoParty

theorem reply_legal {s : TurnState} {turn : Turn} {progress : TurnProgress} {request : Request}
    (h : (s.onIncoming turn).1 = .ok progress) (hr : turn.request = some request) (body : List UInt8) :
    ((s.onIncoming turn).2.onOutgoing (.Close ⟨request.id, body⟩)).1 = .ok .Concluded := by
  rw [TurnState.onIncoming_state s turn progress h]
  cases turn with
  | Open r | Continue a r =>
    cases hr
    simp [TurnState.afterTurn, TurnState.onOutgoing]
  | Close a => cases hr

structure Countdown where
  state : TurnState
  remaining : UInt8
  nextId : UInt8
deriving DecidableEq

/-- Answers each request, and asks back as long as the countdown of that peer is above zero. -/
structure CountdownParty where
  rounds : UInt8
  peers : Assoc Address Countdown

namespace CountdownParty

def new (rounds : UInt8) : CountdownParty := ⟨rounds, ∅⟩

def peer (party : CountdownParty) (address : Address) : Countdown :=
  (party.peers.lookup address).getD ⟨.Idle, party.rounds, 100⟩

def onTurn (party : CountdownParty) (address : Address) (turn : Turn) :
    CountdownParty × Option Turn :=
  let peer := party.peer address
  let heard := peer.state.onIncoming turn
  match heard.1 with
  | .error _ => ({ party with peers := party.peers.insert address { peer with state := heard.2 } }, none)
  | .ok _ =>
    match turn.request with
    | none =>
      ({ party with peers := party.peers.insert address { peer with state := heard.2 } }, none)
    | some request =>
      let response : Response := ⟨request.id, request.body⟩
      if 0 < peer.remaining then
        let remaining := peer.remaining - 1
        let reply := Turn.Continue response ⟨⟨Vector.replicate 16 peer.nextId⟩, [remaining]⟩
        let peer := ⟨(heard.2.onOutgoing reply).2, remaining, peer.nextId + 1⟩
        ({ party with peers := party.peers.insert address peer }, some reply)
      else
        let reply := Turn.Close response
        let peer := { peer with state := (heard.2.onOutgoing reply).2 }
        ({ party with peers := party.peers.insert address peer }, some reply)

def onExchangeFailed (party : CountdownParty) (address : Address) (_cause : FailureCause) :
    CountdownParty :=
  { party with peers := party.peers.modify address fun peer => { peer with state := peer.state.fail.2 } }

instance : Party CountdownParty := ⟨onTurn, onExchangeFailed⟩

end CountdownParty

/-- A party behind a pointer, as a runtime holds it: the stock one that the harness spawns, or one of
the application. -/
inductive Boxed (P : Type)
  | echo (party : EchoParty)
  | app (party : P)

instance {P : Type} [Party P] : Party (Boxed P) where
  onTurn
    | .echo party, peer, turn => (.echo (Party.onTurn party peer turn).1, (Party.onTurn party peer turn).2)
    | .app party, peer, turn => (.app (Party.onTurn party peer turn).1, (Party.onTurn party peer turn).2)
  onExchangeFailed
    | .echo party, peer, cause => .echo (Party.onExchangeFailed party peer cause)
    | .app party, peer, cause => .app (Party.onExchangeFailed party peer cause)

instance : Party Empty := ⟨fun party => party.elim, fun party => party.elim⟩

/-! ## The contract of a party -/

/-- Towards `peer`, the party answers every turn that carries a request with a legal one, and every other
turn with nothing. `I party s` ties the party to the state `s` of that conversation. -/
structure Keeps {P : Type} [Party P] (peer : Address) (I : P → TurnState → Prop) : Prop where
  answers : ∀ {party s turn progress request}, I party s → (s.onIncoming turn).1 = .ok progress →
    turn.request = some request →
      ∃ reply progress', (Party.onTurn party peer turn).2 = some reply ∧
        ((s.onIncoming turn).2.onOutgoing reply).1 = .ok progress' ∧
        I (Party.onTurn party peer turn).1 ((s.onIncoming turn).2.onOutgoing reply).2
  silent : ∀ {party s turn progress}, I party s → (s.onIncoming turn).1 = .ok progress →
    turn.request = none →
      (Party.onTurn party peer turn).2 = none ∧ I (Party.onTurn party peer turn).1 (s.onIncoming turn).2

/-- The party, as it is, keeps the contract towards a peer that opens a conversation. -/
def Obeys {P : Type} [Party P] (peer : Address) (party : P) : Prop :=
  ∃ I, Keeps peer I ∧ I party .Idle

theorem Obeys.app {P : Type} [Party P] {peer : Address} {party : P} (h : Obeys peer party) :
    Obeys peer (Boxed.app party) := by
  obtain ⟨I, hkeeps, hI⟩ := h
  refine ⟨fun boxed s => ∃ party, boxed = .app party ∧ I party s, ⟨?_, ?_⟩, party, rfl, hI⟩
  · rintro _ s turn progress request ⟨party, rfl, hparty⟩ hlegal hrequest
    obtain ⟨reply, progress', hreply, hout, hnext⟩ := hkeeps.answers hparty hlegal hrequest
    exact ⟨reply, progress', hreply, hout, _, rfl, hnext⟩
  · rintro _ s turn progress ⟨party, rfl, hparty⟩ hlegal hrequest
    obtain ⟨hnone, hnext⟩ := hkeeps.silent hparty hlegal hrequest
    exact ⟨hnone, _, rfl, hnext⟩

/-! ### The stock parties keep it -/

section

variable {peer : Address} {turn : Turn} {progress : TurnProgress} {request : Request}

theorem EchoParty.onTurn_answered {party : EchoParty}
    (h : ((party.state peer).onIncoming turn).1 = .ok progress) (hr : turn.request = some request) :
    party.onTurn peer turn = (⟨party.states.insert peer
      (((party.state peer).onIncoming turn).2.onOutgoing (.Close ⟨request.id, request.body⟩)).2⟩,
        some (.Close ⟨request.id, request.body⟩)) := by
  simp only [onTurn, h, hr]

theorem EchoParty.onTurn_silent {party : EchoParty}
    (h : ((party.state peer).onIncoming turn).1 = .ok progress) (hr : turn.request = none) :
    party.onTurn peer turn = (⟨party.states.insert peer ((party.state peer).onIncoming turn).2⟩, none) := by
  simp only [onTurn, h, hr]

theorem ask_legal {s : TurnState} (h : (s.onIncoming turn).1 = .ok progress)
    (hr : turn.request = some request) (body : List UInt8) (asked : Request) :
    ((s.onIncoming turn).2.onOutgoing (.Continue ⟨request.id, body⟩ asked)).1 = .ok .Continuing := by
  rw [TurnState.onIncoming_state s turn progress h]
  cases turn with
  | Open r | Continue a r =>
    cases hr
    simp [TurnState.afterTurn, TurnState.onOutgoing]
  | Close a => cases hr

theorem CountdownParty.onTurn_answered {party : CountdownParty}
    (h : ((party.peer peer).state.onIncoming turn).1 = .ok progress) (hr : turn.request = some request) :
    ∃ reply progress' next, reply.response = some ⟨request.id, request.body⟩ ∧
      (((party.peer peer).state.onIncoming turn).2.onOutgoing reply).1 = .ok progress' ∧
      next.state = (((party.peer peer).state.onIncoming turn).2.onOutgoing reply).2 ∧
      party.onTurn peer turn = (⟨party.rounds, party.peers.insert peer next⟩, some reply) := by
  let heard := ((party.peer peer).state.onIncoming turn).2
  by_cases hremaining : 0 < (party.peer peer).remaining
  · let remaining := (party.peer peer).remaining - 1
    let reply : Turn := .Continue ⟨request.id, request.body⟩
      ⟨⟨Vector.replicate 16 (party.peer peer).nextId⟩, [remaining]⟩
    let next : Countdown := ⟨(heard.onOutgoing reply).2, remaining, (party.peer peer).nextId + 1⟩
    refine ⟨reply, .Continuing, next, rfl, ask_legal h hr request.body _, rfl, ?_⟩
    simp only [onTurn, h, hr, if_pos hremaining]
    rfl
  · let reply : Turn := .Close ⟨request.id, request.body⟩
    let next : Countdown := { party.peer peer with state := (heard.onOutgoing reply).2 }
    refine ⟨reply, .Concluded, next, rfl, reply_legal h hr request.body, rfl, ?_⟩
    simp only [onTurn, h, hr, if_neg hremaining]
    rfl

theorem CountdownParty.onTurn_silent {party : CountdownParty}
    (h : ((party.peer peer).state.onIncoming turn).1 = .ok progress) (hr : turn.request = none) :
    party.onTurn peer turn = (⟨party.rounds, party.peers.insert peer
      { party.peer peer with state := ((party.peer peer).state.onIncoming turn).2 }⟩, none) := by
  simp only [onTurn, h, hr]

end

theorem EchoParty.state_insert (party : EchoParty) (peer : Address) (s : TurnState) :
    (⟨party.states.insert peer s⟩ : EchoParty).state peer = s := by
  simp [EchoParty.state]

theorem EchoParty.obeys (peer : Address) : Obeys peer EchoParty.new := by
  refine ⟨fun party s => party.state peer = s, ⟨?_, ?_⟩, rfl⟩
  · rintro party _ turn progress request rfl hlegal hrequest
    have hturn : Party.onTurn party peer turn = _ := EchoParty.onTurn_answered hlegal hrequest
    rw [hturn]
    exact ⟨_, .Concluded, rfl, reply_legal hlegal hrequest request.body, state_insert ..⟩
  · rintro party _ turn progress rfl hlegal hrequest
    have hturn : Party.onTurn party peer turn = _ := EchoParty.onTurn_silent hlegal hrequest
    rw [hturn]
    exact ⟨rfl, state_insert ..⟩

theorem CountdownParty.peer_insert (party : CountdownParty) (peer : Address) (c : Countdown) :
    (⟨party.rounds, party.peers.insert peer c⟩ : CountdownParty).peer peer = c := by
  simp [CountdownParty.peer]

theorem CountdownParty.obeys (rounds : UInt8) (peer : Address) :
    Obeys peer (CountdownParty.new rounds) := by
  refine ⟨fun party s => (party.peer peer).state = s, ⟨?_, ?_⟩, rfl⟩
  · rintro party _ turn progress request rfl hlegal hrequest
    obtain ⟨reply, progress', next, -, hout, hnext, hturn⟩ :=
      CountdownParty.onTurn_answered hlegal hrequest
    have hturn : Party.onTurn party peer turn = _ := hturn
    rw [hturn]
    exact ⟨reply, progress', rfl, hout, (congrArg Countdown.state (peer_insert ..)).trans hnext⟩
  · rintro party _ turn progress rfl hlegal hrequest
    have hturn : Party.onTurn party peer turn = _ := CountdownParty.onTurn_silent hlegal hrequest
    rw [hturn]
    exact ⟨rfl, congrArg Countdown.state (peer_insert ..)⟩

end Kamiroh
