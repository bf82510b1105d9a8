import Kamiroh.Vocabulary

/-!
# Protocols: the rulebook, and one side's turn machine

`TurnState` is translated branch by branch from `kamiroh-domain/src/protocol.rs`. The methods take
`&mut self` there, so each returns the result together with the state that it leaves behind.
-/

namespace Kamiroh

inductive ProtocolId
  | RequestAck
  | Harness
  | Turns
deriving DecidableEq

def protocolOf : Message → ProtocolId
  | .Request _ | .Ack _ => .RequestAck
  | .Harness _ => .Harness
  | .Turn _ => .Turns

/-- Does this message open an exchange? Everything else is a reply. -/
def opens : Message → Bool
  | .Request _ => true
  | .Ack _ => false
  | .Harness (.Spawn _) | .Harness (.Stop _) | .Harness .Ping => true
  | .Harness _ => false
  | .Turn (.Open _) => true
  | .Turn _ => false

def completes : Message → Message → Bool
  | .Request request, .Ack ack => ack.id = request.id
  | .Harness .Ping, .Harness .Pong => true
  | .Harness (.Spawn name), .Harness (.Spawned spawned) => name = spawned
  | .Harness (.Stop name), .Harness (.Stopped stopped) => name = stopped
  | .Harness (.Spawn _), .Harness (.Failed _)
  | .Harness (.Stop _), .Harness (.Failed _)
  | .Harness .Ping, .Harness (.Failed _) => true
  | .Turn (.Open request), .Turn (.Close response) => response.id = request.id
  | _, _ => false

/-! ## The turn machine -/

inductive TurnState
  | Idle
  | AwaitingTheirTurn (outstanding : RequestId)
  | OweThem (outstanding : RequestId)
  | Failed
deriving DecidableEq

instance : Inhabited TurnState := ⟨.Idle⟩

inductive TurnProgress
  | Continuing
  | Concluded
deriving DecidableEq

inductive TurnError
  | NotOurMove
  | NotTheirMove
  | WrongResponse
  | NoExchange
  | MustAnswerFirst
  | ExchangeFailed
deriving DecidableEq

theorem isOk_iff {ε α : Type} {x : Except ε α} : x.isOk = true ↔ ∃ a, x = .ok a := by
  cases x <;> simp [Except.isOk, Except.toBool]

namespace TurnState

/-- An exchange is under way: the states that `fail` turns into `Failed`. -/
def live : TurnState → Bool
  | AwaitingTheirTurn _ | OweThem _ => true
  | Idle | Failed => false

def fail : TurnState → Bool × TurnState
  | AwaitingTheirTurn _ | OweThem _ => (true, Failed)
  | Idle => (false, Idle)
  | Failed => (false, Failed)

def onOutgoing : TurnState → Turn → Except TurnError TurnProgress × TurnState
  | Failed, .Open request => (.ok .Continuing, AwaitingTheirTurn request.id)
  | Failed, _ => (.error .ExchangeFailed, Failed)
  | Idle, .Open request => (.ok .Continuing, AwaitingTheirTurn request.id)
  | Idle, _ => (.error .NoExchange, Idle)
  | OweThem outstanding, .Continue response request =>
    if response.id ≠ outstanding then (.error .WrongResponse, OweThem outstanding)
    else (.ok .Continuing, AwaitingTheirTurn request.id)
  | OweThem outstanding, .Close response =>
    if response.id ≠ outstanding then (.error .WrongResponse, OweThem outstanding)
    else (.ok .Concluded, Idle)
  | OweThem outstanding, .Open _ => (.error .MustAnswerFirst, OweThem outstanding)
  | AwaitingTheirTurn outstanding, _ => (.error .NotOurMove, AwaitingTheirTurn outstanding)

def onIncoming : TurnState → Turn → Except TurnError TurnProgress × TurnState
  | Failed, .Open request => (.ok .Continuing, OweThem request.id)
  | Failed, _ => (.error .ExchangeFailed, Failed)
  | Idle, .Open request => (.ok .Continuing, OweThem request.id)
  | Idle, _ => (.error .NoExchange, Idle)
  | AwaitingTheirTurn outstanding, .Continue response request =>
    if response.id ≠ outstanding then (.error .WrongResponse, AwaitingTheirTurn outstanding)
    else (.ok .Continuing, OweThem request.id)
  | AwaitingTheirTurn outstanding, .Close response =>
    if response.id ≠ outstanding then (.error .WrongResponse, AwaitingTheirTurn outstanding)
    else (.ok .Concluded, Idle)
  | AwaitingTheirTurn outstanding, .Open _ => (.error .MustAnswerFirst, AwaitingTheirTurn outstanding)
  | OweThem outstanding, _ => (.error .NotTheirMove, OweThem outstanding)

@[simp] theorem live_idle : live Idle = false := rfl
@[simp] theorem live_failed : live Failed = false := rfl
@[simp] theorem live_awaiting (x : RequestId) : live (AwaitingTheirTurn x) = true := rfl
@[simp] theorem live_owe (x : RequestId) : live (OweThem x) = true := rfl

theorem fail_live (s : TurnState) : s.fail.1 = s.live := by cases s <;> rfl

theorem fail_of_not_live (s : TurnState) (h : s.live = false) : s.fail.2 = s := by
  cases s <;> simp_all [fail]

@[simp] theorem fail_not_live (s : TurnState) : s.fail.2.live = false := by cases s <;> rfl

/-! ## What a legal turn does -/

/-- From `s`, `turn` is the right next one for the side that holds an open request: `holder x` is
the state in which that side must answer `x`. The two methods differ only in who holds it. -/
inductive Answers (holder : RequestId → TurnState) (s : TurnState) : Turn → TurnProgress → Prop
  | opens (r : Request) (h : s = Idle ∨ s = Failed) : Answers holder s (.Open r) .Continuing
  | continues (a : Response) (r : Request) (h : s = holder a.id) :
      Answers holder s (.Continue a r) .Continuing
  | closes (a : Response) (h : s = holder a.id) : Answers holder s (.Close a) .Concluded

theorem Answers.opens_or_live {holder : RequestId → TurnState} {s : TurnState} {t : Turn}
    {p : TurnProgress} (h : Answers holder s t p) (hholder : ∀ x, (holder x).live = true) :
    (∃ r, t = .Open r) ∨ s.live = true := by
  rcases h with ⟨r, -⟩ | ⟨a, r, rfl⟩ | ⟨a, rfl⟩
  · exact Or.inl ⟨r, rfl⟩
  · exact Or.inr (hholder _)
  · exact Or.inr (hholder _)

/-- The state after a legal turn: `waiter x` is the state of a side whose `x` is now open. -/
def afterTurn (waiter : RequestId → TurnState) (turn : Turn) : TurnState :=
  match turn.posed with
  | some x => waiter x
  | none => Idle

theorem afterTurn_of_none {waiter : RequestId → TurnState} {turn : Turn} (h : turn.request = none) :
    afterTurn waiter turn = Idle := by
  unfold afterTurn Turn.posed
  rw [h]
  rfl

theorem onOutgoing_ok_iff (s : TurnState) (t : Turn) (p : TurnProgress) :
    (s.onOutgoing t).1 = .ok p ↔ Answers OweThem s t p := by
  constructor
  · intro h
    rcases s with _ | x | x | _ <;> rcases t with r | ⟨a, r⟩ | a <;> simp only [onOutgoing] at h
    all_goals first | cases h | (split at h <;> cases h)
    · exact .opens r (Or.inl rfl)
    · exact .continues a r (by simp_all)
    · exact .closes a (by simp_all)
    · exact .opens r (Or.inr rfl)
  · rintro (⟨r, rfl | rfl⟩ | ⟨a, r, rfl⟩ | ⟨a, rfl⟩) <;> simp [onOutgoing]

theorem onIncoming_ok_iff (s : TurnState) (t : Turn) (p : TurnProgress) :
    (s.onIncoming t).1 = .ok p ↔ Answers AwaitingTheirTurn s t p := by
  constructor
  · intro h
    rcases s with _ | x | x | _ <;> rcases t with r | ⟨a, r⟩ | a <;> simp only [onIncoming] at h
    all_goals first | cases h | (split at h <;> cases h)
    · exact .opens r (Or.inl rfl)
    · exact .continues a r (by simp_all)
    · exact .closes a (by simp_all)
    · exact .opens r (Or.inr rfl)
  · rintro (⟨r, rfl | rfl⟩ | ⟨a, r, rfl⟩ | ⟨a, rfl⟩) <;> simp [onIncoming]

theorem onOutgoing_state (s : TurnState) (t : Turn) (p : TurnProgress)
    (h : (s.onOutgoing t).1 = .ok p) : (s.onOutgoing t).2 = afterTurn AwaitingTheirTurn t := by
  rcases (onOutgoing_ok_iff s t p).mp h with ⟨r, rfl | rfl⟩ | ⟨a, r, rfl⟩ | ⟨a, rfl⟩ <;>
    simp [onOutgoing, afterTurn]

theorem onIncoming_state (s : TurnState) (t : Turn) (p : TurnProgress)
    (h : (s.onIncoming t).1 = .ok p) : (s.onIncoming t).2 = afterTurn OweThem t := by
  rcases (onIncoming_ok_iff s t p).mp h with ⟨r, rfl | rfl⟩ | ⟨a, r, rfl⟩ | ⟨a, rfl⟩ <;>
    simp [onIncoming, afterTurn]

theorem onOutgoing_refused (s : TurnState) (t : Turn) (e : TurnError)
    (h : (s.onOutgoing t).1 = .error e) : (s.onOutgoing t).2 = s := by
  rcases s with _ | x | x | _ <;> rcases t with r | ⟨a, r⟩ | a <;> simp only [onOutgoing] at h ⊢
  all_goals first | cases h | (split at h <;> simp_all)

theorem onIncoming_refused (s : TurnState) (t : Turn) (e : TurnError)
    (h : (s.onIncoming t).1 = .error e) : (s.onIncoming t).2 = s := by
  rcases s with _ | x | x | _ <;> rcases t with r | ⟨a, r⟩ | a <;> simp only [onIncoming] at h ⊢
  all_goals first | cases h | (split at h <;> simp_all)

end TurnState

end Kamiroh
