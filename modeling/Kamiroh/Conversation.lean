import Kamiroh.Protocol
import Kamiroh.Run

/-!
# The rulebook and the initiator's conversation

`opens`, `completes` and `protocolOf` know no state. The turn machine and the guard on a conversation
must say the same about each pair of messages.
-/

namespace Kamiroh

/-! ## The initiator's conversation -/

/-- One side's view of a conversation with `peer`, and the opening message of the exchange in flight. -/
structure Conversation where
  peer : Address
  inFlight : Option Message

inductive ExchangeError
  | NotAnOpening
  | AlreadyInFlight
  | NothingInFlight
  | WrongReply
deriving DecidableEq

namespace Conversation

def new (peer : Address) : Conversation := ⟨peer, none⟩

def begin (conversation : Conversation) (opening : Message) :
    Except ExchangeError Unit × Conversation :=
  if !opens opening then (.error .NotAnOpening, conversation)
  else if conversation.inFlight.isSome then (.error .AlreadyInFlight, conversation)
  else (.ok (), { conversation with inFlight := some opening })

def conclude (conversation : Conversation) (reply : Message) :
    Except ExchangeError Unit × Conversation :=
  match conversation.inFlight with
  | none => (.error .NothingInFlight, conversation)
  | some opening =>
    if !completes opening reply then (.error .WrongReply, conversation)
    else (.ok (), { conversation with inFlight := none })

theorem conclude_of_begin {conversation begun : Conversation} {opening reply : Message}
    (h : conversation.begin opening = (.ok (), begun)) (hcompletes : completes opening reply = true) :
    begun.conclude reply = (.ok (), conversation) := by
  unfold begin at h
  split at h
  · cases h
  · split at h
    · cases h
    · rename_i hnone
      cases h
      obtain ⟨peer, inFlight⟩ := conversation
      cases inFlight with
      | some opening => exact absurd rfl hnone
      | none => simp [conclude, hcompletes]

end Conversation

/-! ## The rulebook agrees with itself -/

/-- The pairs that `completes` lists, with the condition on the ids or the names. -/
inductive Completes : Message → Message → Prop
  | acked (request : Request) : Completes (.Request request) (.Ack ⟨request.id⟩)
  | pong : Completes (.Harness .Ping) (.Harness .Pong)
  | spawned (name : ActorName) : Completes (.Harness (.Spawn name)) (.Harness (.Spawned name))
  | stopped (name : ActorName) : Completes (.Harness (.Stop name)) (.Harness (.Stopped name))
  | failed {command : Harness} (reason : String) (h : opens (.Harness command) = true) :
      Completes (.Harness command) (.Harness (.Failed reason))
  | closed (request : Request) (response : Response) (h : response.id = request.id) :
      Completes (.Turn (.Open request)) (.Turn (.Close response))

theorem completes_iff (opening reply : Message) :
    completes opening reply = true ↔ Completes opening reply := by
  constructor
  · intro h
    unfold completes at h
    split at h
    · rename_i request ack
      obtain ⟨id⟩ := ack
      obtain rfl : id = request.id := of_decide_eq_true h
      exact .acked request
    · exact .pong
    · obtain rfl := of_decide_eq_true h
      exact .spawned _
    · obtain rfl := of_decide_eq_true h
      exact .stopped _
    · exact .failed _ rfl
    · exact .failed _ rfl
    · exact .failed _ rfl
    · exact .closed _ _ (of_decide_eq_true h)
    · cases h
  · rintro (request | _ | name | name | ⟨reason, h⟩ | ⟨request, response, h⟩)
    · simp [completes]
    · rfl
    · simp [completes]
    · simp [completes]
    · rename_i command
      cases command with
      | Spawn _ | Stop _ | Ping => rfl
      | Spawned _ | Stopped _ | Pong | Failed _ => cases h
    · simp [completes, h]

theorem completes_kinds {opening reply : Message} (h : completes opening reply = true) :
    opens opening = true ∧ opens reply = false ∧ protocolOf opening = protocolOf reply := by
  rcases (completes_iff ..).mp h with _ | _ | _ | _ | ⟨_, hopens⟩ | _
  · exact ⟨rfl, rfl, rfl⟩
  · exact ⟨rfl, rfl, rfl⟩
  · exact ⟨rfl, rfl, rfl⟩
  · exact ⟨rfl, rfl, rfl⟩
  · exact ⟨hopens, rfl, rfl⟩
  · exact ⟨rfl, rfl, rfl⟩

theorem completed_of_opens {opening : Message} (h : opens opening = true) :
    ∃ reply, completes opening reply = true := by
  simp only [completes_iff]
  rcases opening with request | ack | command | turn
  · exact ⟨_, .acked request⟩
  · cases h
  · exact ⟨_, .failed "" h⟩
  · cases turn with
    | Open request => exact ⟨_, .closed request ⟨request.id, []⟩ rfl⟩
    | Continue _ _ | Close _ => cases h

theorem completes_turn_iff (request : Request) (turn : Turn) :
    completes (.Turn (.Open request)) (.Turn turn) = true ↔
      ((TurnState.Idle.onOutgoing (.Open request)).2.onIncoming turn).1 = .ok .Concluded := by
  have hsent : (TurnState.Idle.onOutgoing (.Open request)).2 = .AwaitingTheirTurn request.id := rfl
  rw [hsent, TurnState.onIncoming_ok_iff, completes_iff]
  constructor
  · rintro (_ | _ | _ | _ | _ | ⟨_, response, h⟩)
    exact .closes response (by rw [h])
  · rintro (_ | _ | ⟨response, h⟩)
    injection h with h
    exact .closed request response h.symm

/-! ## Runs of a conversation -/

namespace Conversation

inductive Call
  | Begin (opening : Message)
  | Conclude (reply : Message)

def apply (conversation : Conversation) : Call → Except ExchangeError Unit × Conversation
  | .Begin opening => conversation.begin opening
  | .Conclude reply => conversation.conclude reply

def after (conversation : Conversation) (calls : List Call) : Conversation :=
  Run.after (fun conversation call => (conversation.apply call).2) conversation calls

/-- The calls that succeeded, in their order. -/
def successes (conversation : Conversation) (calls : List Call) : List Call :=
  Run.outputs (fun conversation call =>
    ((conversation.apply call).2, if (conversation.apply call).1.isOk then [call] else []))
    conversation calls

/-- Begin and conclude take turns, and each conclude answers the begin before it. What has begun
before the list is the exchange in flight. -/
def Alternate : Option Message → List Call → Prop
  | _, [] => True
  | none, .Begin opening :: rest => opens opening = true ∧ Alternate (some opening) rest
  | some opening, .Conclude reply :: rest => completes opening reply = true ∧ Alternate none rest
  | some _, .Begin _ :: _ | none, .Conclude _ :: _ => False

theorem begin_ok_iff (conversation : Conversation) (opening : Message) :
    (conversation.begin opening).1 = .ok () ↔ opens opening = true ∧ conversation.inFlight = none := by
  unfold begin
  split
  · simp_all
  · split
    · rename_i hsome
      simp only [reduceCtorEq, false_iff, not_and]
      intro _ hnone
      rw [hnone] at hsome
      cases hsome
    · simp_all

theorem conclude_ok_iff (conversation : Conversation) (reply : Message) :
    (conversation.conclude reply).1 = .ok () ↔
      ∃ opening, conversation.inFlight = some opening ∧ completes opening reply = true := by
  unfold conclude
  split
  · rename_i hnone
    simp [hnone]
  · rename_i opening hsome
    split <;> simp_all

theorem begin_inFlight {conversation : Conversation} {opening : Message}
    (h : (conversation.begin opening).1 = .ok ()) :
    (conversation.begin opening).2.inFlight = some opening := by
  obtain ⟨hopens, hnone⟩ := (begin_ok_iff ..).mp h
  simp [begin, hopens, hnone]

theorem conclude_inFlight {conversation : Conversation} {reply : Message}
    (h : (conversation.conclude reply).1 = .ok ()) : (conversation.conclude reply).2.inFlight = none := by
  obtain ⟨opening, hsome, hcompletes⟩ := (conclude_ok_iff ..).mp h
  simp [conclude, hsome, hcompletes]

theorem apply_refused {conversation : Conversation} {call : Call} {error : ExchangeError}
    (h : (conversation.apply call).1 = .error error) : (conversation.apply call).2 = conversation := by
  cases call with
  | Begin opening =>
    simp only [apply, begin] at h ⊢
    split
    · rfl
    · split
      · rfl
      · simp_all
  | Conclude reply =>
    simp only [apply, conclude] at h ⊢
    split
    · rfl
    · split
      · rfl
      · simp_all

theorem alternate_successes (conversation : Conversation) (calls : List Call) :
    Alternate conversation.inFlight (conversation.successes calls) := by
  unfold successes
  induction calls generalizing conversation with
  | nil => cases conversation.inFlight <;> trivial
  | cons call calls ih =>
    rw [Run.outputs]
    cases hresult : (conversation.apply call).1 with
    | error error =>
      -- A refused call adds no success, and the rest runs from the same conversation.
      have hsame := apply_refused hresult
      simpa [Except.isOk, Except.toBool, hsame] using ih conversation
    | ok _ =>
      simp only [Except.isOk, Except.toBool, if_true, List.singleton_append]
      cases call with
      | Begin opening =>
        obtain ⟨hopens, hnone⟩ := (begin_ok_iff ..).mp hresult
        have hrest := ih (conversation.begin opening).2
        rw [begin_inFlight hresult] at hrest
        rw [hnone]
        exact ⟨hopens, hrest⟩
      | Conclude reply =>
        obtain ⟨opening, hsome, hcompletes⟩ := (conclude_ok_iff ..).mp hresult
        have hrest := ih (conversation.conclude reply).2
        rw [conclude_inFlight hresult] at hrest
        rw [hsome]
        exact ⟨hcompletes, hrest⟩

/-- What is in flight opened the exchange. -/
def Opened (conversation : Conversation) : Prop :=
  ∀ opening, conversation.inFlight = some opening → opens opening = true

theorem Opened.apply {conversation : Conversation} (h : conversation.Opened) (call : Call) :
    (conversation.apply call).2.Opened := by
  cases hresult : (conversation.apply call).1 with
  | error error =>
    rw [apply_refused hresult]
    exact h
  | ok _ =>
    intro opening hopening
    cases call with
    | Begin begun =>
      rw [Conversation.apply, begin_inFlight hresult] at hopening
      cases hopening
      exact ((begin_ok_iff ..).mp hresult).1
    | Conclude reply =>
      rw [Conversation.apply, conclude_inFlight hresult] at hopening
      cases hopening

theorem opened_after (peer : Address) (calls : List Call) : ((new peer).after calls).Opened :=
  Run.invariant_all _ (fun _ call h => h.apply call) (new peer) calls fun _ h => by cases h

theorem Opened.succeeds {conversation : Conversation} (h : conversation.Opened) :
    ∃ call, (conversation.apply call).1 = .ok () := by
  cases hflight : conversation.inFlight with
  | none => exact ⟨.Begin (.Harness .Ping), (begin_ok_iff ..).mpr ⟨rfl, hflight⟩⟩
  | some opening =>
    obtain ⟨reply, hreply⟩ := completed_of_opens (h opening hflight)
    exact ⟨.Conclude reply, (conclude_ok_iff ..).mpr ⟨opening, hflight, hreply⟩⟩

/-- The rulebook, the turn machine and the guard agree on every pair of messages. So the successful calls
on a conversation are an alternation of openings and what completes them, in every run. -/
theorem rulebook_agrees :
    (∀ opening reply, completes opening reply = true →
      opens opening = true ∧ opens reply = false ∧ protocolOf opening = protocolOf reply) ∧
    (∀ opening, opens opening = true → ∃ reply, completes opening reply = true) ∧
    (∀ request turn, completes (.Turn (.Open request)) (.Turn turn) = true ↔
      ((TurnState.Idle.onOutgoing (.Open request)).2.onIncoming turn).1 = .ok .Concluded) ∧
    ∀ peer calls,
      Alternate none ((new peer).successes calls) ∧
      (∀ call error, (((new peer).after calls).apply call).1 = .error error →
        (((new peer).after calls).apply call).2 = (new peer).after calls) ∧
      ∃ call, (((new peer).after calls).apply call).1 = .ok () := by
  refine ⟨fun _ _ => completes_kinds, fun _ => completed_of_opens, completes_turn_iff, fun peer calls => ?_⟩
  exact ⟨alternate_successes (new peer) calls, fun _ _ => apply_refused, (opened_after peer calls).succeeds⟩

end Conversation

end Kamiroh
