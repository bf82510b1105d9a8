import Kamiroh.Phone.Basic

/-!
# The waits of a phone mirror its state

Whatever is called on a phone, it waits for a turn exactly while it is the peer's move. So an elapsed
deadline always finds an exchange to fail, and leaves a phone that can open again.
-/

namespace Kamiroh.Phone

open TurnState

variable {N : Type}

/-! ## What a call can do -/

/-- Nothing is armed, and no exchange is under way. -/
def stopped (phone : Phone) (state : TurnState) : Phone :=
  { phone with state := state, ackDue := none, turnDue := none }

/-- The waits that a sent turn creates. -/
def awaiting (phone : Phone) (turn : Turn) (progress : TurnProgress) (now : Instant) : Phone :=
  { phone with
    state := afterTurn .AwaitingTheirTurn turn
    ackDue := turn.posed.map fun id => (id, now + phone.deadlines.ack)
    turnDue :=
      match progress with
      | .Continuing => some (now + phone.deadlines.turn)
      | .Concluded => none }

inductive Sent [Transport N] (phone : Phone) (net : N) (now : Instant) (turn : Turn) :
    Except PhoneError TurnProgress × Phone × N → Prop
  | illegal (error : TurnError) (h : (phone.state.onOutgoing turn).1 = .error error) :
      Sent phone net now turn (.error (.Turn error), phone, net)
  | refused (progress : TurnProgress) (h : (phone.state.onOutgoing turn).1 = .ok progress)
      (text : String) (net' : N)
      (hsend : Transport.send net phone.selfAddress phone.peer (.Turn turn) = (.error text, net')) :
      Sent phone net now turn
        (.error (.Transport text), phone.stopped (afterTurn .AwaitingTheirTurn turn).fail.2, net')
  | sent (progress : TurnProgress) (h : (phone.state.onOutgoing turn).1 = .ok progress) (net' : N)
      (hsend : Transport.send net phone.selfAddress phone.peer (.Turn turn) = (.ok (), net')) :
      Sent phone net now turn (.ok progress, phone.awaiting turn progress now, net')

theorem sendTurn_sent [Transport N] (phone : Phone) (net : N) (now : Instant) (turn : Turn) :
    Sent phone net now turn (phone.sendTurn net now turn) := by
  cases h : (phone.state.onOutgoing turn).1 with
  | error error =>
    simp only [sendTurn, h, onOutgoing_refused _ _ _ h]
    exact .illegal error h
  | ok progress =>
    simp only [sendTurn, h, onOutgoing_state _ _ _ h]
    split
    · rename_i text net' hsend
      exact .refused progress h text net' hsend
    · rename_i net' hsend
      exact .sent progress h net' hsend

inductive Heard (phone : Phone) (turn : Turn) : Except PhoneError TurnProgress × Phone → Prop
  | illegal (error : TurnError) (h : (phone.state.onIncoming turn).1 = .error error) :
      Heard phone turn (.error (.Turn error), phone)
  | legal (progress : TurnProgress) (h : (phone.state.onIncoming turn).1 = .ok progress) :
      Heard phone turn (.ok progress, phone.stopped (afterTurn .OweThem turn))

theorem onIncoming_heard (phone : Phone) (turn : Turn) : Heard phone turn (phone.onIncoming turn) := by
  cases h : (phone.state.onIncoming turn).1 with
  | error error =>
    simp only [onIncoming, h, onIncoming_refused _ _ _ h]
    exact .illegal error h
  | ok progress =>
    simp only [onIncoming, h, onIncoming_state _ _ _ h]
    exact .legal progress h

theorem noteAck_cases (phone : Phone) (ack : Ack) :
    (phone.noteAck ack = (true, { phone with ackDue := none }) ∧
      ∃ due, phone.ackDue = some (ack.id, due)) ∨ phone.noteAck ack = (false, phone) := by
  unfold noteAck
  split
  · rename_i id due hdue
    split
    · rename_i hid
      exact Or.inl ⟨rfl, due, by rw [hdue, hid]⟩
    · exact Or.inr rfl
  · exact Or.inr rfl

theorem cutOff_cases (phone : Phone) (endpoint : EndpointId) (cause : FailureCause) :
    (phone.cutOff endpoint cause = (some cause, phone.stopped .Failed) ∧
      phone.peer.endpoint = endpoint ∧ phone.state.live = true) ∨
    (phone.cutOff endpoint cause = (none, phone) ∧
      (phone.peer.endpoint = endpoint → phone.state.live = false)) := by
  obtain ⟨selfAddress, peer, deadlines, state, ackDue, turnDue⟩ := phone
  unfold cutOff
  split
  · rename_i hne
    exact Or.inr ⟨rfl, fun h => absurd h hne⟩
  · rename_i heq
    cases state
    · exact Or.inr ⟨rfl, fun _ => rfl⟩
    · exact Or.inl ⟨rfl, not_not.mp heq, rfl⟩
    · exact Or.inl ⟨rfl, not_not.mp heq, rfl⟩
    · exact Or.inr ⟨rfl, fun _ => rfl⟩

theorem nextDue_isSome (phone : Phone) :
    phone.nextDue.isSome = true ↔ phone.ackDue.isSome = true ∨ phone.turnDue.isSome = true := by
  unfold nextDue
  cases phone.ackDue <;> cases phone.turnDue <;> simp

theorem onDeadlineElapsed_cases (phone : Phone) :
    (∃ kind due, phone.nextDue = some (kind, due) ∧
      phone.onDeadlineElapsed = (some (.DeadlineElapsed kind), phone.stopped phone.state.fail.2)) ∨
    (phone.nextDue = none ∧ phone.onDeadlineElapsed = (none, phone)) := by
  unfold onDeadlineElapsed
  split
  · rename_i h
    exact Or.inr ⟨h, rfl⟩
  · rename_i kind due h
    exact Or.inl ⟨kind, due, h, rfl⟩

/-! ## Runs -/

/-- One completed call. Each finds the network and the clock as the world outside left them. -/
inductive Call (N : Type)
  | Open (net : N) (now : Instant) (request : Request)
  | SendTurn (net : N) (now : Instant) (turn : Turn)
  | OnIncoming (turn : Turn)
  | NoteAck (ack : Ack)
  | OnDeadlineElapsed
  | OnPeerDeath (endpoint : EndpointId)
  | OnRevoked (endpoint : EndpointId)

/-- What a call tells its caller. A `SendRefused` is an error of the transport, a `Refused` everything
else that is not taken. -/
inductive Verdict
  | Taken
  | Refused
  | SendRefused
deriving DecidableEq

def Verdict.ofResult {α : Type} : Except PhoneError α → Verdict
  | .ok _ => Taken
  | .error (.Turn _) => Refused
  | .error (.Transport _) => SendRefused

def Verdict.ofBool (taken : Bool) : Verdict := if taken then Taken else Refused

def call [Transport N] (phone : Phone) : Call N → Verdict × Phone
  | .Open net now request =>
    let sent := phone.openExchange net now request
    (.ofResult sent.1, sent.2.1)
  | .SendTurn net now turn =>
    let sent := phone.sendTurn net now turn
    (.ofResult sent.1, sent.2.1)
  | .OnIncoming turn => (.ofResult (phone.onIncoming turn).1, (phone.onIncoming turn).2)
  | .NoteAck ack => (.ofBool (phone.noteAck ack).1, (phone.noteAck ack).2)
  | .OnDeadlineElapsed =>
    (.ofBool phone.onDeadlineElapsed.1.isSome, phone.onDeadlineElapsed.2)
  | .OnPeerDeath endpoint =>
    (.ofBool (phone.onPeerDeath endpoint).1.isSome, (phone.onPeerDeath endpoint).2)
  | .OnRevoked endpoint => (.ofBool (phone.onRevoked endpoint).1.isSome, (phone.onRevoked endpoint).2)

def next [Transport N] (phone : Phone) (c : Call N) : Phone := (phone.call c).2

def after [Transport N] (phone : Phone) (calls : List (Call N)) : Phone := Run.after next phone calls

/-- The phones that an app can start with. -/
inductive Started (N : Type) [FanOut N] : Phone → Prop
  | converse (selfAddress peer : Address) (deadlines : Deadlines) :
      Started N (converse selfAddress peer deadlines)
  | openMany (net : N) (now : Instant) (selfAddress : Address) (endpoint : EndpointId)
      (names : List ActorName) (request : Request) (deadlines : Deadlines) (phones : List Phone)
      (h : (openMany net now selfAddress endpoint names request deadlines).1 = .ok phones)
      (phone : Phone) (hphone : phone ∈ phones) : Started N phone

/-! ## The invariant -/

structure Mirrors (phone : Phone) : Prop where
  turn : phone.turnDue.isSome = true ↔ ∃ id, phone.state = .AwaitingTheirTurn id
  ack : ∀ id due, phone.ackDue = some (id, due) → phone.state = .AwaitingTheirTurn id

theorem mirrors_stopped (phone : Phone) {state : TurnState} (h : ∀ id, state ≠ .AwaitingTheirTurn id) :
    (phone.stopped state).Mirrors := by
  refine ⟨⟨fun hsome => ?_, fun ⟨id, hid⟩ => absurd hid (h id)⟩, fun id due hdue => ?_⟩
  · cases hsome
  · cases hdue

theorem mirrors_awaiting {phone : Phone} {turn : Turn} {progress : TurnProgress}
    (h : (phone.state.onOutgoing turn).1 = .ok progress) (now : Instant) :
    (phone.awaiting turn progress now).Mirrors := by
  rcases (onOutgoing_ok_iff phone.state turn progress).mp h with ⟨r, -⟩ | ⟨a, r, -⟩ | ⟨a, -⟩
  · exact ⟨by simp [awaiting, afterTurn], by simp [awaiting, afterTurn]⟩
  · exact ⟨by simp [awaiting, afterTurn], by simp [awaiting, afterTurn]⟩
  · exact mirrors_stopped phone (by simp [afterTurn])

theorem fail_ne_awaiting (state : TurnState) (id : RequestId) : state.fail.2 ≠ .AwaitingTheirTurn id := by
  cases state <;> simp [fail]

theorem Mirrors.sent [Transport N] {phone : Phone} (h : phone.Mirrors) {net : N} {now : Instant}
    {turn : Turn} {ran : Except PhoneError TurnProgress × Phone × N} (hran : Sent phone net now turn ran) :
    ran.2.1.Mirrors := by
  rcases hran with _ | _ | ⟨progress, hlegal, -, -⟩
  · exact h
  · exact mirrors_stopped phone (fail_ne_awaiting _)
  · exact mirrors_awaiting hlegal now

theorem Mirrors.heard {phone : Phone} (h : phone.Mirrors) {turn : Turn}
    {ran : Except PhoneError TurnProgress × Phone} (hran : Heard phone turn ran) : ran.2.Mirrors := by
  rcases hran with _ | _
  · exact h
  · exact mirrors_stopped phone fun id => by cases turn <;> simp [afterTurn]

theorem Mirrors.cutOff {phone : Phone} (h : phone.Mirrors) (endpoint : EndpointId)
    (cause : FailureCause) : (phone.cutOff endpoint cause).2.Mirrors := by
  rcases phone.cutOff_cases endpoint cause with ⟨hcut, -, -⟩ | ⟨hcut, -⟩
  · rw [hcut]
    exact mirrors_stopped phone (by simp)
  · rwa [hcut]

theorem Mirrors.call [Transport N] {phone : Phone} (h : phone.Mirrors) (c : Call N) :
    (phone.call c).2.Mirrors := by
  cases c with
  | Open net now request => exact h.sent (sendTurn_sent phone net now (.Open request))
  | SendTurn net now turn => exact h.sent (sendTurn_sent phone net now turn)
  | OnIncoming turn => exact h.heard (onIncoming_heard phone turn)
  | NoteAck ack =>
    rcases phone.noteAck_cases ack with ⟨hack, -⟩ | hack
    · simp only [Phone.call, hack]
      exact ⟨h.turn, fun id due hdue => nomatch hdue⟩
    · simpa only [Phone.call, hack] using h
  | OnDeadlineElapsed =>
    rcases phone.onDeadlineElapsed_cases with ⟨kind, due, -, helapsed⟩ | ⟨-, helapsed⟩
    · simp only [Phone.call, helapsed]
      exact mirrors_stopped phone (fail_ne_awaiting _)
    · simpa only [Phone.call, helapsed] using h
  | OnPeerDeath endpoint => exact h.cutOff endpoint .Disconnected
  | OnRevoked endpoint => exact h.cutOff endpoint .Revoked

theorem fanned_eq (selfAddress peer : Address) (deadlines : Deadlines) (now : Instant)
    (request : Request) :
    fanned selfAddress peer deadlines now request =
      (converse selfAddress peer deadlines).awaiting (.Open request) .Continuing now := rfl

theorem openMany_ok [FanOut N] {net : N} {now : Instant} {selfAddress : Address}
    {endpoint : EndpointId} {names : List ActorName} {request : Request} {deadlines : Deadlines}
    {phones : List Phone}
    (h : (openMany net now selfAddress endpoint names request deadlines).1 = .ok phones) :
    phones = names.map fun name => fanned selfAddress ⟨endpoint, name⟩ deadlines now request := by
  unfold openMany at h
  split at h
  · cases h
  · cases h
    rfl

theorem Started.mirrors [FanOut N] {phone : Phone} (h : Started N phone) : phone.Mirrors := by
  rcases h with ⟨selfAddress, peer, deadlines⟩ |
    ⟨net, now, selfAddress, endpoint, names, request, deadlines, phones, h, _, hphone⟩
  · exact mirrors_stopped ⟨selfAddress, peer, deadlines, .Idle, none, none⟩ (by simp)
  · rw [openMany_ok h] at hphone
    obtain ⟨name, -, rfl⟩ := List.mem_map.mp hphone
    rw [fanned_eq]
    exact mirrors_awaiting rfl now

/-! ## What follows from it -/

theorem Mirrors.nextDue {phone : Phone} (h : phone.Mirrors) :
    phone.nextDue.isSome = true ↔ ∃ id, phone.state = .AwaitingTheirTurn id := by
  rw [nextDue_isSome, h.turn, or_iff_right_iff_imp, Option.isSome_iff_exists]
  rintro ⟨⟨id, due⟩, hdue⟩
  exact ⟨id, h.ack id due hdue⟩

theorem onDeadlineElapsed_isSome (phone : Phone) :
    phone.onDeadlineElapsed.1.isSome = phone.nextDue.isSome := by
  rcases phone.onDeadlineElapsed_cases with ⟨kind, due, hdue, helapsed⟩ | ⟨hdue, helapsed⟩ <;>
    rw [hdue, helapsed] <;> rfl

theorem Mirrors.elapsed {phone : Phone} (h : phone.Mirrors) {cause : FailureCause}
    (hcause : phone.onDeadlineElapsed.1 = some cause) :
    phone.onDeadlineElapsed.2 = phone.stopped .Failed := by
  have hdue : phone.nextDue.isSome = true := by rw [← onDeadlineElapsed_isSome, hcause]; rfl
  obtain ⟨id, hid⟩ := h.nextDue.mp hdue
  rcases phone.onDeadlineElapsed_cases with ⟨kind, due, -, helapsed⟩ | ⟨-, helapsed⟩
  · rw [helapsed, hid]
    rfl
  · rw [helapsed] at hcause
    cases hcause

@[simp] theorem ofResult_map {α β : Type} (result : Except PhoneError α) (f : α → β) :
    Verdict.ofResult (result.map f) = .ofResult result := by
  rcases result with (_ | _) | _ <;> rfl

@[simp] theorem ofBool_refused (taken : Bool) : Verdict.ofBool taken = .Refused ↔ taken = false := by
  cases taken <;> decide

@[simp] theorem ofBool_sendRefused (taken : Bool) : Verdict.ofBool taken ≠ .SendRefused := by
  cases taken <;> decide

theorem Sent.refusal [Transport N] {phone : Phone} {net : N} {now : Instant} {turn : Turn}
    {ran : Except PhoneError TurnProgress × Phone × N} (h : Sent phone net now turn ran) :
    (Verdict.ofResult ran.1 = .Refused → ran.2.1 = phone) ∧
      (Verdict.ofResult ran.1 = .SendRefused →
        ran.2.1.state.live = false ∧ ran.2.1.ackDue = none ∧ ran.2.1.turnDue = none) := by
  rcases h with _ | _ | _
  · exact ⟨fun _ => rfl, nofun⟩
  · exact ⟨nofun, fun _ => ⟨fail_not_live _, rfl, rfl⟩⟩
  · exact ⟨nofun, nofun⟩

theorem Sent.open_legal [Transport N] {phone : Phone} (hstate : phone.state.live = false) {net : N}
    {now : Instant} {request : Request} {ran : Except PhoneError TurnProgress × Phone × N}
    (h : Sent phone net now (.Open request) ran) : Verdict.ofResult ran.1 ≠ .Refused := by
  have hlegal : (phone.state.onOutgoing (.Open request)).1 = .ok .Continuing := by
    refine (onOutgoing_ok_iff ..).mpr (.opens request ?_)
    cases hs : phone.state <;> simp [hs] at hstate ⊢
  rcases h with ⟨error, herror⟩ | _ | _
  · rw [hlegal] at herror
    cases herror
  · nofun
  · nofun

theorem cutOff_refused (phone : Phone) (endpoint : EndpointId) (cause : FailureCause)
    (h : (phone.cutOff endpoint cause).1.isSome = false) :
    (phone.cutOff endpoint cause).2 = phone := by
  rcases phone.cutOff_cases endpoint cause with ⟨hcut, -, -⟩ | ⟨hcut, -⟩
  · rw [hcut] at h
    cases h
  · rw [hcut]

theorem call_refused [Transport N] (phone : Phone) (c : Call N) (h : (phone.call c).1 = .Refused) :
    (phone.call c).2 = phone := by
  cases c with
  | Open net now request =>
    exact (sendTurn_sent phone net now (.Open request)).refusal.1 (by simpa [call, openExchange] using h)
  | SendTurn net now turn => exact (sendTurn_sent phone net now turn).refusal.1 h
  | OnIncoming turn =>
    have hheard := onIncoming_heard phone turn
    simp only [call] at h ⊢
    generalize phone.onIncoming turn = ran at *
    rcases hheard with _ | _
    · rfl
    · cases h
  | NoteAck ack =>
    rcases phone.noteAck_cases ack with ⟨hack, -⟩ | hack
    · simp [call, hack] at h
    · simp only [call, hack]
  | OnDeadlineElapsed =>
    rcases phone.onDeadlineElapsed_cases with ⟨kind, due, -, helapsed⟩ | ⟨-, helapsed⟩
    · simp [call, helapsed] at h
    · simp only [call, helapsed]
  | OnPeerDeath endpoint =>
    exact phone.cutOff_refused endpoint _ ((ofBool_refused _).mp h)
  | OnRevoked endpoint => exact phone.cutOff_refused endpoint _ ((ofBool_refused _).mp h)

theorem call_sendRefused [Transport N] (phone : Phone) (c : Call N)
    (h : (phone.call c).1 = .SendRefused) :
    (phone.call c).2.state.live = false ∧ (phone.call c).2.ackDue = none ∧
      (phone.call c).2.turnDue = none := by
  cases c with
  | Open net now request =>
    exact (sendTurn_sent phone net now (.Open request)).refusal.2 (by simpa [call, openExchange] using h)
  | SendTurn net now turn => exact (sendTurn_sent phone net now turn).refusal.2 h
  | OnIncoming turn =>
    have hheard := onIncoming_heard phone turn
    simp only [call] at h
    generalize phone.onIncoming turn = ran at *
    rcases hheard with _ | _ <;> cases h
  | NoteAck ack => exact absurd h (ofBool_sendRefused _)
  | OnDeadlineElapsed => exact absurd h (ofBool_sendRefused _)
  | OnPeerDeath endpoint => exact absurd h (ofBool_sendRefused _)
  | OnRevoked endpoint => exact absurd h (ofBool_sendRefused _)

/-- Whatever was called on it, a phone waits exactly while it is the peer's move, an elapsed deadline
then fails the exchange, and a fresh `open` is not refused after that. -/
theorem never_wedged [Transport N] [FanOut N] {phone : Phone} (h : Started N phone)
    (calls : List (Call N)) :
    let reached := phone.after calls
    (reached.turnDue.isSome = true ↔ ∃ id, reached.state = .AwaitingTheirTurn id) ∧
      (∀ id due, reached.ackDue = some (id, due) → reached.state = .AwaitingTheirTurn id) ∧
      (reached.nextDue.isSome = true ↔ ∃ id, reached.state = .AwaitingTheirTurn id) ∧
      (reached.onDeadlineElapsed.1.isSome = true ↔ ∃ id, reached.state = .AwaitingTheirTurn id) ∧
      (∀ cause, reached.onDeadlineElapsed.1 = some cause →
        reached.onDeadlineElapsed.2 =
            { reached with state := .Failed, ackDue := none, turnDue := none } ∧
          ∀ (net : N) now request,
            (reached.onDeadlineElapsed.2.call (.Open net now request)).1 ≠ .Refused) ∧
      ∀ c : Call N,
        ((reached.call c).1 = .Refused → (reached.call c).2 = reached) ∧
          ((reached.call c).1 = .SendRefused →
            (reached.call c).2.state.live = false ∧ (reached.call c).2.ackDue = none ∧
              (reached.call c).2.turnDue = none) := by
  intro reached
  have hreached : reached.Mirrors :=
    Run.invariant_all next (fun _ c hphone => hphone.call c) phone calls h.mirrors
  refine ⟨hreached.turn, hreached.ack, hreached.nextDue, ?_, fun cause hcause => ?_, fun c => ?_⟩
  · rw [onDeadlineElapsed_isSome, hreached.nextDue]
  · have helapsed := hreached.elapsed hcause
    refine ⟨helapsed, fun net now request => ?_⟩
    have hdead : reached.onDeadlineElapsed.2.state.live = false := by rw [helapsed]; rfl
    simpa [call, openExchange] using (sendTurn_sent _ net now (.Open request)).open_legal hdead
  · exact ⟨reached.call_refused c, reached.call_sendRefused c⟩

/-- Alice opens towards Bob, his ack comes, and then nothing does. -/
theorem never_wedged_alice :
    let phone := converse Sample.alice Sample.bob Sample.patience
    let calls : List (Call Shared) :=
      [.Open ⟨(∅ : Assoc Address Mailbox).insert Sample.bob default, ∅, [], []⟩ 0 (Sample.request 1),
        .NoteAck ⟨(Sample.request 1).id⟩]
    (phone.after calls).nextDue = some (.Turn, 60) ∧
      (phone.after calls).onDeadlineElapsed.1 = some (.DeadlineElapsed .Turn) ∧
      (phone.after calls).onDeadlineElapsed.2.state = .Failed := by
  intro phone calls
  obtain ⟨-, -, -, -, helapsed, -⟩ :=
    never_wedged (.converse Sample.alice Sample.bob Sample.patience) calls
  have hcause : (phone.after calls).onDeadlineElapsed.1 = some (.DeadlineElapsed .Turn) := by decide
  exact ⟨by decide, hcause, by rw [(helapsed _ hcause).1]⟩

end Kamiroh.Phone
