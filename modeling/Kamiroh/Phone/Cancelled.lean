import Kamiroh.Phone.Waits

/-!
# Sends that are dropped

Whoever drops the future of a send while the transport is at it gets a phone whose turn machine has
moved and whose waits are those of before. Such a phone may be waiting with nothing armed.
-/

namespace Kamiroh.Phone

open TurnState

variable {N : Type}

/-- The phone after `sendTurn` was dropped at the send: neither of its two ends has run. -/
def cancelled (phone : Phone) (turn : Turn) : Phone :=
  { phone with state := (phone.state.onOutgoing turn).2 }

/-- A call that completes, or a send that is dropped. -/
inductive Act (N : Type)
  | Completed (call : Call N)
  | Cancelled (turn : Turn)

def act [Transport N] (phone : Phone) : Act N → Phone
  | .Completed call => phone.next call
  | .Cancelled turn => phone.cancelled turn

def acted [Transport N] (phone : Phone) (acts : List (Act N)) : Phone := Run.after act phone acts

/-- A phone that waits has a deadline that will fail the exchange. Any other can open, or is to move. -/
structure Recoverable (phone : Phone) : Prop where
  waiting : ∀ id, phone.state = .AwaitingTheirTurn id →
    ∃ kind due, phone.nextDue = some (kind, due) ∧
      phone.onDeadlineElapsed = (some (.DeadlineElapsed kind), phone.stopped .Failed)
  otherwise : (∀ id, phone.state ≠ .AwaitingTheirTurn id) →
    (∀ request, (phone.state.onOutgoing (.Open request)).1 = .ok .Continuing) ∨
      ∃ id, phone.state = .OweThem id

/-! ## What a dropped send leaves -/

/-- The half of `Mirrors` that dropped sends keep: nothing is armed unless it is the peer's move, and an
ack is not waited for alone. -/
structure Tidy (phone : Phone) : Prop where
  turn : phone.turnDue.isSome = true → ∃ id, phone.state = .AwaitingTheirTurn id
  ack : ∀ id due, phone.ackDue = some (id, due) →
    phone.state = .AwaitingTheirTurn id ∧ phone.turnDue.isSome = true

theorem Mirrors.tidy {phone : Phone} (h : phone.Mirrors) : phone.Tidy :=
  ⟨h.turn.mp, fun id due hdue => ⟨h.ack id due hdue, h.turn.mpr ⟨id, h.ack id due hdue⟩⟩⟩

theorem tidy_stopped (phone : Phone) (state : TurnState) : (phone.stopped state).Tidy :=
  ⟨nofun, nofun⟩

theorem Tidy.unarmed {phone : Phone} (h : phone.Tidy) (hstate : ∀ id, phone.state ≠ .AwaitingTheirTurn id) :
    phone = phone.stopped phone.state := by
  have hturn : phone.turnDue = none := by
    rw [← Option.not_isSome_iff_eq_none]
    intro hsome
    obtain ⟨id, hid⟩ := h.turn hsome
    exact hstate id hid
  have hack : phone.ackDue = none := by
    cases hdue : phone.ackDue with
    | none => rfl
    | some due => exact absurd (h.ack due.1 due.2 hdue).1 (hstate due.1)
  obtain ⟨selfAddress, peer, deadlines, state, ackDue, turnDue⟩ := phone
  cases hturn
  cases hack
  rfl

theorem Tidy.cancelled {phone : Phone} (h : phone.Tidy) {turn : Turn} {progress : TurnProgress}
    (hlegal : (phone.state.onOutgoing turn).1 = .ok progress) :
    phone.cancelled turn = phone.stopped (afterTurn .AwaitingTheirTurn turn) := by
  have hstate : ∀ id, phone.state ≠ .AwaitingTheirTurn id := by
    intro id hid
    rw [hid] at hlegal
    cases hlegal
  rw [Phone.cancelled, onOutgoing_state _ _ _ hlegal, h.unarmed hstate]
  rfl

theorem cancelled_illegal {phone : Phone} {turn : Turn} {error : TurnError}
    (h : (phone.state.onOutgoing turn).1 = .error error) : phone.cancelled turn = phone := by
  rw [cancelled, onOutgoing_refused _ _ _ h]

theorem Tidy.sent [Transport N] {phone : Phone} (h : phone.Tidy) {net : N} {now : Instant}
    {turn : Turn} {ran : Except PhoneError TurnProgress × Phone × N} (hran : Sent phone net now turn ran) :
    ran.2.1.Tidy := by
  rcases hran with _ | _ | ⟨progress, hlegal, -, -⟩
  · exact h
  · exact tidy_stopped ..
  · exact (mirrors_awaiting hlegal now).tidy

theorem Tidy.cutOff {phone : Phone} (h : phone.Tidy) (endpoint : EndpointId) (cause : FailureCause) :
    (phone.cutOff endpoint cause).2.Tidy := by
  rcases phone.cutOff_cases endpoint cause with ⟨hcut, -, -⟩ | ⟨hcut, -⟩
  · rw [hcut]
    exact tidy_stopped ..
  · rwa [hcut]

theorem Tidy.next [Transport N] {phone : Phone} (h : phone.Tidy) (c : Call N) : (phone.next c).Tidy := by
  cases c with
  | Open net now request => exact h.sent (sendTurn_sent phone net now (.Open request))
  | SendTurn net now turn => exact h.sent (sendTurn_sent phone net now turn)
  | OnIncoming turn =>
    have hheard := onIncoming_heard phone turn
    simp only [Phone.next, call]
    generalize phone.onIncoming turn = ran at hheard
    rcases hheard with _ | _
    · exact h
    · exact tidy_stopped ..
  | NoteAck ack =>
    rcases phone.noteAck_cases ack with ⟨hack, -⟩ | hack
    · simp only [Phone.next, call, hack]
      refine ⟨h.turn, ?_⟩
      rintro id due ⟨⟩
    · simpa only [Phone.next, call, hack] using h
  | OnDeadlineElapsed =>
    rcases phone.onDeadlineElapsed_cases with ⟨kind, due, -, helapsed⟩ | ⟨-, helapsed⟩
    · simp only [Phone.next, call, helapsed]
      exact tidy_stopped ..
    · simpa only [Phone.next, call, helapsed] using h
  | OnPeerDeath endpoint => exact h.cutOff endpoint .Disconnected
  | OnRevoked endpoint => exact h.cutOff endpoint .Revoked

theorem Tidy.act [Transport N] {phone : Phone} (h : phone.Tidy) (a : Act N) : (phone.act a).Tidy := by
  cases a with
  | Completed c => exact h.next c
  | Cancelled turn =>
    simp only [Phone.act]
    cases hlegal : (phone.state.onOutgoing turn).1 with
    | error error => rwa [cancelled_illegal hlegal]
    | ok progress =>
      rw [h.cancelled hlegal]
      exact tidy_stopped ..

/-! ## Which phones recover -/

theorem Mirrors.recoverable {phone : Phone} (h : phone.Mirrors) : phone.Recoverable := by
  refine ⟨fun id hid => ?_, fun hstate => ?_⟩
  · obtain ⟨⟨kind, due⟩, hdue⟩ := Option.isSome_iff_exists.mp (h.nextDue.mpr ⟨id, hid⟩)
    refine ⟨kind, due, hdue, ?_⟩
    rcases phone.onDeadlineElapsed_cases with ⟨kind', due', hdue', helapsed⟩ | ⟨hnone, -⟩
    · rw [hdue] at hdue'
      cases hdue'
      rw [helapsed, hid]
      rfl
    · rw [hdue] at hnone
      cases hnone
  · cases hs : phone.state with
    | Idle => exact Or.inl fun request => rfl
    | Failed => exact Or.inl fun request => rfl
    | OweThem id => exact Or.inr ⟨id, rfl⟩
    | AwaitingTheirTurn id => exact absurd hs (hstate id)

theorem Tidy.recoverable_iff {phone : Phone} (h : phone.Tidy) : phone.Recoverable ↔ phone.Mirrors := by
  refine ⟨fun hrecoverable => ⟨⟨h.turn, ?_⟩, fun id due hdue => (h.ack id due hdue).1⟩,
    Mirrors.recoverable⟩
  rintro ⟨id, hid⟩
  obtain ⟨kind, due, hdue, -⟩ := hrecoverable.waiting id hid
  have hsome : phone.nextDue.isSome = true := by rw [hdue]; rfl
  rcases phone.nextDue_isSome.mp hsome with hack | hturn
  · obtain ⟨⟨id', due'⟩, hack⟩ := Option.isSome_iff_exists.mp hack
    exact (h.ack id' due' hack).2
  · exact hturn

theorem recoverable_stopped (phone : Phone) (turn : Turn) :
    (phone.stopped (afterTurn .AwaitingTheirTurn turn)).Recoverable ↔ turn.request = none := by
  rw [(tidy_stopped phone _).recoverable_iff]
  constructor
  · intro hmirrors
    have hwaits := hmirrors.turn
    cases turn with
    | Close response => rfl
    | Open request | Continue response request => simp [stopped, afterTurn] at hwaits
  · intro hnone
    rw [afterTurn_of_none hnone]
    exact mirrors_stopped phone (by simp)

/-- No legal turn that poses a request is dropped half sent. -/
def Spares (phone : Phone) (a : Act N) : Prop :=
  ∀ turn progress, a = .Cancelled turn → (phone.state.onOutgoing turn).1 = .ok progress →
    turn.request = none

theorem Tidy.recoverable_act [Transport N] {phone : Phone} (h : phone.Tidy)
    (hrecoverable : phone.Recoverable) (a : Act N) : (phone.act a).Recoverable ↔ phone.Spares a := by
  cases a with
  | Completed c =>
    have hmirrors := (h.recoverable_iff.mp hrecoverable).call c
    exact ⟨fun _ => nofun, fun _ => hmirrors.recoverable⟩
  | Cancelled turn =>
    simp only [Phone.act]
    cases hlegal : (phone.state.onOutgoing turn).1 with
    | error error =>
      rw [cancelled_illegal hlegal]
      refine ⟨fun _ turn' progress hturn hok => ?_, fun _ => hrecoverable⟩
      cases hturn
      cases hlegal.symm.trans hok
    | ok progress =>
      rw [h.cancelled hlegal, recoverable_stopped]
      refine ⟨fun hnone turn' progress' hturn _ => ?_, fun hspares => hspares turn progress rfl hlegal⟩
      cases hturn
      exact hnone

theorem Started.tidy_acted [Transport N] [FanOut N] {phone : Phone} (h : Started N phone)
    (acts : List (Act N)) : (phone.acted acts).Tidy :=
  Run.invariant_all act (fun _ a hphone => hphone.act a) phone acts h.mirrors.tidy

/-- A legal turn whose send is dropped leaves a phone that can recover exactly if it poses no request, and
a run reaches no other phones exactly if no turn that poses one is dropped in it. -/
theorem cancelled_recoverable [Transport N] [FanOut N] {phone : Phone} (h : Started N phone)
    (acts : List (Act N)) :
    (∀ turn progress, ((phone.acted acts).state.onOutgoing turn).1 = .ok progress →
      (((phone.acted acts).cancelled turn).Recoverable ↔ turn.request = none)) ∧
    ((∀ start, start <+: acts → (phone.acted start).Recoverable) ↔
      Run.Along act Spares phone acts) := by
  constructor
  · intro turn progress hlegal
    rw [(h.tidy_acted acts).cancelled hlegal, recoverable_stopped]
  · exact Run.along_iff act (fun _ a hphone => hphone.act a)
      (fun _ a hphone hrecoverable => hphone.recoverable_act hrecoverable a) phone acts h.mirrors.tidy
      h.mirrors.recoverable

/-- Bob opens, and Alice drops her closing turn half sent. -/
theorem cancelled_recoverable_alice :
    (((converse Sample.alice Sample.bob Sample.patience).acted
      ([.Completed (.OnIncoming (.Open (Sample.request 1)))] : List (Act Shared))).cancelled
        (.Close ⟨(Sample.request 1).id, []⟩)).Recoverable :=
  ((cancelled_recoverable (.converse Sample.alice Sample.bob Sample.patience)
    ([.Completed (.OnIncoming (.Open (Sample.request 1)))] : List (Act Shared))).1 _ .Concluded
      (by decide)).mpr rfl

/-- Alice drops her first `open` half sent. She waits for a turn with nothing armed, and can open no other
exchange. -/
theorem cancelled_open_wedged :
    let phone := (converse Sample.alice Sample.bob Sample.patience).cancelled (.Open (Sample.request 1))
    Started Shared (converse Sample.alice Sample.bob Sample.patience) ∧
      phone.state = .AwaitingTheirTurn (Sample.request 1).id ∧ phone.nextDue = none ∧
      phone.onDeadlineElapsed = (none, phone) ∧
      (phone.state.onOutgoing (.Open (Sample.request 2))).1 = .error .NotOurMove ∧
      ¬ phone.Recoverable := by
  refine ⟨.converse .., rfl, rfl, rfl, rfl, fun h => ?_⟩
  obtain ⟨kind, due, hdue, -⟩ := h.waiting (Sample.request 1).id rfl
  cases hdue

end Kamiroh.Phone
