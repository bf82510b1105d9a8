import Kamiroh.Futures
import Kamiroh.Runtime.Steps

/-!
# The race over many polls

`nextOrDeadlineOrDeath` is one poll. Here the race is a future of its own: its closure is entered again
on every wakeup, and it remembers the futures that it has pinned and whether the watch is still in the
race. Deaths, the deadline and the inbox are any three futures.
-/

namespace Kamiroh

variable {D T I : Type} [Future D (Option EndpointId)] [Future T Unit]
  [Future I (Option Delivery)]

/-- What others have done to the three futures before a wakeup, and the waker of the poll. -/
structure Woken (D T I : Type) where
  death : D → D
  deadline : T → T
  next : I → I
  waker : Waker

/-! ## `next_or_deadline` -/

structure NextOrDeadline (T I : Type) where
  deadline : Pinned T
  next : Pinned I

namespace NextOrDeadline

def new (inbox : I) (deadline : T) : NextOrDeadline T I := ⟨.new deadline, .new inbox⟩

def move (race : NextOrDeadline T I) (deadline : T → T) (next : I → I) : NextOrDeadline T I :=
  ⟨race.deadline.move deadline, race.next.move next⟩

def poll (race : NextOrDeadline T I) (waker : Waker) : Option (Poll Waited × NextOrDeadline T I) :=
  match race.deadline.poll waker with
  | none => none
  -- Deadline first: an elapsed deadline outranks a queued delivery.
  | some (.Ready (), deadline) => some (.Ready .DeadlineElapsed, { race with deadline })
  | some (.Pending, deadline) =>
    match race.next.poll waker with
    | none => none
    | some (.Ready delivery, next) => some (.Ready (.Delivery delivery), ⟨deadline, next⟩)
    | some (.Pending, next) => some (.Pending, ⟨deadline, next⟩)

/-- The cases of a poll of two futures that have not completed. -/
inductive Decided (race : NextOrDeadline T I) (waker : Waker) :
    Poll Waited × NextOrDeadline T I → Prop
  | elapsed (deadline : T) (h : Future.poll race.deadline.future waker = (.Ready (), deadline)) :
      Decided race waker (.Ready .DeadlineElapsed, ⟨⟨deadline, true⟩, race.next⟩)
  | delivered (deadline : T) (h : Future.poll race.deadline.future waker = (.Pending, deadline))
      (delivery : Option Delivery) (next : I)
      (hnext : Future.poll race.next.future waker = (.Ready delivery, next)) :
      Decided race waker (.Ready (.Delivery delivery), ⟨⟨deadline, false⟩, ⟨next, true⟩⟩)
  | pending (deadline : T) (h : Future.poll race.deadline.future waker = (.Pending, deadline))
      (next : I) (hnext : Future.poll race.next.future waker = (.Pending, next)) :
      Decided race waker (.Pending, ⟨⟨deadline, false⟩, ⟨next, false⟩⟩)

theorem poll_decided {race : NextOrDeadline T I} (hdeadline : race.deadline.completed = false)
    (hnext : race.next.completed = false) (waker : Waker) :
    ∃ polled, race.poll waker = some polled ∧ Decided race waker polled := by
  rcases hd : Future.poll race.deadline.future waker with ⟨⟨⟩ | _, deadline⟩
  · refine ⟨_, ?_, .elapsed deadline hd⟩
    simp only [poll, Pinned.poll_ready hdeadline hd]
  · rcases hn : Future.poll race.next.future waker with ⟨delivery | _, next⟩
    · refine ⟨_, ?_, .delivered deadline hd delivery next hn⟩
      simp only [poll, Pinned.poll_pending hdeadline hd, Pinned.poll_ready hnext hn]
    · refine ⟨_, ?_, .pending deadline hd next hn⟩
      simp only [poll, Pinned.poll_pending hdeadline hd, Pinned.poll_pending hnext hn]

end NextOrDeadline

/-! ## `next_or_deadline_or_death` -/

/-- An absent deadline waits forever. -/
structure NextOrDeadlineOrDeath (D T I : Type) where
  death : Pinned D
  rest : NextOrDeadline (Option T) I
  watching : Bool

namespace NextOrDeadlineOrDeath

def new (inbox : I) (deadline : Option T) (death : D) : NextOrDeadlineOrDeath D T I :=
  ⟨.new death, .new inbox deadline, true⟩

def move (race : NextOrDeadlineOrDeath D T I) (woken : Woken D T I) : NextOrDeadlineOrDeath D T I :=
  { race with
    death := race.death.move woken.death
    rest := race.rest.move (·.map woken.deadline) woken.next }

def poll (race : NextOrDeadlineOrDeath D T I) (waker : Waker) :
    Option (Poll Waited × NextOrDeadlineOrDeath D T I) :=
  if race.watching then
    match race.death.poll waker with
    | none => none
    | some (.Ready (some endpoint), death) => some (.Ready (.PeerDeath endpoint), { race with death })
    -- A watch that closes drops out of the race for good.
    | some (.Ready none, death) =>
      (race.rest.poll waker).map fun polled => (polled.1, ⟨death, polled.2, false⟩)
    | some (.Pending, death) =>
      (race.rest.poll waker).map fun polled => (polled.1, ⟨death, polled.2, true⟩)
  else (race.rest.poll waker).map fun polled => (polled.1, { race with rest := polled.2 })

def wake (race : NextOrDeadlineOrDeath D T I) (woken : Woken D T I) :
    Option (Polled (NextOrDeadlineOrDeath D T I) Waited) :=
  ((race.move woken).poll woken.waker).map fun polled => ⟨race.move woken, polled.1, polled.2⟩

end NextOrDeadlineOrDeath

/-! ## What a race decides -/

/-- What the `k`th wakeup decides if no endpoint dies then. -/
def decisionAlive (deadlines : List (Poll Unit)) (deliveries : List (Poll (Option Delivery))) (k : Nat) :
    Poll Waited :=
  match deadlines[k]? with
  | some (.Ready ()) => .Ready .DeadlineElapsed
  | _ =>
    match deliveries[k]? with
    | some (.Ready delivery) => .Ready (.Delivery delivery)
    | _ => .Pending

/-- What the `k`th wakeup decides, from what the three futures say one by one. -/
def decision (deaths : List (Poll (Option EndpointId))) (deadlines : List (Poll Unit))
    (deliveries : List (Poll (Option Delivery))) (k : Nat) : Poll Waited :=
  match deaths[k]? with
  | some (.Ready (some endpoint)) => .Ready (.PeerDeath endpoint)
  | _ => decisionAlive deadlines deliveries k

def decisions (deaths : List (Poll (Option EndpointId))) (deadlines : List (Poll Unit))
    (deliveries : List (Poll (Option Delivery))) (wakeups : Nat) : List (Poll Waited) :=
  (List.range wakeups).map (decision deaths deadlines deliveries)

theorem decisions_succ (deaths : List (Poll (Option EndpointId))) (deadlines : List (Poll Unit))
    (deliveries : List (Poll (Option Delivery))) (wakeups : Nat) :
    decisions deaths deadlines deliveries (wakeups + 1) =
      decision deaths deadlines deliveries 0 ::
        decisions deaths.tail deadlines.tail deliveries.tail wakeups := by
  simp only [decisions, List.range_succ_eq_map, List.map_cons, List.map_map]
  congr 2
  funext k
  simp [decision, decisionAlive]

def Poll.delivery : Poll Waited → List Delivery
  | .Ready (.Delivery (some delivery)) => [delivery]
  | _ => []

def Poll.death : Poll Waited → List EndpointId
  | .Ready (.PeerDeath endpoint) => [endpoint]
  | _ => []

namespace Woken

def toDeath (woken : Woken D T I) : Wakeup D := ⟨woken.death, woken.waker⟩

def toDeadline (woken : Woken D T I) : Wakeup (Option T) := ⟨(·.map woken.deadline), woken.waker⟩

def toNext (woken : Woken D T I) : Wakeup I := ⟨woken.next, woken.waker⟩

end Woken

omit [Future D (Option EndpointId)] in
theorem NextOrDeadline.Decided.expected {race : NextOrDeadline (Option T) I} {woken : Woken D T I}
    {polled : Poll Waited × NextOrDeadline (Option T) I}
    (h : Decided (race.move (·.map woken.deadline) woken.next) woken.waker polled)
    {deaths : List (Poll (Option EndpointId))}
    (hdeaths : ∀ endpoint, deaths[0]? ≠ some (.Ready (some endpoint)))
    (schedule : List (Woken D T I)) :
    untilReady (decisions deaths
      (answers race.deadline.future ((woken :: schedule).map (·.toDeadline)))
      (answers race.next.future ((woken :: schedule).map (·.toNext))) (schedule.length + 1)) =
    match polled.1 with
    | .Ready value => [.Ready value]
    | .Pending => .Pending :: untilReady (decisions deaths.tail
        (answers polled.2.deadline.future (schedule.map (·.toDeadline)))
        (answers polled.2.next.future (schedule.map (·.toNext))) schedule.length) := by
  have hfirst (deadlines : List (Poll Unit)) (deliveries : List (Poll (Option Delivery))) :
      decision deaths deadlines deliveries 0 = decisionAlive deadlines deliveries 0 := by
    simp only [decision]
  rw [decisions_succ, hfirst, List.map_cons, List.map_cons]
  cases h with
  | elapsed deadline h =>
    rw [answers_ready woken.toDeadline h]
    simp [decisionAlive, untilReady]
  | delivered deadline h delivery next hnext =>
    rw [answers_pending woken.toDeadline h, answers_ready woken.toNext hnext]
    simp [decisionAlive, untilReady]
  | pending deadline h next hnext =>
    rw [answers_pending woken.toDeadline h,
      answers_pending woken.toNext hnext]
    simp [decisionAlive, untilReady]

namespace NextOrDeadlineOrDeath

/-- The polls that are left to a race are all of futures that have not completed. -/
structure Open (race : NextOrDeadlineOrDeath D T I) : Prop where
  death : race.watching = true → race.death.completed = false
  deadline : race.rest.deadline.completed = false
  next : race.rest.next.completed = false

def deaths (race : NextOrDeadlineOrDeath D T I) (schedule : List (Woken D T I)) :
    List (Poll (Option EndpointId)) :=
  if race.watching then answers race.death.future (schedule.map (·.toDeath)) else []

/-- What the rest of a race says, from the answers of its futures. -/
def expected (race : NextOrDeadlineOrDeath D T I) (schedule : List (Woken D T I)) :
    List (Poll Waited) :=
  untilReady (decisions (race.deaths schedule)
    (answers race.rest.deadline.future (schedule.map (·.toDeadline)))
    (answers race.rest.next.future (schedule.map (·.toNext))) schedule.length)

/-- A poll takes out of the queues what it returns, and nothing else. -/
def Conserves [Draws D EndpointId] [Draws I Delivery]
    (polled : Polled (NextOrDeadlineOrDeath D T I) Waited) : Prop :=
  Draws.waiting polled.before.rest.next.future =
      polled.said.delivery ++ Draws.waiting polled.after.rest.next.future ∧
    Draws.waiting polled.before.death.future =
      polled.said.death ++ Draws.waiting polled.after.death.future

/-- A race without a deadline has none to elapse, and gets none. -/
def Unarmed (polled : Polled (NextOrDeadlineOrDeath D T I) Waited) : Prop :=
  polled.before.rest.deadline.future = none →
    polled.said ≠ .Ready .DeadlineElapsed ∧ polled.after.rest.deadline.future = none

end NextOrDeadlineOrDeath

theorem NextOrDeadline.Decided.unarmed {race : NextOrDeadline (Option T) I} {waker : Waker}
    {polled : Poll Waited × NextOrDeadline (Option T) I} (h : Decided race waker polled)
    (hnone : race.deadline.future = none) :
    polled.1 ≠ .Ready .DeadlineElapsed ∧ polled.2.deadline.future = none := by
  cases h with
  | elapsed deadline h =>
    rw [hnone] at h
    cases h
  | delivered deadline h delivery next hnext =>
    rw [hnone] at h
    cases h
    exact ⟨by simp, rfl⟩
  | pending deadline h next hnext =>
    rw [hnone] at h
    cases h
    exact ⟨by simp, rfl⟩

theorem NextOrDeadline.Decided.conserves [Draws I Delivery] {race : NextOrDeadline T I}
    {waker : Waker} {polled : Poll Waited × NextOrDeadline T I} (h : Decided race waker polled) :
    Draws.waiting race.next.future = polled.1.delivery ++ Draws.waiting polled.2.next.future ∧
      polled.1.death = [] := by
  cases h with
  | elapsed deadline h => exact ⟨rfl, rfl⟩
  | delivered deadline h delivery next hnext =>
    refine ⟨?_, rfl⟩
    rw [Draws.waiting_poll race.next.future waker, hnext]
    cases delivery <;> rfl
  | pending deadline h next hnext =>
    refine ⟨?_, rfl⟩
    rw [Draws.waiting_poll race.next.future waker, hnext]
    rfl

namespace NextOrDeadlineOrDeath

variable [Draws D EndpointId] [Draws I Delivery]

/-- What a wakeup comes to: the end of the race as it is expected, or a race whose end is expected as
before. -/
def Expected (race : NextOrDeadlineOrDeath D T I) (woken : Woken D T I)
    (polled : Polled (NextOrDeadlineOrDeath D T I) Waited) : Prop :=
  (∃ value, polled.said = .Ready value ∧
      ∀ schedule, race.expected (woken :: schedule) = [.Ready value]) ∨
    polled.said = .Pending ∧ polled.after.Open ∧
      ∀ schedule, race.expected (woken :: schedule) = .Pending :: polled.after.expected schedule

theorem wake_of_alive {race : NextOrDeadlineOrDeath D T I} {woken : Woken D T I}
    {polled : Poll Waited × NextOrDeadline (Option T) I}
    (hdecided : NextOrDeadline.Decided (race.move woken).rest woken.waker polled)
    (death : Pinned D) (watching : Bool)
    (hpoll : (race.move woken).poll woken.waker = some (polled.1, ⟨death, polled.2, watching⟩))
    (hwaiting : Draws.waiting (woken.death race.death.future) = Draws.waiting death.future)
    (hdeath : watching = true → death.completed = false)
    (hfirst : ∀ schedule endpoint, (race.deaths (woken :: schedule))[0]? ≠ some (.Ready (some endpoint)))
    (htail : ∀ schedule, (race.deaths (woken :: schedule)).tail =
      (⟨death, polled.2, watching⟩ : NextOrDeadlineOrDeath D T I).deaths schedule) :
    ∃ polled, race.wake woken = some polled ∧ (Conserves polled ∧ Unarmed polled) ∧
      Expected race woken polled := by
  refine ⟨⟨race.move woken, polled.1, ⟨death, polled.2, watching⟩⟩,
    by simp only [wake, hpoll, Option.map_some], ?_, ?_⟩
  · obtain ⟨hnext, hnone⟩ := hdecided.conserves
    exact ⟨⟨hnext, by rw [hnone]; exact hwaiting⟩, hdecided.unarmed⟩
  · have hexpected (schedule : List (Woken D T I)) := hdecided.expected (hfirst schedule) schedule
    simp only [htail] at hexpected
    unfold Expected
    cases hdecided with
    | elapsed deadline h => exact Or.inl ⟨_, rfl, hexpected⟩
    | delivered deadline h delivery next hnext => exact Or.inl ⟨_, rfl, hexpected⟩
    | pending deadline h next hnext => exact Or.inr ⟨rfl, ⟨hdeath, rfl, rfl⟩, hexpected⟩

theorem wake_spec (race : NextOrDeadlineOrDeath D T I) (woken : Woken D T I) (hopen : race.Open) :
    ∃ polled, race.wake woken = some polled ∧ (Conserves polled ∧ Unarmed polled) ∧
      Expected race woken polled := by
  have hdeadline : (race.move woken).rest.deadline.completed = false := hopen.deadline
  obtain ⟨rest, hpolled, hdecided⟩ :=
    NextOrDeadline.poll_decided hdeadline hopen.next woken.waker
  cases hwatching : race.watching with
  | false =>
    refine wake_of_alive hdecided (race.death.move woken.death) false ?_ rfl nofun ?_ ?_
    · simp [poll, move, hwatching, ← hpolled]
    · simp [deaths, hwatching]
    · simp [deaths, hwatching]
  | true =>
    have hdeath : (race.move woken).death.completed = false := hopen.death hwatching
    have hwaiting := Draws.waiting_poll (woken.death race.death.future) woken.waker
    have hpoll : (race.move woken).poll woken.waker = _ := if_pos hwatching
    rcases hsaid : Future.poll (woken.death race.death.future) woken.waker with
      ⟨(_ | endpoint) | _, death⟩
    · rw [hsaid] at hwaiting
      rw [Pinned.poll_ready hdeath hsaid, hpolled] at hpoll
      refine wake_of_alive hdecided ⟨death, true⟩ false hpoll hwaiting nofun ?_ ?_
      · simp [deaths, hwatching, answers_ready woken.toDeath hsaid]
      · simp [deaths, hwatching, answers_ready woken.toDeath hsaid]
    · rw [hsaid] at hwaiting
      rw [Pinned.poll_ready hdeath hsaid] at hpoll
      refine ⟨⟨race.move woken, .Ready (.PeerDeath endpoint),
        ⟨⟨death, true⟩, (race.move woken).rest, (race.move woken).watching⟩⟩,
        by simp only [wake, hpoll, Option.map_some], ⟨⟨rfl, hwaiting⟩, fun hnone => ⟨by simp, hnone⟩⟩,
        Or.inl ⟨.PeerDeath endpoint, rfl, fun schedule => ?_⟩⟩
      simp [expected, deaths, hwatching, answers_ready woken.toDeath hsaid, decisions_succ, decision,
        untilReady]
    · rw [hsaid] at hwaiting
      rw [Pinned.poll_pending hdeath hsaid, hpolled] at hpoll
      refine wake_of_alive hdecided ⟨death, false⟩ true hpoll hwaiting (fun _ => rfl) ?_ ?_
      · simp [deaths, hwatching, answers_pending woken.toDeath hsaid]
      · simp [deaths, hwatching, answers_pending woken.toDeath hsaid]

/-- No future of a race is polled after it has completed, each poll conserves the queues, and the answers
of the race are its decisions up to the first that is ready. -/
theorem polls_new (inbox : I) (deadline : Option T) (death : D) (schedule : List (Woken D T I)) :
    ∃ log, polls wake (new inbox deadline death) schedule = some log ∧
      log.map (·.said) = untilReady (decisions (answers death (schedule.map (·.toDeath)))
        (answers deadline (schedule.map (·.toDeadline))) (answers inbox (schedule.map (·.toNext)))
        schedule.length) ∧
      ∀ polled ∈ log, Conserves polled ∧ Unarmed polled :=
  polls_spec (fun _ => rfl) wake_spec (new inbox deadline death) schedule ⟨fun _ => rfl, rfl, rfl⟩

theorem wake_unarmed (race : NextOrDeadlineOrDeath D T I) (woken : Woken D T I)
    (h : race.Open ∧ race.rest.deadline.future = none) :
    ∃ polled, race.wake woken = some polled ∧ polled.said ≠ .Ready .DeadlineElapsed ∧
      (polled.said = .Pending → polled.after.Open ∧ polled.after.rest.deadline.future = none) := by
  obtain ⟨polled, hpolled, ⟨-, hunarmed⟩, hexpected⟩ := race.wake_spec woken h.1
  have hbefore : polled.before = race.move woken := by
    obtain ⟨-, -, rfl⟩ := Option.map_eq_some_iff.mp hpolled
    rfl
  obtain ⟨hsaid, hnone⟩ := hunarmed (by rw [hbefore]; simp [move, NextOrDeadline.move, Pinned.move, h.2])
  refine ⟨polled, hpolled, hsaid, fun hpending => ⟨?_, hnone⟩⟩
  rcases hexpected with ⟨value, hready, -⟩ | ⟨-, hopen, -⟩
  · rw [hready] at hpending
    cases hpending
  · exact hopen

end NextOrDeadlineOrDeath

/-! ## The wait of a step -/

/-- What `step` awaits: the race, or with no watch set the inbox, with or without a deadline. -/
inductive StepWait (D T I : Type)
  | raced (race : NextOrDeadlineOrDeath D T I)
  | timed (race : NextOrDeadline T I)
  | alone (next : Pinned I)

namespace StepWait

def new (inbox : I) (sleep : Option T) (death : Option D) : StepWait D T I :=
  match death with
  | some death => .raced (.new inbox sleep death)
  | none =>
    match sleep with
    | some sleep => .timed (.new inbox sleep)
    | none => .alone (.new inbox)

def move (woken : Woken D T I) : StepWait D T I → StepWait D T I
  | .raced race => .raced (race.move woken)
  | .timed race => .timed (race.move woken.deadline woken.next)
  | .alone next => .alone (next.move woken.next)

def poll (waker : Waker) : StepWait D T I → Option (Poll Waited × StepWait D T I)
  | .raced race => (race.poll waker).map (Prod.map id .raced)
  | .timed race => (race.poll waker).map (Prod.map id .timed)
  | .alone next =>
    (next.poll waker).map fun
      | (.Ready delivery, next) => (.Ready (.Delivery delivery), .alone next)
      | (.Pending, next) => (.Pending, .alone next)

def wake (wait : StepWait D T I) (woken : Woken D T I) : Option (Polled (StepWait D T I) Waited) :=
  ((wait.move woken).poll woken.waker).map fun polled => ⟨wait.move woken, polled.1, polled.2⟩

/-- A wait that has not ended and has no deadline to elapse. -/
def Unarmed : StepWait D T I → Prop
  | .raced race => race.Open ∧ race.rest.deadline.future = none
  | .timed _ => False
  | .alone next => next.completed = false

theorem wake_unarmed [Draws D EndpointId] [Draws I Delivery] (wait : StepWait D T I)
    (woken : Woken D T I) (h : wait.Unarmed) :
    ∃ polled, wait.wake woken = some polled ∧ polled.said ≠ .Ready .DeadlineElapsed ∧
      (polled.said = .Pending → polled.after.Unarmed) := by
  cases wait with
  | raced race =>
    obtain ⟨polled, hpolled, hsaid, hafter⟩ := race.wake_unarmed woken h
    obtain ⟨raced, hraced, rfl⟩ := Option.map_eq_some_iff.mp hpolled
    refine ⟨⟨.raced (race.move woken), raced.1, .raced raced.2⟩, ?_, hsaid, hafter⟩
    simp [wake, move, poll, hraced]
  | timed race => exact h.elim
  | alone next =>
    have hopen : (next.move woken.next).completed = false := h
    rcases hnext : Future.poll (next.move woken.next).future woken.waker with ⟨delivery | _, next'⟩
    · refine ⟨⟨.alone (next.move woken.next), .Ready (.Delivery delivery), .alone ⟨next', true⟩⟩, ?_,
        by simp, by simp⟩
      simp [wake, move, poll, Pinned.poll_ready hopen hnext]
    · refine ⟨⟨.alone (next.move woken.next), .Pending, .alone ⟨next', false⟩⟩, ?_, by simp,
        fun _ => rfl⟩
      simp [wake, move, poll, Pinned.poll_pending hopen hnext]

omit [Future D (Option EndpointId)] [Future T Unit] [Future I (Option Delivery)] in
theorem new_unarmed (inbox : I) (death : Option D) :
    (new inbox none death : StepWait D T I).Unarmed := by
  cases death with
  | none => rfl
  | some death => exact ⟨⟨fun _ => rfl, rfl, rfl⟩, rfl⟩

end StepWait

theorem LocalRuntime.step_panicked {P N Ib : Type} [Party P] [Transport N] [Registry N Ib]
    {rt : LocalRuntime P N Ib} {name : ActorName} {actor : LocalActor P Ib}
    (hactor : rt.actors name = some actor) {waited : Waited} {message : String}
    (h : (rt.step name waited).result = .Panicked message) :
    waited = .DeadlineElapsed ∧ actor.earliestDue = none := by
  have hdid := step_did hactor waited
  generalize rt.step name waited = ran at h hdid
  cases hdid with
  | unarmed hquiet hdue => exact ⟨rfl, hdue⟩
  | swept | died | elapsed | closed => cases h
  | delivered hquiet delivery ran hran => cases hran <;> cases h

/-! ## The futures of the memory adapter -/

structure NextDelivery where
  mailbox : Option Mailbox

structure NextDeath where
  watcher : Option DeathQueue

structure SleepUntil where
  deadline : Instant
  now : Instant

instance : Future NextDelivery (Option Delivery) where
  poll
    | ⟨none⟩, _ => (.Ready none, ⟨none⟩)
    | ⟨some ⟨delivery :: queue, waker⟩⟩, _ => (.Ready (some delivery), ⟨some ⟨queue, waker⟩⟩)
    | ⟨some ⟨[], _⟩⟩, waker => (.Pending, ⟨some ⟨[], some waker⟩⟩)

instance : Future NextDeath (Option EndpointId) where
  poll
    | ⟨none⟩, _ => (.Pending, ⟨none⟩)
    | ⟨some ⟨endpoint :: queue, waker⟩⟩, _ => (.Ready (some endpoint), ⟨some ⟨queue, waker⟩⟩)
    | ⟨some ⟨[], _⟩⟩, waker => (.Pending, ⟨some ⟨[], some waker⟩⟩)

instance : Future SleepUntil Unit where
  poll sleep _ := (if sleep.deadline ≤ sleep.now then .Ready () else .Pending, sleep)

instance : Draws NextDelivery Delivery where
  waiting next := next.mailbox.elim [] (·.queue)
  waiting_poll := by
    rintro ⟨_ | ⟨_ | _, _⟩⟩ waker <;> rfl

instance : Draws NextDeath EndpointId where
  waiting next := next.watcher.elim [] (·.queue)
  waiting_poll := by
    rintro ⟨_ | ⟨_ | _, _⟩⟩ waker <;> rfl

namespace Shared

def nextDelivery (net : Shared) (inbox : MemoryInbox) : NextDelivery :=
  ⟨net.mailboxes.lookup inbox.address⟩

def nextDeath (net : Shared) (watch : WatchId) : NextDeath := ⟨net.deathWatchers[watch]?⟩

theorem pollNext_future (net : Shared) (inbox : MemoryInbox) (waker : Waker) :
    Future.poll (net.nextDelivery inbox) waker =
      ((net.pollNext inbox waker).1, (net.pollNext inbox waker).2.nextDelivery inbox) := by
  unfold pollNext nextDelivery
  rcases hmailbox : net.mailboxes.lookup inbox.address with _ | ⟨_ | ⟨delivery, queue⟩, registered⟩
  · simp [hmailbox, Future.poll]
  · simp [Future.poll]
  · simp [Future.poll]

theorem pollDeath_future (net : Shared) (watch : WatchId) (waker : Waker) :
    Future.poll (net.nextDeath watch) waker =
      ((net.pollDeath watch waker).1, (net.pollDeath watch waker).2.nextDeath watch) := by
  unfold pollDeath nextDeath
  rcases hwatcher : net.deathWatchers[watch]? with _ | ⟨_ | ⟨endpoint, queue⟩, registered⟩
  · simp [hwatcher, Future.poll]
  · have hlt := (List.getElem?_eq_some_iff.mp hwatcher).1
    simp [hlt, Future.poll]
  · have hlt := (List.getElem?_eq_some_iff.mp hwatcher).1
    simp [hlt, Future.poll]

theorem nextDelivery_poll (net : Shared) (inbox : MemoryInbox) (waker : Waker) :
    (∃ delivery net', net.pollNext inbox waker = (.Ready delivery, net') ∧
      (Pinned.new (net.nextDelivery inbox)).poll waker =
        some (.Ready delivery, ⟨net'.nextDelivery inbox, true⟩)) ∨
    ∃ net', net.pollNext inbox waker = (.Pending, net') ∧
      (Pinned.new (net.nextDelivery inbox)).poll waker =
        some (.Pending, .new (net'.nextDelivery inbox)) := by
  have hnext := net.pollNext_future inbox waker
  rcases hpolled : net.pollNext inbox waker with ⟨delivery | _, net'⟩
  · rw [hpolled] at hnext
    exact Or.inl ⟨delivery, net', rfl, Pinned.poll_ready rfl hnext⟩
  · rw [hpolled] at hnext
    exact Or.inr ⟨net', rfl, Pinned.poll_pending rfl hnext⟩

theorem sleepUntil_poll (due : Option Instant) (now : Instant) (waker : Waker) :
    Future.poll (due.map fun due => (⟨due, now⟩ : SleepUntil)) waker =
      (if due.any (· ≤ now) then .Ready () else .Pending, due.map (⟨·, now⟩)) := by
  cases due <;> simp [Future.poll]

theorem nextOrDeadline_future {T : Type} [Future T Unit] (net : Shared) (inbox : MemoryInbox)
    (due : Option Instant) (now : Instant) (waker : Waker) (deadline : T)
    (h : Future.poll deadline waker =
      (if due.any (· ≤ now) then .Ready () else .Pending, deadline)) :
    ∃ race, (NextOrDeadline.new (net.nextDelivery inbox) deadline).poll waker =
        some ((nextOrDeadline net inbox due now waker).1, race) ∧
      ((nextOrDeadline net inbox due now waker).1 = .Pending →
        race = .new ((nextOrDeadline net inbox due now waker).2.nextDelivery inbox) deadline) := by
  unfold nextOrDeadline
  split at h
  · rename_i hdue
    have hdeadline : (Pinned.new deadline).poll waker = some (.Ready (), ⟨deadline, true⟩) :=
      Pinned.poll_ready rfl h
    rw [if_pos hdue]
    exact ⟨⟨⟨deadline, true⟩, .new (net.nextDelivery inbox)⟩,
      by simp only [NextOrDeadline.poll, NextOrDeadline.new, hdeadline], by simp⟩
  · rename_i hdue
    have hdeadline : (Pinned.new deadline).poll waker = some (.Pending, .new deadline) :=
      Pinned.poll_pending rfl h
    rw [if_neg hdue]
    simp only [Inbox.next]
    rcases net.nextDelivery_poll inbox waker with
      ⟨delivery, net', hpolled, hinbox⟩ | ⟨net', hpolled, hinbox⟩
    · rw [hpolled]
      exact ⟨⟨.new deadline, ⟨net'.nextDelivery inbox, true⟩⟩,
        by simp only [NextOrDeadline.poll, NextOrDeadline.new, hdeadline, hinbox], by simp⟩
    · rw [hpolled]
      exact ⟨.new (net'.nextDelivery inbox) deadline,
        by simp only [NextOrDeadline.poll, NextOrDeadline.new, hdeadline, hinbox], fun _ => rfl⟩

theorem nextOrDeadline_nextDeath (net : Shared) (inbox : MemoryInbox) (due : Option Instant)
    (now : Instant) (watch : WatchId) (waker : Waker) :
    (nextOrDeadline net inbox due now waker).2.nextDeath watch = net.nextDeath watch := by
  have hsame : (Inbox.next net inbox waker).2.deathWatchers = net.deathWatchers :=
    net.pollNext_deathWatchers inbox waker
  unfold nextOrDeadline nextDeath
  split
  · rfl
  · split
    · rename_i hpolled
      rw [hpolled] at hsame
      rw [hsame]
    · rename_i hpolled
      rw [hpolled] at hsame
      rw [hsame]

/-- The wait of a step in the in-process network. -/
def stepWait (net : Shared) (inbox : MemoryInbox) (due : Option Instant) (now : Instant)
    (watch : Option WatchId) : StepWait NextDeath SleepUntil NextDelivery :=
  .new (net.nextDelivery inbox) (due.map (⟨·, now⟩)) (watch.map net.nextDeath)

/-- A poll of the wait is the poll of the race that the runtime makes, and a wait that is pending is the
wait that the next poll of the runtime begins with. -/
theorem stepWait_poll (net : Shared) (inbox : MemoryInbox) (due : Option Instant) (now : Instant)
    (watch : Option WatchId) (waker : Waker) :
    ∃ wait, (net.stepWait inbox due now watch).poll waker =
        some ((nextOrDeadlineOrDeath net inbox due now watch waker).1, wait) ∧
      ((nextOrDeadlineOrDeath net inbox due now watch waker).1 = .Pending →
        wait = (nextOrDeadlineOrDeath net inbox due now watch waker).2.1.stepWait inbox due now watch) := by
  cases watch with
  | none =>
    simp only [nextOrDeadlineOrDeath, stepWait, Option.map_none, StepWait.new]
    cases due with
    | some due =>
      obtain ⟨race, hpoll, hpending⟩ := net.nextOrDeadline_future inbox (some due) now waker
        (⟨due, now⟩ : SleepUntil) (by simp [Future.poll])
      refine ⟨.timed race, by simp [StepWait.poll, hpoll], fun h => ?_⟩
      rw [hpending h]
      rfl
    | none =>
      simp only [nextOrDeadline, Option.any_none, Bool.false_eq_true, if_false, Inbox.next,
        Option.map_none]
      rcases net.nextDelivery_poll inbox waker with
        ⟨delivery, net', hpolled, hinbox⟩ | ⟨net', hpolled, hinbox⟩
      · rw [hpolled]
        exact ⟨.alone ⟨net'.nextDelivery inbox, true⟩,
          by simp only [StepWait.poll, hinbox, Option.map_some], by simp⟩
      · rw [hpolled]
        exact ⟨.alone (.new (net'.nextDelivery inbox)),
          by simp only [StepWait.poll, hinbox, Option.map_some], fun _ => rfl⟩
  | some watch =>
    have hdeath := net.pollDeath_future watch waker
    simp only [nextOrDeadlineOrDeath, stepWait, Option.map_some, StepWait.new, DeathWatch.nextDeath]
    rcases hpolled : net.pollDeath watch waker with ⟨(_ | endpoint) | _, net'⟩
    · rcases net.pollDeath_cases watch waker with ⟨endpoint, hready, -⟩ | ⟨hpending, -, -⟩ <;>
        simp_all
    · rw [hpolled] at hdeath
      have hwatch : (Pinned.new (net.nextDeath watch)).poll waker =
          some (.Ready (some endpoint), ⟨net'.nextDeath watch, true⟩) := Pinned.poll_ready rfl hdeath
      refine ⟨.raced ⟨⟨net'.nextDeath watch, true⟩,
        .new (net.nextDelivery inbox) (due.map fun due => ⟨due, now⟩), true⟩, ?_, by simp⟩
      simp only [StepWait.poll, NextOrDeadlineOrDeath.poll, NextOrDeadlineOrDeath.new, if_true, hwatch,
        Option.map_some, Prod.map_apply, id_eq]
    · rw [hpolled] at hdeath
      have hwatch : (Pinned.new (net.nextDeath watch)).poll waker =
          some (.Pending, .new (net'.nextDeath watch)) := Pinned.poll_pending rfl hdeath
      have hinbox : net'.nextDelivery inbox = net.nextDelivery inbox := by
        have hmailboxes : (net.pollDeath watch waker).2.mailboxes = net.mailboxes :=
          net.pollDeath_mailboxes watch waker
        rw [hpolled] at hmailboxes
        simp only [nextDelivery]
        rw [← hmailboxes]
      obtain ⟨race, hpoll, hpending⟩ := net'.nextOrDeadline_future inbox due now waker
        (due.map fun due => (⟨due, now⟩ : SleepUntil)) (sleepUntil_poll due now waker)
      rw [hinbox] at hpoll
      refine ⟨.raced ⟨.new (net'.nextDeath watch), race, true⟩, ?_, fun h => ?_⟩
      · simp only [StepWait.poll, NextOrDeadlineOrDeath.poll, NextOrDeadlineOrDeath.new, if_true, hwatch,
          hpoll, Option.map_some, Prod.map_apply, id_eq]
      · rw [hpending h, ← nextOrDeadline_nextDeath net' inbox due now watch waker]
        rfl

end Shared

/-! ## Nothing is lost -/

open NextOrDeadlineOrDeath in
theorem race_loses_nothing [Draws D EndpointId] [Draws I Delivery] {P N Ib : Type} [Party P]
    [Transport N] [Registry N Ib] (inbox : I) (deadline : Option T) (death : D)
    (schedule : List (Woken D T I)) :
    (∃ log, polls wake (new inbox deadline death) schedule = some log ∧
      log.map (·.said) = untilReady (decisions (answers death (schedule.map (·.toDeath)))
        (answers deadline (schedule.map (·.toDeadline))) (answers inbox (schedule.map (·.toNext)))
        schedule.length) ∧
      (∀ polled ∈ log, Conserves polled) ∧
      (deadline = none → ∀ polled ∈ log, polled.said ≠ .Ready .DeadlineElapsed)) ∧
    ∀ (rt : LocalRuntime P N Ib) (name : ActorName) (actor : LocalActor P Ib),
      rt.actors name = some actor → ∀ (sleepUntil : Instant → T) (watch : Option D) log,
      polls StepWait.wake (.new inbox (actor.earliestDue.map fun due => sleepUntil due.2.2) watch)
        schedule = some log →
      ∀ polled ∈ log, ∀ waited, polled.said = .Ready waited →
      ∀ message, (rt.step name waited).result ≠ .Panicked message := by
  constructor
  · obtain ⟨log, hlog, hsaid, hall⟩ := polls_new inbox deadline death schedule
    refine ⟨log, hlog, hsaid, fun polled hpolled => (hall polled hpolled).1, ?_⟩
    rintro rfl
    have hrun : ∃ log, polls wake (new inbox (none : Option T) death) schedule = some log ∧
        ∀ polled ∈ log, polled.said ≠ .Ready .DeadlineElapsed :=
      polls_ok (I := fun race => race.Open ∧ race.rest.deadline.future = none) wake_unarmed _ schedule
        ⟨⟨fun _ => rfl, rfl, rfl⟩, rfl⟩
    obtain ⟨log', hlog', hnever⟩ := hrun
    rw [hlog, Option.some.injEq] at hlog'
    subst hlog'
    exact hnever
  · intro rt name actor hactor sleepUntil watch log hlog polled hpolled waited hwaited message hpanicked
    obtain ⟨rfl, hdue⟩ := LocalRuntime.step_panicked hactor hpanicked
    rw [hdue, Option.map_none] at hlog
    have hrun : ∃ log, polls StepWait.wake (StepWait.new inbox (none : Option T) watch) schedule = some log ∧
        ∀ polled ∈ log, polled.said ≠ .Ready .DeadlineElapsed :=
      polls_ok StepWait.wake_unarmed _ schedule (StepWait.new_unarmed inbox watch)
    obtain ⟨log', hlog', hnever⟩ := hrun
    rw [hlog, Option.some.injEq] at hlog'
    subst hlog'
    exact hnever polled hpolled hwaited

namespace Sample

/-- A watch that is closed from the start. -/
inductive ClosedWatch
  | closed

instance : Future ClosedWatch (Option EndpointId) := ⟨fun watch _ => (.Ready none, watch)⟩

instance : Draws ClosedWatch EndpointId := ⟨fun _ => [], fun _ _ => rfl⟩

def pinged : Delivery := ⟨alice, bob, .Request (request 1)⟩

/-- Nothing is queued at the first wakeup, and a delivery arrives before the second. -/
def parked : List (Woken ClosedWatch SleepUntil NextDelivery) :=
  [⟨id, id, id, 0⟩, ⟨id, id, fun _ => ⟨some ⟨[pinged], none⟩⟩, 0⟩]

end Sample

theorem race_loses_nothing_closed :
    ∃ log, polls NextOrDeadlineOrDeath.wake (.new ⟨some default⟩ none .closed) Sample.parked = some log ∧
      log.map (·.said) = [.Pending, .Ready (.Delivery (some Sample.pinged))] := by
  obtain ⟨⟨log, hlog, hsaid, -, -⟩, -⟩ := race_loses_nothing (P := Empty) (N := Shared)
    (⟨some default⟩ : NextDelivery) none Sample.ClosedWatch.closed Sample.parked
  exact ⟨log, hlog, hsaid⟩

end Kamiroh
