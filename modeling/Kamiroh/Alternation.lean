import Kamiroh.Protocol

/-!
# The turn machine accepts exactly the alternation language

The grammar below says what a legal exchange is, without the machine.
-/

namespace Kamiroh.Alternation

/-! ## The machine, on any events -/

inductive Event
  | Outgoing (turn : Turn)
  | Incoming (turn : Turn)
  | Fail
deriving DecidableEq

/-- Whether the machine takes the event, and the state that the event leaves behind. A `Fail` is
taken when there was an exchange to fail. -/
def apply (s : TurnState) : Event → Bool × TurnState
  | .Outgoing turn => ((s.onOutgoing turn).1.isOk, (s.onOutgoing turn).2)
  | .Incoming turn => ((s.onIncoming turn).1.isOk, (s.onIncoming turn).2)
  | .Fail => s.fail

def accepted (s : TurnState) : List Event → List Event
  | [] => []
  | e :: es => if (apply s e).1 then e :: accepted (apply s e).2 es else accepted (apply s e).2 es

/-! ## The grammar -/

inductive Direction
  | Out
  | In
deriving DecidableEq

def Direction.flip : Direction → Direction
  | Out => In
  | In => Out

def said (d : Direction) (turn : Turn) : Event :=
  match d with
  | .Out => .Outgoing turn
  | .In => .Incoming turn

/-- The rest of an exchange after a turn in direction `d` that posed `x`. -/
inductive Rest : Direction → RequestId → List Event → Prop
  | close {d : Direction} (a : Response) : Rest d a.id [said d.flip (.Close a)]
  | fail {d : Direction} (x : RequestId) : Rest d x [.Fail]
  | continues {d : Direction} (a : Response) (r : Request) (rest : List Event)
      (h : Rest d.flip r.id rest) : Rest d a.id (said d.flip (.Continue a r) :: rest)

inductive Exchange : List Event → Prop
  | opened (d : Direction) (r : Request) (rest : List Event) (h : Rest d r.id rest) :
      Exchange (said d (.Open r) :: rest)

/-- A prefix of a concatenation of exchanges. -/
def Language (events : List Event) : Prop :=
  ∃ exchanges : List (List Event), (∀ e ∈ exchanges, Exchange e) ∧ events <+: exchanges.flatten

/-- A prefix of the rest of one exchange and of the exchanges after it. -/
def Ongoing (d : Direction) (x : RequestId) (events : List Event) : Prop :=
  ∃ (rest : List Event) (exchanges : List (List Event)), Rest d x rest ∧
    (∀ e ∈ exchanges, Exchange e) ∧ events <+: rest ++ exchanges.flatten

theorem language_nil : Language [] := ⟨[], by simp, List.nil_prefix⟩

theorem ongoing_nil (d : Direction) (x : RequestId) : Ongoing d x [] :=
  ⟨[.Fail], [], .fail x, by simp, List.nil_prefix⟩

theorem language_cons_iff (e : Event) (es : List Event) :
    Language (e :: es) ↔ ∃ d r, e = said d (.Open r) ∧ Ongoing d r.id es := by
  constructor
  · rintro ⟨exchanges, hall, hpre⟩
    cases exchanges with
    | nil => simp at hpre
    | cons first others =>
      obtain ⟨d, r, rest, hrest⟩ := hall _ List.mem_cons_self
      rw [List.flatten_cons, List.cons_append, List.cons_prefix_cons] at hpre
      exact ⟨d, r, hpre.1, rest, others, hrest, fun e he => hall e (List.mem_cons_of_mem _ he), hpre.2⟩
  · rintro ⟨d, r, rfl, rest, exchanges, hrest, hall, hpre⟩
    refine ⟨(said d (.Open r) :: rest) :: exchanges, ?_, ?_⟩
    · rw [List.forall_mem_cons]
      exact ⟨.opened d r rest hrest, hall⟩
    · rw [List.flatten_cons, List.cons_append, List.cons_prefix_cons]
      exact ⟨rfl, hpre⟩

theorem ongoing_cons_iff (d : Direction) (x : RequestId) (e : Event) (es : List Event) :
    Ongoing d x (e :: es) ↔
      (e = .Fail ∧ Language es) ∨
      (∃ a, e = said d.flip (.Close a) ∧ a.id = x ∧ Language es) ∨
      (∃ a r, e = said d.flip (.Continue a r) ∧ a.id = x ∧ Ongoing d.flip r.id es) := by
  constructor
  · rintro ⟨rest, exchanges, hrest, hall, hpre⟩
    cases hrest with
    | close a =>
      rw [List.singleton_append, List.cons_prefix_cons] at hpre
      exact Or.inr (Or.inl ⟨a, hpre.1, rfl, exchanges, hall, hpre.2⟩)
    | fail =>
      rw [List.singleton_append, List.cons_prefix_cons] at hpre
      exact Or.inl ⟨hpre.1, exchanges, hall, hpre.2⟩
    | continues a r rest h =>
      rw [List.cons_append, List.cons_prefix_cons] at hpre
      exact Or.inr (Or.inr ⟨a, r, hpre.1, rfl, rest, exchanges, h, hall, hpre.2⟩)
  · rintro (⟨rfl, exchanges, hall, hpre⟩ | ⟨a, rfl, rfl, exchanges, hall, hpre⟩ |
      ⟨a, r, rfl, rfl, rest, exchanges, hrest, hall, hpre⟩)
    · exact ⟨_, exchanges, .fail x, hall, by simpa using hpre⟩
    · exact ⟨_, exchanges, .close a, hall, by simpa using hpre⟩
    · exact ⟨_, exchanges, .continues a r rest hrest, hall, by simpa using hpre⟩

/-! ## The machine follows the grammar -/

theorem refused_unchanged (s : TurnState) (e : Event) (h : (apply s e).1 = false) :
    (apply s e).2 = s := by
  cases e with
  | Outgoing t =>
    cases hr : (s.onOutgoing t).1 with
    | error err => exact s.onOutgoing_refused t err hr
    | ok p => simp [apply, hr, Except.isOk, Except.toBool] at h
  | Incoming t =>
    cases hr : (s.onIncoming t).1 with
    | error err => exact s.onIncoming_refused t err hr
    | ok p => simp [apply, hr, Except.isOk, Except.toBool] at h
  | Fail => exact s.fail_of_not_live (by rw [← s.fail_live]; exact h)

/-- What may still be accepted in a state. -/
def Tail : TurnState → List Event → Prop
  | .Idle, es | .Failed, es => Language es
  | .AwaitingTheirTurn x, es => Ongoing .Out x es
  | .OweThem x, es => Ongoing .In x es

theorem tail_nil (s : TurnState) : Tail s [] := by
  cases s with
  | Idle | Failed => exact language_nil
  | AwaitingTheirTurn x | OweThem x => exact ongoing_nil _ x

@[simp] theorem outgoing_eq_said (d : Direction) (t t' : Turn) :
    Event.Outgoing t = said d t' ↔ d = .Out ∧ t = t' := by cases d <;> simp [said]

@[simp] theorem incoming_eq_said (d : Direction) (t t' : Turn) :
    Event.Incoming t = said d t' ↔ d = .In ∧ t = t' := by cases d <;> simp [said]

@[simp] theorem fail_ne_said (d : Direction) (t : Turn) : Event.Fail ≠ said d t := by
  cases d <;> simp [said]

theorem tail_cons_iff (s : TurnState) (e : Event) (es : List Event) :
    Tail s (e :: es) ↔ (apply s e).1 = true ∧ Tail (apply s e).2 es := by
  rcases s with _ | x | x | _ <;> rcases e with (r | ⟨a, r⟩ | a) | (r | ⟨a, r⟩ | a) | _ <;>
    simp only [Tail, language_cons_iff, ongoing_cons_iff]
  all_goals
    simp [apply, TurnState.onOutgoing, TurnState.onIncoming, TurnState.fail, Except.isOk,
      Except.toBool, Direction.flip]
  -- What is left is a response id, which the grammar and the machine compare alike.
  all_goals
    by_cases h : a.id = x <;> simp [h]

theorem tail_accepted (s : TurnState) (es : List Event) : Tail s (accepted s es) := by
  induction es generalizing s with
  | nil => exact tail_nil s
  | cons e es ih =>
    rw [accepted]
    split
    case isTrue h => exact (tail_cons_iff s e _).mpr ⟨h, ih _⟩
    case isFalse h =>
      rw [refused_unchanged s e (by simpa using h)]
      exact ih s

theorem accepted_of_tail (s : TurnState) (es : List Event) (h : Tail s es) : accepted s es = es := by
  induction es generalizing s with
  | nil => rfl
  | cons e es ih =>
    obtain ⟨he, hes⟩ := (tail_cons_iff s e es).mp h
    rw [accepted, if_pos he, ih _ hes]

/-- From `Idle`, what the machine accepts is a prefix of a concatenation of exchanges, every such
prefix is accepted in full, and what is not accepted changes nothing. -/
theorem accepts_alternation :
    (∀ events, Language (accepted .Idle events)) ∧
    (∀ events, Language events → accepted .Idle events = events) ∧
    (∀ s e, (apply s e).1 = false → (apply s e).2 = s) ∧
    (∀ s, (apply s .Fail).1 = s.live) :=
  ⟨fun es => tail_accepted .Idle es, fun es h => accepted_of_tail .Idle es h, refused_unchanged,
    TurnState.fail_live⟩

end Kamiroh.Alternation
