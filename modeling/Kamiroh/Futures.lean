import Mathlib.Data.List.Basic

/-!
# Futures

A future is what its polls say. Between two polls, whoever shares its state may change that state.
This module knows nothing of what is waited for.
-/

namespace Kamiroh

inductive Poll (α : Type)
  | Ready (value : α)
  | Pending
deriving DecidableEq

/-- Whom to wake when a pending poll may have become ready. -/
abbrev Waker := Nat

class Future (F : Type) (α : outParam Type) where
  poll : F → Waker → Poll α × F

/-- A future that may be absent. An absent one never completes. -/
instance {F : Type} [Future F Unit] : Future (Option F) Unit where
  poll
    | some f, waker => ((Future.poll f waker).1, some (Future.poll f waker).2)
    | none, _ => (.Pending, none)

/-! ## Schedules -/

/-- One wakeup: what others have done in the meantime, and the waker of the poll. -/
structure Wakeup (F : Type) where
  moved : F → F
  waker : Waker

/-- What a future says at the wakeups of a schedule. There is no answer after the one that completes
it. -/
def answers {F α : Type} [Future F α] : F → List (Wakeup F) → List (Poll α)
  | _, [] => []
  | f, wakeup :: schedule =>
    match Future.poll (wakeup.moved f) wakeup.waker with
    | (.Ready value, _) => [.Ready value]
    | (.Pending, f) => .Pending :: answers f schedule

/-- The answers to the first one that is ready. -/
def untilReady {α : Type} : List (Poll α) → List (Poll α)
  | [] => []
  | .Ready value :: _ => [.Ready value]
  | .Pending :: said => .Pending :: untilReady said

/-! ## Polls that may panic -/

/-- A future that is pinned and awaited. A poll of one that has completed panics. -/
structure Pinned (F : Type) where
  future : F
  completed : Bool

namespace Pinned

variable {F α : Type}

def new (f : F) : Pinned F := ⟨f, false⟩

def move (p : Pinned F) (moved : F → F) : Pinned F := { p with future := moved p.future }

/-- `none` is a panic. -/
def poll [Future F α] (p : Pinned F) (waker : Waker) : Option (Poll α × Pinned F) :=
  if p.completed then none
  else
    match Future.poll p.future waker with
    | (.Ready value, f) => some (.Ready value, ⟨f, true⟩)
    | (.Pending, f) => some (.Pending, ⟨f, false⟩)

end Pinned

/-- One poll of a run: the state that it found, what it said, and the state that it left. -/
structure Polled (S α : Type) where
  before : S
  said : Poll α
  after : S

/-- The polls of a run, which ends with the first one that is ready. `none` is a panic. -/
def polls {S A α : Type} (wake : S → A → Option (Polled S α)) :
    S → List A → Option (List (Polled S α))
  | _, [] => some []
  | s, a :: as =>
    (wake s a).bind fun polled =>
      match polled.said with
      | .Ready _ => some [polled]
      | .Pending => (polls wake polled.after as).map (polled :: ·)

/-! ## Queues -/

/-- What a poll took out of a queue. -/
def Poll.drawn {β : Type} : Poll (Option β) → List β
  | .Ready (some item) => [item]
  | _ => []

/-- A future that takes an item from its queue only when it says so. -/
class Draws (F : Type) (β : outParam Type) [Future F (Option β)] where
  waiting : F → List β
  waiting_poll : ∀ f waker,
    waiting f = (Future.poll f waker).1.drawn ++ waiting (Future.poll f waker).2

/-! ## Rules -/

section

variable {F α : Type} [Future F α]

@[simp] theorem answers_nil (f : F) : answers f [] = [] := rfl

theorem answers_ready (wakeup : Wakeup F) {f f' : F} {value : α}
    (h : Future.poll (wakeup.moved f) wakeup.waker = (.Ready value, f')) (schedule : List (Wakeup F)) :
    answers f (wakeup :: schedule) = [.Ready value] := by
  rw [answers, h]

theorem answers_pending (wakeup : Wakeup F) {f f' : F}
    (h : Future.poll (wakeup.moved f) wakeup.waker = (.Pending, f')) (schedule : List (Wakeup F)) :
    answers f (wakeup :: schedule) = .Pending :: answers f' schedule := by
  rw [answers, h]

namespace Pinned

theorem poll_ready {p : Pinned F} {waker : Waker} {value : α} {f : F} (hopen : p.completed = false)
    (h : Future.poll p.future waker = (.Ready value, f)) :
    p.poll waker = some (.Ready value, ⟨f, true⟩) := by
  simp only [poll, hopen, Bool.false_eq_true, if_false, h]

theorem poll_pending {p : Pinned F} {waker : Waker} {f : F} (hopen : p.completed = false)
    (h : Future.poll p.future waker = (.Pending, f)) :
    p.poll waker = some (.Pending, ⟨f, false⟩) := by
  simp only [poll, hopen, Bool.false_eq_true, if_false, h]

end Pinned

end

section

variable {S A α : Type} {wake : S → A → Option (Polled S α)}

/-- The rule for runs: no poll from a state of the invariant panics, and each is as `ok` says. -/
theorem polls_ok {I : S → Prop} {ok : Polled S α → Prop}
    (hwake : ∀ s a, I s → ∃ polled, wake s a = some polled ∧ ok polled ∧
      (polled.said = .Pending → I polled.after))
    (s : S) (as : List A) (hs : I s) :
    ∃ log, polls wake s as = some log ∧ ∀ polled ∈ log, ok polled := by
  induction as generalizing s with
  | nil => exact ⟨[], rfl, by simp⟩
  | cons a as ih =>
    obtain ⟨polled, hpolled, hok, hafter⟩ := hwake s a hs
    cases hsaid : polled.said with
    | Ready value => exact ⟨[polled], by simp [polls, hpolled, hsaid], by simpa using hok⟩
    | Pending =>
      obtain ⟨log, hlog, hall⟩ := ih polled.after (hafter hsaid)
      exact ⟨polled :: log, by simp [polls, hpolled, hsaid, hlog], List.forall_mem_cons.mpr ⟨hok, hall⟩⟩

theorem polls_spec {I : S → Prop} {ok : Polled S α → Prop} {expected : S → List A → List (Poll α)}
    (hnil : ∀ s, expected s [] = [])
    (hwake : ∀ s a, I s → ∃ polled, wake s a = some polled ∧ ok polled ∧
      ((∃ value, polled.said = .Ready value ∧ ∀ as, expected s (a :: as) = [.Ready value]) ∨
        polled.said = .Pending ∧ I polled.after ∧
          ∀ as, expected s (a :: as) = .Pending :: expected polled.after as))
    (s : S) (as : List A) (hs : I s) :
    ∃ log, polls wake s as = some log ∧ log.map (·.said) = expected s as ∧
      ∀ polled ∈ log, ok polled := by
  induction as generalizing s with
  | nil => exact ⟨[], rfl, (hnil s).symm, by simp⟩
  | cons a as ih =>
    obtain ⟨polled, hpolled, hok, ⟨value, hsaid, hexpected⟩ | ⟨hsaid, hafter, hexpected⟩⟩ :=
      hwake s a hs
    · refine ⟨[polled], by simp [polls, hpolled, hsaid], ?_, by simpa using hok⟩
      rw [hexpected, List.map_singleton, hsaid]
    · obtain ⟨log, hlog, hmap, hall⟩ := ih polled.after hafter
      refine ⟨polled :: log, by simp [polls, hpolled, hsaid, hlog], ?_, ?_⟩
      · rw [hexpected, List.map_cons, hsaid, hmap]
      · exact List.forall_mem_cons.mpr ⟨hok, hall⟩

end

end Kamiroh
