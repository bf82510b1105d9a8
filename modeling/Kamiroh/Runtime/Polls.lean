import Kamiroh.Runtime.Shadows

/-!
# Polls

A poll of a step, seen from outside: what its race produces, and how it makes the runtime step. The
network, the inboxes and the watch are any.
-/

namespace Kamiroh

namespace LocalRuntime

variable {P N Ib : Type} [Party P] [Transport N] [Registry N Ib] [Inbox N Ib] [DeathWatch N]

/-! ## The race of a poll -/

/-- What the race produces, and the runtime that steps with it. No race is run for an actor that is not
there or that has exchanges to sweep. -/
def race (rt : LocalRuntime P N Ib) (name : ActorName) (waker : Waker) :
    Option (Waited × LocalRuntime P N Ib) :=
  match rt.actors name with
  | none => none
  | some actor =>
    if actor.affected (· ∈ rt.dead) = [] then
      match nextOrDeadlineOrDeath rt.net actor.inbox (actor.earliestDue.map (·.2.2)) rt.clock
        rt.deathWatch waker with
      | (.Ready waited, net, _) => some (waited, { rt with net })
      | (.Pending, _, _) => none
    else none

/-- What the race makes of the deadline that it is given. -/
structure OnTime (rt : LocalRuntime P N Ib) (actor : LocalActor P Ib) (waited : Waited) : Prop where
  elapsed : waited = .DeadlineElapsed → ∃ w, actor.earliestDue = some w ∧ w.2.2 ≤ rt.clock
  delivered : ∀ delivery, waited = .Delivery delivery → ∀ w, actor.earliestDue = some w →
    rt.clock < w.2.2

omit [Transport N] [Registry N Ib] [DeathWatch N] [Party P] in
theorem nextOrDeadline_onTime (rt : LocalRuntime P N Ib) (net : N) (actor : LocalActor P Ib)
    (inbox : Ib) (waker : Waker) {waited : Waited} {net' : N}
    (h : nextOrDeadline net inbox (actor.earliestDue.map (·.2.2)) rt.clock waker =
      (.Ready waited, net')) : OnTime rt actor waited := by
  unfold nextOrDeadline at h
  split at h
  · rename_i hdue
    cases h
    rw [Option.any_map, Option.any_eq_true] at hdue
    obtain ⟨w, hw, hdue⟩ := hdue
    exact ⟨fun _ => ⟨w, hw, decide_eq_true_eq.mp hdue⟩, by simp⟩
  · rename_i hdue
    have hearly : ∀ w, actor.earliestDue = some w → rt.clock < w.2.2 := by
      intro w hw
      rw [hw] at hdue
      simpa using hdue
    split at h
    · cases h
      exact ⟨by simp, fun _ _ => hearly⟩
    · cases h

omit [Transport N] [Registry N Ib] [Party P] in
theorem race_onTime (rt : LocalRuntime P N Ib) (actor : LocalActor P Ib) (inbox : Ib) (waker : Waker)
    {waited : Waited} {net : N} {watch : Option WatchId}
    (h : nextOrDeadlineOrDeath rt.net inbox (actor.earliestDue.map (·.2.2)) rt.clock rt.deathWatch
      waker = (.Ready waited, net, watch)) : OnTime rt actor waited := by
  have hrest : ∀ (net₀ : N) (watch' : Option WatchId),
      ((nextOrDeadline net₀ inbox (actor.earliestDue.map (·.2.2)) rt.clock waker).1,
        (nextOrDeadline net₀ inbox (actor.earliestDue.map (·.2.2)) rt.clock waker).2, watch') =
        (Poll.Ready waited, net, watch) → OnTime rt actor waited := by
    intro net₀ watch' hwaited
    simp only [Prod.mk.injEq] at hwaited
    exact nextOrDeadline_onTime rt net₀ actor inbox waker (Prod.ext hwaited.1 hwaited.2.1)
  unfold nextOrDeadlineOrDeath at h
  split at h
  · exact hrest _ _ h
  · split at h
    · cases h
      exact ⟨by simp, by simp⟩
    · exact hrest _ _ h
    · exact hrest _ _ h

omit [Transport N] [Registry N Ib] [Party P] in
theorem onTime_of_race {rt rt' : LocalRuntime P N Ib} {name : ActorName} {waker : Waker}
    {waited : Waited} (h : rt.race name waker = some (waited, rt')) {actor : LocalActor P Ib}
    (hactor : rt.actors name = some actor) : OnTime rt actor waited := by
  simp only [race, hactor] at h
  split at h
  · split at h
    · rename_i hraced
      cases h
      exact race_onTime rt actor actor.inbox waker hraced
    · cases h
  · cases h

theorem poll_of_race {rt rt' : LocalRuntime P N Ib} {name : ActorName} {waker : Waker} {waited : Waited}
    (h : rt.race name waker = some (waited, rt')) :
    rt.poll name waker =
      (.Ready (rt'.step name waited).result, (rt'.step name waited).rt,
        (rt'.step name waited).effects) := by
  unfold race at h
  split at h
  · cases h
  · split at h
    · rename_i actor hactor hquiet
      split at h
      · rename_i hraced
        cases h
        simp only [poll, hactor, sweepDead_none hquiet, hraced]
      · cases h
    · cases h

theorem poll_of_loud {rt : LocalRuntime P N Ib} {name : ActorName} {actor : LocalActor P Ib}
    (hactor : rt.actors name = some actor) (hloud : actor.affected (· ∈ rt.dead) ≠ []) (waker : Waker)
    (waited : Waited) :
    rt.poll name waker =
      (.Ready (rt.step name waited).result, (rt.step name waited).rt, (rt.step name waited).effects) := by
  obtain ⟨endpoint, hdead, hlive, hswept⟩ := sweepDead_some rt name hloud
  simp only [poll, step, hactor, hswept]

/-- The cases of a poll. A sweep is a step that looks at nothing that was waited for. -/
inductive Raced (rt : LocalRuntime P N Ib) (name : ActorName) (waker : Waker) :
    Poll Outcome × LocalRuntime P N Ib × List Effect → Prop
  | absent (hactor : rt.actors name = none) :
      Raced rt name waker (.Ready (.Returned (.error .UnknownActor)), rt, [])
  | pending (net : N) (hrace : rt.race name waker = none) :
      Raced rt name waker (.Pending, { rt with net }, [])
  | swept (actor : LocalActor P Ib) (hactor : rt.actors name = some actor)
      (hloud : actor.affected (· ∈ rt.dead) ≠ []) (hrace : rt.race name waker = none)
      (ran : Ran P N Ib Outcome) (hran : ran = rt.step name .DeadlineElapsed) :
      Raced rt name waker (.Ready ran.result, ran.rt, ran.effects)
  | raced (actor : LocalActor P Ib) (hactor : rt.actors name = some actor)
      (hquiet : actor.affected (· ∈ rt.dead) = []) (waited : Waited) (net : N)
      (hrace : rt.race name waker = some (waited, { rt with net }))
      (ran : Ran P N Ib Outcome) (hran : ran = { rt with net }.step name waited) :
      Raced rt name waker (.Ready ran.result, ran.rt, ran.effects)

theorem poll_raced (rt : LocalRuntime P N Ib) (name : ActorName) (waker : Waker) :
    Raced rt name waker (rt.poll name waker) := by
  cases hactor : rt.actors name with
  | none =>
    simp only [poll, hactor]
    exact .absent hactor
  | some actor =>
    by_cases hquiet : actor.affected (· ∈ rt.dead) = []
    · rcases hraced : nextOrDeadlineOrDeath rt.net actor.inbox (actor.earliestDue.map (·.2.2)) rt.clock
        rt.deathWatch waker with ⟨_ | _, net, watch⟩
      · rename_i waited
        have hrace : rt.race name waker = some (waited, { rt with net }) := by
          simp only [race, hactor, if_pos hquiet, hraced]
        rw [poll_of_race hrace]
        exact .raced actor hactor hquiet waited net hrace _ rfl
      · have hrace : rt.race name waker = none := by simp only [race, hactor, if_pos hquiet, hraced]
        simp only [poll, hactor, sweepDead_none hquiet, hraced]
        exact .pending net hrace
    · have hrace : rt.race name waker = none := by simp only [race, hactor, if_neg hquiet]
      rw [poll_of_loud hactor hquiet waker .DeadlineElapsed]
      exact .swept actor hactor hquiet hrace _ rfl

theorem poll_of_elapsed {rt : LocalRuntime P N Ib} {name : ActorName} {actor : LocalActor P Ib}
    (hactor : rt.actors name = some actor) {w : Address × DeadlineKind × Instant}
    (hw : actor.earliestDue = some w) (hdue : w.2.2 ≤ rt.clock) (waker : Waker) :
    (rt.poll name waker).1 ≠ .Pending := by
  have hready : ∀ net : N, (nextOrDeadline net actor.inbox (actor.earliestDue.map (·.2.2)) rt.clock
      waker).1 = .Ready .DeadlineElapsed := by
    intro net
    simp [nextOrDeadline, hw, hdue]
  have hraced : (nextOrDeadlineOrDeath rt.net actor.inbox (actor.earliestDue.map (·.2.2)) rt.clock
      rt.deathWatch waker).1 ≠ .Pending := by
    unfold nextOrDeadlineOrDeath
    split
    · simp [hready]
    · split <;> simp [hready]
  simp only [poll, hactor]
  split
  · simp
  · split
    · rename_i hpending
      rw [hpending] at hraced
      exact absurd rfl hraced
    · simp

end LocalRuntime

/-! ## Runs of polls -/

/-- What can happen to a runtime: it polls a step of an actor, or something else is called or happens
elsewhere. -/
inductive Moment (P N : Type)
  | Poll (name : ActorName) (waker : Waker)
  | Other (call : Call P N) (hother : ∀ name waited, call ≠ .Step name waited)

namespace LocalRuntime

variable {P N Ib : Type} [Party P] [Transport N] [Registry N Ib] [Inbox N Ib] [DeathWatch N]

def moment (rt : LocalRuntime P N Ib) : Moment P N → LocalRuntime P N Ib × List Effect
  | .Poll name waker => (rt.poll name waker).2
  | .Other call _ => rt.exec call

def moments (rt : LocalRuntime P N Ib) (ms : List (Moment P N)) : LocalRuntime P N Ib :=
  Run.after (fun rt m => (rt.moment m).1) rt ms

@[simp] theorem moments_snoc (rt : LocalRuntime P N Ib) (ms : List (Moment P N)) (m : Moment P N) :
    rt.moments (ms ++ [m]) = ((rt.moments ms).moment m).1 := Run.after_append ..

/-- The call that a moment comes to. -/
inductive Called (rt : LocalRuntime P N Ib) (m : Moment P N) :
    LocalRuntime P N Ib × List Effect → Prop
  | nothing (net : N) (hrace : ∀ name waker, m = .Poll name waker → rt.race name waker = none) :
      Called rt m ({ rt with net }, [])
  | stepped (net : N) (name : ActorName) (waker : Waker) (hm : m = .Poll name waker) (waited : Waited)
      (hrace : rt.race name waker = some (waited, { rt with net }) ∨
        rt.race name waker = none ∧ waited = .DeadlineElapsed) :
      Called rt m ({ rt with net }.exec (.Step name waited))
  | other (call : Call P N) (hother : ∀ name waited, call ≠ .Step name waited)
      (hm : m = .Other call hother) : Called rt m (rt.exec call)

theorem moment_called (rt : LocalRuntime P N Ib) (m : Moment P N) : Called rt m (rt.moment m) := by
  cases m with
  | Other call hother => exact .other call hother rfl
  | Poll name waker =>
    have hpolled := poll_raced rt name waker
    simp only [moment]
    generalize rt.poll name waker = polled at hpolled
    rcases hpolled with ⟨hactor⟩ | ⟨net, hrace⟩ | ⟨actor, hactor, hloud, hrace, _, rfl⟩ |
      ⟨actor, hactor, hquiet, waited, net, hrace, _, rfl⟩
    · have hrace : rt.race name waker = none := by simp only [race, hactor]
      refine .nothing rt.net fun name' waker' h => ?_
      cases h
      exact hrace
    · refine .nothing net fun name' waker' h => ?_
      cases h
      exact hrace
    · exact .stepped rt.net name waker rfl .DeadlineElapsed (Or.inr ⟨hrace, rfl⟩)
    · exact .stepped net name waker rfl waited (Or.inl hrace)

omit [Party P] [Transport N] [Registry N Ib] in
theorem quiet_of_race {rt : LocalRuntime P N Ib} {name : ActorName} {waker : Waker}
    {raced : Waited × LocalRuntime P N Ib} (h : rt.race name waker = some raced)
    {actor : LocalActor P Ib} (hactor : rt.actors name = some actor) :
    actor.affected (· ∈ rt.dead) = [] := by
  simp only [race, hactor] at h
  split at h
  · assumption
  · cases h

end LocalRuntime

end Kamiroh
