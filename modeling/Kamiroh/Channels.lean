import Kamiroh.Protocol
import Kamiroh.Run

/-!
# Two machines on lossless channels

One side opens, nobody fails, and each channel keeps its order. The opener may close an exchange
and open the next one before the first close arrives, so the two sides are not in lockstep.
-/

namespace Kamiroh.Channels

open TurnState

/-! ## The machines and the channels -/

structure Line where
  opener : TurnState
  answerer : TurnState
  toAnswerer : List Turn
  toOpener : List Turn
deriving DecidableEq

def idle : Line := ⟨.Idle, .Idle, [], []⟩

def isOpen : Turn → Bool
  | .Open _ => true
  | .Continue .. | .Close _ => false

inductive Move
  | OpenerSends (turn : Turn)
  | AnswererSends (turn : Turn)
  | ToAnswerer
  | ToOpener
deriving DecidableEq

/-- A turn goes into the channel when the sender's own machine takes it. Only the opener sends an
`Open`. A turn that comes out is given to the receiver's machine, which may refuse it. -/
def step (l : Line) : Move → Line
  | .OpenerSends turn =>
    if (l.opener.onOutgoing turn).1.isOk then
      { l with opener := (l.opener.onOutgoing turn).2, toAnswerer := l.toAnswerer ++ [turn] }
    else l
  | .AnswererSends turn =>
    if !isOpen turn && (l.answerer.onOutgoing turn).1.isOk then
      { l with answerer := (l.answerer.onOutgoing turn).2, toOpener := l.toOpener ++ [turn] }
    else l
  | .ToAnswerer =>
    match l.toAnswerer with
    | [] => l
    | turn :: rest => { l with answerer := (l.answerer.onIncoming turn).2, toAnswerer := rest }
  | .ToOpener =>
    match l.toOpener with
    | [] => l
    | turn :: rest => { l with opener := (l.opener.onIncoming turn).2, toOpener := rest }

/-- Nothing, or one side waits for the answer that the other side owes. -/
inductive Dual : TurnState → TurnState → Prop
  | idle : Dual .Idle .Idle
  | awaits (x : RequestId) : Dual (.AwaitingTheirTurn x) (.OweThem x)
  | owes (x : RequestId) : Dual (.OweThem x) (.AwaitingTheirTurn x)

/-! ## What each side still has to hear -/

/-- The state of the other side, when there is nothing left to hear. -/
def mirror : TurnState → TurnState
  | .AwaitingTheirTurn x => .OweThem x
  | .OweThem x => .AwaitingTheirTurn x
  | .Idle => .Idle
  | .Failed => .Failed

@[simp] theorem mirror_mirror (s : TurnState) : mirror (mirror s) = s := by cases s <;> rfl

theorem mirror_hears (s : TurnState) (t : Turn) (p : TurnProgress) (h : (s.onOutgoing t).1 = .ok p) :
    ((mirror s).onIncoming t).1 = .ok p ∧
      ((mirror s).onIncoming t).2 = mirror (s.onOutgoing t).2 := by
  rcases (onOutgoing_ok_iff s t p).mp h with ⟨r, rfl | rfl⟩ | ⟨a, r, rfl⟩ | ⟨a, rfl⟩ <;>
    simp [mirror, onIncoming, onOutgoing]

def Hears : TurnState → List Turn → TurnState → Prop
  | s, [], s' => s = s'
  | s, turn :: rest, s' => (s.onIncoming turn).1.isOk = true ∧ Hears (s.onIncoming turn).2 rest s'

theorem hears_snoc (s s' : TurnState) (ts : List Turn) (t : Turn) (h : Hears s ts s')
    (ht : (s'.onIncoming t).1.isOk = true) : Hears s (ts ++ [t]) (s'.onIncoming t).2 := by
  induction ts generalizing s with
  | nil => rw [Hears] at h; subst h; exact ⟨ht, rfl⟩
  | cons t' ts ih => exact ⟨h.1, ih _ h.2⟩

theorem hears_cons_no_send (s s' : TurnState) (t t' : Turn) (ts : List Turn)
    (h : Hears s (t :: ts) s') (hno : isOpen t = true → isOpen t' = false) :
    (s.onOutgoing t').1.isOk = false := by
  obtain ⟨p, hp⟩ := isOk_iff.mp h.1
  rcases (onIncoming_ok_iff s t p).mp hp with ⟨r, rfl | rfl⟩ | ⟨a, r, rfl⟩ | ⟨a, rfl⟩ <;>
    rcases t' with r' | ⟨a', r'⟩ | a' <;> simp_all [onOutgoing, isOpen, Except.isOk, Except.toBool]

/-- At most one channel holds turns, and its reader, having heard them, mirrors the writer. -/
inductive Coupled (l : Line) : Prop
  | answererHears (hempty : l.toOpener = [])
      (h : Hears l.answerer l.toAnswerer (mirror l.opener))
  | openerHears (hempty : l.toAnswerer = []) (hopen : ∀ t ∈ l.toOpener, isOpen t = false)
      (h : Hears l.opener l.toOpener (mirror l.answerer))

structure Inv (l : Line) : Prop where
  coupled : Coupled l
  opener : l.opener ≠ .Failed
  answerer : l.answerer ≠ .Failed

theorem onOutgoing_ne_failed (s : TurnState) (t : Turn) (h : s ≠ .Failed) :
    (s.onOutgoing t).2 ≠ .Failed := by
  rcases s with _ | x | x | _ <;> rcases t with r | ⟨a, r⟩ | a <;> simp [onOutgoing] at h ⊢
  all_goals split <;> simp

theorem onIncoming_ne_failed (s : TurnState) (t : Turn) (h : s ≠ .Failed) :
    (s.onIncoming t).2 ≠ .Failed := by
  rcases s with _ | x | x | _ <;> rcases t with r | ⟨a, r⟩ | a <;> simp [onIncoming] at h ⊢
  all_goals split <;> simp

/-- With both channels empty, either side may be the one that speaks next. -/
theorem Coupled.answerer_hears {l : Line} (hc : Coupled l) (hempty : l.toOpener = []) :
    Hears l.answerer l.toAnswerer (mirror l.opener) := by
  cases hc with
  | answererHears _ h => exact h
  | openerHears hempty' _ h =>
    rw [hempty, Hears] at h
    rw [hempty', Hears, h, mirror_mirror]

theorem Coupled.opener_hears {l : Line} (hc : Coupled l) (hempty : l.toAnswerer = []) :
    (∀ t ∈ l.toOpener, isOpen t = false) ∧ Hears l.opener l.toOpener (mirror l.answerer) := by
  cases hc with
  | answererHears hempty' h =>
    rw [hempty, Hears] at h
    rw [hempty', Hears, h, mirror_mirror]
    exact ⟨by simp, rfl⟩
  | openerHears _ hopen h => exact ⟨hopen, h⟩

theorem step_opener_sends (l : Line) (t : Turn) (h : Inv l) : Inv (step l (.OpenerSends t)) := by
  rw [step]
  split
  case isFalse => exact h
  case isTrue hok =>
    refine ⟨?_, onOutgoing_ne_failed _ _ h.opener, h.answerer⟩
    obtain ⟨p, hp⟩ := isOk_iff.mp hok
    have hmirror := mirror_hears _ t p hp
    cases hto : l.toOpener with
    | nil =>
      refine .answererHears rfl ?_
      rw [← hmirror.2]
      exact hears_snoc _ _ _ t (h.coupled.answerer_hears hto) (isOk_iff.mpr ⟨p, hmirror.1⟩)
    | cons t' ts =>
      -- The opener has an answer to hear first, and it is not an `Open`.
      exfalso
      cases h.coupled with
      | answererHears hempty _ => simp [hto] at hempty
      | openerHears _ hopen hears =>
        rw [hto] at hopen hears
        have := hears_cons_no_send _ _ t' t ts hears (by simp [hopen t' (by simp)])
        simp [this] at hok

theorem step_answerer_sends (l : Line) (t : Turn) (h : Inv l) : Inv (step l (.AnswererSends t)) := by
  rw [step]
  split
  case isFalse => exact h
  case isTrue hok =>
    rw [Bool.and_eq_true, Bool.not_eq_true'] at hok
    refine ⟨?_, h.opener, onOutgoing_ne_failed _ _ h.answerer⟩
    obtain ⟨p, hp⟩ := isOk_iff.mp hok.2
    have hmirror := mirror_hears _ t p hp
    cases hto : l.toAnswerer with
    | nil =>
      obtain ⟨hopen, hears⟩ := h.coupled.opener_hears hto
      refine .openerHears rfl ?_ ?_
      · intro t' ht'
        rcases List.mem_append.mp ht' with ht' | ht'
        · exact hopen t' ht'
        · rw [List.mem_singleton.mp ht']; exact hok.1
      · rw [← hmirror.2]
        exact hears_snoc _ _ _ t hears (isOk_iff.mpr ⟨p, hmirror.1⟩)
    | cons t' ts =>
      exfalso
      cases h.coupled with
      | answererHears _ hears =>
        rw [hto] at hears
        have := hears_cons_no_send _ _ t' t ts hears (fun _ => hok.1)
        simp [this] at hok
      | openerHears hempty _ _ => simp [hto] at hempty

theorem step_to_answerer (l : Line) (h : Inv l) : Inv (step l .ToAnswerer) := by
  rw [step]
  split
  · exact h
  · rename_i t ts hto
    refine ⟨?_, h.opener, onIncoming_ne_failed _ _ h.answerer⟩
    cases h.coupled with
    | answererHears hempty hears =>
      rw [hto] at hears
      exact .answererHears hempty hears.2
    | openerHears hempty _ _ => simp [hto] at hempty

theorem step_to_opener (l : Line) (h : Inv l) : Inv (step l .ToOpener) := by
  rw [step]
  split
  · exact h
  · rename_i t ts hto
    refine ⟨?_, onIncoming_ne_failed _ _ h.opener, h.answerer⟩
    cases h.coupled with
    | answererHears hempty _ => simp [hto] at hempty
    | openerHears hempty hopen hears =>
      rw [hto] at hopen hears
      exact .openerHears hempty (fun t' ht' => hopen t' (by simp [ht'])) hears.2

theorem step_inv (l : Line) (m : Move) (h : Inv l) : Inv (step l m) := by
  cases m with
  | OpenerSends t => exact step_opener_sends l t h
  | AnswererSends t => exact step_answerer_sends l t h
  | ToAnswerer => exact step_to_answerer l h
  | ToOpener => exact step_to_opener l h

theorem inv_idle : Inv idle := ⟨.answererHears rfl rfl, by simp [idle], by simp [idle]⟩

theorem inv_after (moves : List Move) : Inv (Run.after step idle moves) :=
  Run.invariant_all step step_inv idle moves inv_idle

theorem Coupled.delivers {l : Line} (hc : Coupled l) :
    (∀ t ts, l.toAnswerer = t :: ts → (l.answerer.onIncoming t).1.isOk = true) ∧
    (∀ t ts, l.toOpener = t :: ts → (l.opener.onIncoming t).1.isOk = true) := by
  cases hc with
  | answererHears hempty hears =>
    refine ⟨fun t ts hto => ?_, fun t ts hto => by simp [hto] at hempty⟩
    rw [hto] at hears
    exact hears.1
  | openerHears hempty _ hears =>
    refine ⟨fun t ts hto => by simp [hto] at hempty, fun t ts hto => ?_⟩
    rw [hto] at hears
    exact hears.1

theorem dual_of_mirror (s : TurnState) (h : s ≠ .Failed) : Dual s (mirror s) := by
  cases s with
  | Idle => exact .idle
  | AwaitingTheirTurn x => exact .awaits x
  | OweThem x => exact .owes x
  | Failed => exact absurd rfl h

/-- After any moves, the next turn out of either channel is accepted, and with both channels empty
the two states are dual. -/
theorem lossless_agreement (moves : List Move) :
    let l := Run.after step idle moves
    (∀ t ts, l.toAnswerer = t :: ts → (l.answerer.onIncoming t).1.isOk = true) ∧
    (∀ t ts, l.toOpener = t :: ts → (l.opener.onIncoming t).1.isOk = true) ∧
    (l.toAnswerer = [] → l.toOpener = [] → Dual l.opener l.answerer) := by
  intro l
  have h : Inv l := inv_after moves
  refine ⟨h.coupled.delivers.1, h.coupled.delivers.2, fun ha ho => ?_⟩
  have hears := h.coupled.answerer_hears ho
  rw [ha, Hears] at hears
  rw [hears]
  exact dual_of_mirror _ h.opener

end Kamiroh.Channels
