import Mathlib.Data.Multiset.Basic
import Kamiroh.Protocol

/-!
# Two machines on a network that loses, delays and reorders

Either side may fail and open again at its own moment, so stragglers of several dead exchanges can
be in flight. The one assumption is that no request id is posed twice.
-/

namespace Kamiroh.Transcripts

open TurnState

/-! ## Runs -/

inductive Side
  | Left
  | Right
deriving DecidableEq

def Side.other : Side → Side
  | Left => Right
  | Right => Left

@[simp] theorem Side.other_other (s : Side) : s.other.other = s := by cases s <;> rfl

/-- What happens to the two machines. `Refuse` is a delivery that the receiver drops. -/
inductive Act
  | Send (sender : Side) (turn : Turn)
  | Fail (side : Side)
  | Accept (receiver : Side) (turn : Turn)
  | Refuse (receiver : Side) (turn : Turn)
  | Lose (receiver : Side) (turn : Turn)
deriving DecidableEq

/-- The two machines, and the turns on their way to each side, in no order. -/
structure Pair where
  machine : Side → TurnState
  flight : Side → Multiset Turn

def start : Pair := ⟨fun _ => .Idle, fun _ => 0⟩

inductive Step (p : Pair) : Act → Pair → Prop
  | send (s : Side) (t : Turn) (progress : TurnProgress)
      (h : ((p.machine s).onOutgoing t).1 = .ok progress) :
      Step p (.Send s t)
        { machine := Function.update p.machine s ((p.machine s).onOutgoing t).2
          flight := Function.update p.flight s.other (t ::ₘ p.flight s.other) }
  | fail (s : Side) :
      Step p (.Fail s) { p with machine := Function.update p.machine s (p.machine s).fail.2 }
  | accept (s : Side) (t : Turn) (hin : t ∈ p.flight s) (progress : TurnProgress)
      (h : ((p.machine s).onIncoming t).1 = .ok progress) :
      Step p (.Accept s t)
        { machine := Function.update p.machine s ((p.machine s).onIncoming t).2
          flight := Function.update p.flight s ((p.flight s).erase t) }
  | refuse (s : Side) (t : Turn) (hin : t ∈ p.flight s) (error : TurnError)
      (h : ((p.machine s).onIncoming t).1 = .error error) :
      Step p (.Refuse s t)
        { machine := Function.update p.machine s ((p.machine s).onIncoming t).2
          flight := Function.update p.flight s ((p.flight s).erase t) }
  | lose (s : Side) (t : Turn) (hin : t ∈ p.flight s) :
      Step p (.Lose s t) { p with flight := Function.update p.flight s ((p.flight s).erase t) }

inductive Run : List Act → Pair → Prop
  | start : Run [] start
  | step {acts : List Act} {p p' : Pair} {a : Act} (h : Run acts p) (hstep : Step p a p') :
      Run (acts ++ [a]) p'

/-! ## Histories -/

def posedIds (acts : List Act) : List RequestId :=
  acts.filterMap fun
    | .Send _ t => t.posed
    | _ => none

/-- One more act of `s`'s history: an `Open` starts a new transcript, another turn continues it. -/
def record (s : Side) (transcript : List (Side × Turn)) : Act → List (Side × Turn)
  | .Send s' (.Open r) => if s' = s then [(s, .Open r)] else transcript
  | .Send s' t => if s' = s then transcript ++ [(s, t)] else transcript
  | .Accept s' (.Open r) => if s' = s then [(s.other, .Open r)] else transcript
  | .Accept s' t => if s' = s then transcript ++ [(s.other, t)] else transcript
  | .Fail _ | .Refuse .. | .Lose .. => transcript

/-- What `s` has seen of its latest exchange, from the `Open` on: who said which turn. -/
def transcript (s : Side) (acts : List Act) : List (Side × Turn) := acts.foldl (record s) []

@[simp] theorem transcript_snoc (s : Side) (acts : List Act) (a : Act) :
    transcript s (acts ++ [a]) = record s (transcript s acts) a := by
  simp [transcript, List.foldl_append]

def extend (speaker : Side) (transcript : List (Side × Turn)) (t : Turn) : List (Side × Turn) :=
  match t with
  | .Open r => [(speaker, .Open r)]
  | t => transcript ++ [(speaker, t)]

theorem record_send (s s' : Side) (l : List (Side × Turn)) (t : Turn) :
    record s l (.Send s' t) = if s' = s then extend s' l t else l := by
  by_cases hs : s' = s
  · subst hs
    cases t <;> rfl
  · cases t <;> simp [record, hs]

theorem record_accept (s s' : Side) (l : List (Side × Turn)) (t : Turn) :
    record s l (.Accept s' t) = if s' = s then extend s'.other l t else l := by
  by_cases hs : s' = s
  · subst hs
    cases t <;> rfl
  · cases t <;> simp [record, hs]

def FromOpen (transcript : List (Side × Turn)) : Prop :=
  ∃ speaker r rest, transcript = (speaker, .Open r) :: rest

theorem fromOpen_extend {l : List (Side × Turn)} {t : Turn} (speaker : Side)
    (h : (∃ r, t = .Open r) ∨ FromOpen l) : FromOpen (extend speaker l t) := by
  rcases h with ⟨r, rfl⟩ | ⟨speaker', r, rest, rfl⟩
  · exact ⟨speaker, r, [], rfl⟩
  · cases t with
    | Open r' => exact ⟨speaker, r', [], rfl⟩
    | Continue a r' => exact ⟨speaker', r, rest ++ [(speaker, .Continue a r')], rfl⟩
    | Close a => exact ⟨speaker', r, rest ++ [(speaker, .Close a)], rfl⟩

/-- `s` sent `t` at some point of the run, and `l` was then its transcript, with `t` at the end. -/
def Sent (acts : List Act) (s : Side) (t : Turn) (l : List (Side × Turn)) : Prop :=
  ∃ pre post, acts = pre ++ .Send s t :: post ∧ transcript s (pre ++ [.Send s t]) = l

def Posed (acts : List Act) (x : RequestId) (s : Side) (l : List (Side × Turn)) : Prop :=
  ∃ t, t.posed = some x ∧ Sent acts s t l

theorem Sent.snoc {acts : List Act} {s : Side} {t : Turn} {l : List (Side × Turn)}
    (h : Sent acts s t l) (a : Act) : Sent (acts ++ [a]) s t l := by
  obtain ⟨pre, post, rfl, hl⟩ := h
  exact ⟨pre, post ++ [a], by simp, hl⟩

theorem Posed.snoc {acts : List Act} {x : RequestId} {s : Side} {l : List (Side × Turn)}
    (h : Posed acts x s l) (a : Act) : Posed (acts ++ [a]) x s l := by
  obtain ⟨t, ht, hs⟩ := h
  exact ⟨t, ht, hs.snoc a⟩

theorem sent_last (acts : List Act) (s : Side) (t : Turn) :
    Sent (acts ++ [.Send s t]) s t (extend s (transcript s acts) t) :=
  ⟨acts, [], rfl, by rw [transcript_snoc, record_send, if_pos rfl]⟩

theorem posed_place_unique {pre pre' post post' : List Act} {s s' : Side} {t t' : Turn} {x : RequestId}
    (h : pre ++ .Send s t :: post = pre' ++ .Send s' t' :: post') (ht : t.posed = some x)
    (ht' : t'.posed = some x) (hn : (posedIds (pre ++ .Send s t :: post)).Nodup) :
    pre = pre' ∧ s = s' ∧ t = t' := by
  induction pre generalizing pre' with
  | nil =>
    cases pre' with
    | nil => simp_all
    | cons a pre' =>
      exfalso
      simp only [List.nil_append, List.cons_append, List.cons.injEq] at h
      obtain ⟨rfl, rfl⟩ := h
      simp [posedIds, ht, ht'] at hn
  | cons a pre ih =>
    cases pre' with
    | nil =>
      exfalso
      simp only [List.nil_append, List.cons_append, List.cons.injEq] at h
      obtain ⟨rfl, rfl⟩ := h
      simp [posedIds, ht, ht'] at hn
    | cons a' pre' =>
      simp only [List.cons_append, List.cons.injEq] at h
      obtain ⟨rfl, h⟩ := h
      have hn' : (posedIds (pre ++ .Send s t :: post)).Nodup :=
        hn.sublist ((List.sublist_cons_self _ _).filterMap _)
      obtain ⟨rfl, hs, ht⟩ := ih h hn'
      exact ⟨rfl, hs, ht⟩

theorem Posed.unique {acts : List Act} {x : RequestId} {s s' : Side} {l l' : List (Side × Turn)}
    (h : Posed acts x s l) (h' : Posed acts x s' l') (hn : (posedIds acts).Nodup) :
    s = s' ∧ l = l' := by
  obtain ⟨t, ht, pre, post, rfl, hl⟩ := h
  obtain ⟨t', ht', pre', post', hacts, hl'⟩ := h'
  obtain ⟨rfl, rfl, rfl⟩ := posed_place_unique hacts ht ht' hn
  exact ⟨rfl, hl.symm.trans hl'⟩

/-! ## The invariant -/

/-- A turn in flight to `s` was sent by the other side. If it answers `x`, then its sender had heard
`s` pose `x`, and had seen the same exchange up to there. -/
def Traced (acts : List Act) (s : Side) (t : Turn) : Prop :=
  ∃ l, Sent acts s.other t (extend s.other l t) ∧
    ∀ a, t.response = some a → Posed acts a.id s l

structure Inv (acts : List Act) (p : Pair) : Prop where
  opened : ∀ s, (p.machine s).live = true → FromOpen (transcript s acts)
  awaits : ∀ s x, p.machine s = .AwaitingTheirTurn x → Posed acts x s (transcript s acts)
  owes : ∀ s x, p.machine s = .OweThem x → Posed acts x s.other (transcript s acts)
  flight : ∀ s, ∀ t ∈ p.flight s, Traced acts s t

theorem Traced.snoc {acts : List Act} {s : Side} {t : Turn} (h : Traced acts s t) (a : Act) :
    Traced (acts ++ [a]) s t := by
  obtain ⟨l, hsent, hposed⟩ := h
  exact ⟨l, hsent.snoc a, fun r hr => (hposed r hr).snoc a⟩

theorem inv_start : Inv [] start :=
  ⟨by simp [start], by simp [start], by simp [start], by simp [start]⟩

theorem posed_of_afterTurn {waiter : RequestId → TurnState} {t : Turn} {s : TurnState}
    (h : afterTurn waiter t = s) (hs : s ≠ .Idle) : ∃ x, t.posed = some x ∧ waiter x = s := by
  unfold afterTurn at h
  split at h
  case h_1 x hx => exact ⟨x, hx, h⟩
  case h_2 => exact absurd h.symm hs

/-- What the receiver's transcript becomes is what the sender's was, when it sent the turn. -/
theorem accepted_was_sent {acts : List Act} {p : Pair} (hinv : Inv acts p)
    (hn : (posedIds acts).Nodup) {s : Side} {t : Turn} (hin : t ∈ p.flight s)
    {progress : TurnProgress} (h : ((p.machine s).onIncoming t).1 = .ok progress) :
    Sent acts s.other t (extend s.other (transcript s acts) t) := by
  obtain ⟨l, hsent, hposed⟩ := hinv.flight s t hin
  -- An answer meets the request that `s` waits on, and that request was posed only once.
  have hanswer : ∀ a : Response, t.response = some a → p.machine s = .AwaitingTheirTurn a.id →
      l = transcript s acts := fun a ha hm =>
    ((hposed a ha).unique (hinv.awaits s a.id hm) hn).2
  rcases (onIncoming_ok_iff _ t progress).mp h with ⟨r, -⟩ | ⟨a, r, hm⟩ | ⟨a, hm⟩
  · exact hsent
  · rw [← hanswer a rfl hm]; exact hsent
  · rw [← hanswer a rfl hm]; exact hsent

theorem accepted_fromOpen {acts : List Act} {p : Pair} (hinv : Inv acts p) {s : Side} {t : Turn}
    {progress : TurnProgress} (h : ((p.machine s).onIncoming t).1 = .ok progress) :
    FromOpen (extend s.other (transcript s acts) t) :=
  fromOpen_extend s.other
    ((((onIncoming_ok_iff _ t progress).mp h).opens_or_live fun _ => rfl).imp_right (hinv.opened s))

theorem mem_of_mem_taken {flight : Side → Multiset Turn} {s s' : Side} {t t' : Turn}
    (h : t' ∈ Function.update flight s ((flight s).erase t) s') : t' ∈ flight s' := by
  by_cases hs : s' = s
  · subst hs
    rw [Function.update_self] at h
    exact Multiset.mem_of_mem_erase h
  · rwa [Function.update_of_ne hs] at h

theorem inv_taken {acts : List Act} {p : Pair} {a : Act} (hinv : Inv acts p) (s : Side) (t : Turn)
    (ha : ∀ s', record s' (transcript s' acts) a = transcript s' acts) :
    Inv (acts ++ [a]) { p with flight := Function.update p.flight s ((p.flight s).erase t) } := by
  refine ⟨fun s' hs' => ?_, fun s' x hx => ?_, fun s' x hx => ?_, fun s' t' ht' => ?_⟩
  · rw [transcript_snoc, ha]
    exact hinv.opened s' hs'
  · rw [transcript_snoc, ha]
    exact (hinv.awaits s' x hx).snoc _
  · rw [transcript_snoc, ha]
    exact (hinv.owes s' x hx).snoc _
  · exact (hinv.flight s' t' (mem_of_mem_taken ht')).snoc _

theorem inv_moved {acts : List Act} {p : Pair} {a : Act} (hinv : Inv acts p) (s speaker : Side)
    (t : Turn) (state : TurnState) (flight : Side → Multiset Turn)
    (ha : ∀ s' l, record s' l a = if s = s' then extend speaker l t else l)
    (hopened : FromOpen (extend speaker (transcript s acts) t))
    (hawaits : ∀ x, state = .AwaitingTheirTurn x →
      Posed (acts ++ [a]) x s (extend speaker (transcript s acts) t))
    (howes : ∀ x, state = .OweThem x →
      Posed (acts ++ [a]) x s.other (extend speaker (transcript s acts) t))
    (hflight : ∀ s', ∀ t' ∈ flight s', Traced (acts ++ [a]) s' t') :
    Inv (acts ++ [a]) { machine := Function.update p.machine s state, flight := flight } := by
  refine ⟨fun s' hs' => ?_, fun s' x hx => ?_, fun s' x hx => ?_, hflight⟩
  all_goals
    rw [transcript_snoc, ha]
    by_cases hs : s = s'
  · subst hs
    rwa [if_pos rfl]
  · simp only [Function.update_of_ne (Ne.symm hs)] at hs'
    rw [if_neg hs]
    exact hinv.opened s' hs'
  · subst hs
    simp only [Function.update_self] at hx
    rw [if_pos rfl]
    exact hawaits x hx
  · simp only [Function.update_of_ne (Ne.symm hs)] at hx
    rw [if_neg hs]
    exact (hinv.awaits s' x hx).snoc _
  · subst hs
    simp only [Function.update_self] at hx
    rw [if_pos rfl]
    exact howes x hx
  · simp only [Function.update_of_ne (Ne.symm hs)] at hx
    rw [if_neg hs]
    exact (hinv.owes s' x hx).snoc _

theorem inv_send {acts : List Act} {p : Pair} (hinv : Inv acts p) (s : Side) (t : Turn)
    (progress : TurnProgress) (h : ((p.machine s).onOutgoing t).1 = .ok progress) :
    Inv (acts ++ [.Send s t])
      { machine := Function.update p.machine s ((p.machine s).onOutgoing t).2
        flight := Function.update p.flight s.other (t ::ₘ p.flight s.other) } := by
  have hlegal := (onOutgoing_ok_iff _ t progress).mp h
  rw [onOutgoing_state _ t progress h]
  refine inv_moved hinv s s t _ _ (fun s' l => record_send s' s l t) ?_ (fun x hx => ?_)
    (fun x hx => ?_) (fun s' t' ht' => ?_)
  · exact fromOpen_extend s ((hlegal.opens_or_live fun _ => rfl).imp_right (hinv.opened s))
  · obtain ⟨y, hy, hyx⟩ := posed_of_afterTurn hx (by simp)
    cases hyx
    exact ⟨t, hy, sent_last acts s t⟩
  · obtain ⟨y, -, hyx⟩ := posed_of_afterTurn hx (by simp)
    cases hyx
  · by_cases hs : s' = s.other
    · subst hs
      simp only [Function.update_self, Multiset.mem_cons] at ht'
      rcases ht' with rfl | ht'
      · -- The new turn: its sender owed the answer that the turn carries.
        refine ⟨transcript s acts, ?_, fun a ha => ?_⟩
        · rw [Side.other_other]
          exact sent_last acts s t'
        · rcases hlegal with ⟨r, -⟩ | ⟨b, r, hm⟩ | ⟨b, hm⟩
          · cases ha
          · cases ha
            exact (hinv.owes s a.id hm).snoc _
          · cases ha
            exact (hinv.owes s a.id hm).snoc _
      · exact (hinv.flight _ t' ht').snoc _
    · simp only [Function.update_of_ne hs] at ht'
      exact (hinv.flight s' t' ht').snoc _

theorem inv_fail {acts : List Act} {p : Pair} (hinv : Inv acts p) (s : Side) :
    Inv (acts ++ [.Fail s])
      { p with machine := Function.update p.machine s (p.machine s).fail.2 } := by
  have hmachine : ∀ s' state, state.live = true →
      Function.update p.machine s (p.machine s).fail.2 s' = state → p.machine s' = state := by
    intro s' state hlive hs'
    by_cases hs : s' = s
    · subst hs
      rw [Function.update_self] at hs'
      rw [← hs', fail_not_live] at hlive
      cases hlive
    · rwa [Function.update_of_ne hs] at hs'
  refine ⟨fun s' hs' => ?_, fun s' x hx => ?_, fun s' x hx => ?_,
    fun s' t' ht' => (hinv.flight s' t' ht').snoc _⟩
  · rw [transcript_snoc]
    exact hinv.opened s' (hmachine s' _ hs' rfl ▸ hs')
  · rw [transcript_snoc]
    exact (hinv.awaits s' x (hmachine s' _ rfl hx)).snoc _
  · rw [transcript_snoc]
    exact (hinv.owes s' x (hmachine s' _ rfl hx)).snoc _

theorem inv_accept {acts : List Act} {p : Pair} (hinv : Inv acts p) (hn : (posedIds acts).Nodup)
    (s : Side) (t : Turn) (hin : t ∈ p.flight s) (progress : TurnProgress)
    (h : ((p.machine s).onIncoming t).1 = .ok progress) :
    Inv (acts ++ [.Accept s t])
      { machine := Function.update p.machine s ((p.machine s).onIncoming t).2
        flight := Function.update p.flight s ((p.flight s).erase t) } := by
  have hsent := accepted_was_sent hinv hn hin h
  rw [onIncoming_state _ t progress h]
  refine inv_moved hinv s s.other t _ _ (fun s' l => record_accept s' s l t)
    (accepted_fromOpen hinv h) (fun x hx => ?_) (fun x hx => ?_) (fun s' t' ht' => ?_)
  · obtain ⟨y, -, hyx⟩ := posed_of_afterTurn hx (by simp)
    cases hyx
  · obtain ⟨y, hy, hyx⟩ := posed_of_afterTurn hx (by simp)
    cases hyx
    exact ⟨t, hy, hsent.snoc _⟩
  · exact (hinv.flight s' t' (mem_of_mem_taken ht')).snoc _

theorem step_inv {acts : List Act} {p p' : Pair} {a : Act} (hinv : Inv acts p)
    (hn : (posedIds acts).Nodup) (hstep : Step p a p') : Inv (acts ++ [a]) p' := by
  cases hstep with
  | send s t progress h => exact inv_send hinv s t progress h
  | fail s => exact inv_fail hinv s
  | accept s t hin progress h => exact inv_accept hinv hn s t hin progress h
  | refuse s t hin error h =>
    rw [onIncoming_refused _ t error h, Function.update_eq_self]
    exact inv_taken hinv s t fun _ => rfl
  | lose s t hin => exact inv_taken hinv s t fun _ => rfl

theorem nodup_of_append {acts acts' : List Act} (hn : (posedIds (acts ++ acts')).Nodup) :
    (posedIds acts).Nodup :=
  hn.sublist ((List.sublist_append_left acts acts').filterMap _)

theorem Run.inv {acts : List Act} {p : Pair} (hrun : Run acts p) (hn : (posedIds acts).Nodup) :
    Inv acts p := by
  induction hrun with
  | start => exact inv_start
  | step _ hstep ih => exact step_inv (ih (nodup_of_append hn)) (nodup_of_append hn) hstep

/-! ## Agreement -/

theorem Run.at {pre post : List Act} {a : Act} {p : Pair} (hrun : Run (pre ++ a :: post) p) :
    ∃ q q', Run pre q ∧ Step q a q' := by
  generalize hacts : pre ++ a :: post = acts at hrun
  induction hrun generalizing post with
  | start => simp at hacts
  | @step acts q q' b hrun hstep ih =>
    rcases List.eq_nil_or_concat post with rfl | ⟨post, c, rfl⟩
    · obtain ⟨rfl, hb⟩ := List.append_inj' hacts rfl
      cases hb
      exact ⟨q, q', hrun, hstep⟩
    · rw [List.concat_eq_append, ← List.cons_append, ← List.append_assoc] at hacts
      exact ih (List.append_inj' hacts rfl).1

/-- Whenever a side accepts a turn, the other side sent exactly that turn before, and its transcript
then, from the `Open` on, was what the receiver's transcript is now. -/
theorem transcript_agreement {acts : List Act} {p : Pair} (hrun : Run acts p)
    (hn : (posedIds acts).Nodup) (pre post : List Act) (s : Side) (t : Turn)
    (h : acts = pre ++ .Accept s t :: post) :
    ∃ before between, pre = before ++ .Send s.other t :: between ∧
      transcript s (pre ++ [.Accept s t]) = transcript s.other (before ++ [.Send s.other t]) ∧
      FromOpen (transcript s (pre ++ [.Accept s t])) := by
  subst h
  obtain ⟨q, q', hpre, hstep⟩ := hrun.at
  have hn' := nodup_of_append hn
  cases hstep with
  | accept _ _ hin progress hok =>
    obtain ⟨before, between, hacts, hl⟩ := accepted_was_sent (hpre.inv hn') hn' hin hok
    rw [transcript_snoc, record_accept, if_pos rfl]
    exact ⟨before, between, hacts, hl.symm, accepted_fromOpen (hpre.inv hn') hok⟩

/-- Left opens, gives up and opens again while its first `Open` is lost. The answer to the second one
is accepted. -/
theorem transcript_agreement_reopened :
    let x : Request := ⟨⟨Vector.replicate 16 1⟩, []⟩
    let y : Request := ⟨⟨Vector.replicate 16 2⟩, []⟩
    let pre := [.Send .Left (.Open x), .Fail .Left, .Send .Left (.Open y), .Accept .Right (.Open y),
      .Send .Right (.Close ⟨y.id, []⟩)]
    ∃ before between, pre = before ++ .Send .Right (.Close ⟨y.id, []⟩) :: between ∧
      transcript .Left (pre ++ [.Accept .Left (.Close ⟨y.id, []⟩)]) =
        transcript .Right (before ++ [.Send .Right (.Close ⟨y.id, []⟩)]) ∧
      FromOpen (transcript .Left (pre ++ [.Accept .Left (.Close ⟨y.id, []⟩)])) := by
  intro x y pre
  have h1 := Run.start.step (.send .Left (.Open x) .Continuing rfl)
  have h2 := h1.step (.fail .Left)
  have h3 := h2.step (.send .Left (.Open y) .Continuing rfl)
  have h4 := h3.step (.accept .Right (.Open y) (by decide) .Continuing rfl)
  have h5 := h4.step (.send .Right (.Close ⟨y.id, []⟩) .Concluded rfl)
  have h6 := h5.step (.accept .Left (.Close ⟨y.id, []⟩) (by decide) .Concluded rfl)
  exact transcript_agreement h6 (by decide) pre [] .Left (.Close ⟨y.id, []⟩) rfl

end Kamiroh.Transcripts
