import Kamiroh.Kameo.Tasks
import Kamiroh.Kameo.Verdicts

/-!
# The lines that feed a host

A delivery passes through the mailbox in the network, the pump and the mailbox of the host. The report of a
death passes through the queue of the watch, the task that watches and the mailbox of the host. In each of
these places what comes in goes out once and in order.
-/

namespace Kamiroh

namespace Fed

variable {P : Type} [Party P] {here : Address} {watch : WatchId} {fed : Fed P}

/-! ## The mailbox in the network -/

def Bound (fed : Fed P) : Prop := (fed.rt.net.mailboxes.lookup fed.here).isSome

instance (fed : Fed P) : Decidable fed.Bound := inferInstanceAs (Decidable (_ = true))

def Hosted (fed : Fed P) : Prop := fed.actor.host ≠ none

omit [Party P] in
theorem drawn_of_ne {a : Act P} (ha : ∀ waker, a ≠ .Poll waker) : fed.drawn a = [] := by
  unfold drawn
  split
  · exact absurd rfl (ha _)
  · rfl

omit [Party P] in
theorem drawn_prefix (fed : Fed P) (a : Act P) : fed.drawn a <+: fed.queue := by
  by_cases hpoll : ∀ waker, a ≠ .Poll waker
  · rw [drawn_of_ne hpoll]
    exact List.nil_prefix
  · obtain ⟨waker, rfl⟩ := not_forall_not.mp hpoll
    rcases fed.poll_cases waker with ⟨-, hnone⟩ | ⟨-, hnone, -⟩ | ⟨-, -, -, hnone, -, -, -⟩ |
      ⟨-, mailbox, delivery, queue, -, hdrawn, -, hqueue, hmailbox, -, -⟩
    · rw [hnone]
      exact List.nil_prefix
    · rw [hnone]
      exact List.nil_prefix
    · rw [hnone]
      exact List.nil_prefix
    · have hline : fed.queue = delivery :: queue := by rw [Fed.queue, hmailbox, Option.elim_some, hqueue]
      rw [hdrawn, hline]
      exact ⟨queue, rfl⟩

theorem mailbox_step (h : Sound here watch fed) {a : Act P} (ha : fed.Lawful a) (hbound : (fed.step a).Bound) :
    fed.Bound ∧ fed.drawn a ++ (fed.step a).queue = fed.queue ++ fed.arrived a := by
  have hhere : (fed.step a).here = fed.here := (h.step ha).here_eq.trans h.here_eq.symm
  obtain ⟨mailbox', hmailbox'⟩ := Option.isSome_iff_exists.mp hbound
  have hqueue' : (fed.step a).queue = mailbox'.queue := by rw [Fed.queue, hmailbox', Option.elim_some]
  rw [hhere] at hmailbox'
  unfold arrived
  rw [hqueue']
  have hfound : ∀ mailbox, fed.rt.net.mailboxes.lookup fed.here = some mailbox →
      fed.Bound ∧ fed.queue = mailbox.queue := by
    intro mailbox hmailbox
    unfold Bound queue
    rw [hmailbox]
    exact ⟨rfl, rfl⟩
  -- Nothing is taken.
  have hgrows : fed.drawn a = [] → (∃ mailbox, fed.rt.net.mailboxes.lookup fed.here = some mailbox ∧
      mailbox.queue <+: mailbox'.queue) →
      fed.Bound ∧ fed.drawn a ++ mailbox'.queue = fed.queue ++ mailbox'.queue.drop fed.queue.length := by
    rintro hdrawn ⟨mailbox, hmailbox, hstarts⟩
    obtain ⟨hbound, hqueue⟩ := hfound mailbox hmailbox
    refine ⟨hbound, ?_⟩
    rw [hdrawn, hqueue, List.nil_append]
    exact (List.prefix_iff_eq_append.mp hstarts).symm
  by_cases hpoll : ∀ waker, a ≠ .Poll waker
  · refine hgrows (drawn_of_ne hpoll) ?_
    by_cases hnext : ∀ waker, a ≠ .NextDeath waker
    · have hstays := h.stays_step ha hpoll hnext
      rw [h.here_eq] at hmailbox' ⊢
      exact hstays.grows.mailbox mailbox' hmailbox'
    · obtain ⟨waker, rfl⟩ := not_forall_not.mp hnext
      refine ⟨mailbox', ?_, List.prefix_rfl⟩
      rw [← hmailbox']
      rcases fed.nextDeath_cases waker with ⟨hsame, -⟩ | ⟨net, hnext, -, hmailboxes, -, -⟩ |
        ⟨net, endpoint, hnext, -, -, hmailboxes, -, -⟩
      · rw [step, hsame]
      · rw [step, hnext, ← hmailboxes]
        rfl
      · rw [step, hnext, ← hmailboxes]
        rfl
  · obtain ⟨waker, rfl⟩ := not_forall_not.mp hpoll
    rcases fed.poll_cases waker with ⟨hsame, hdrawn⟩ | ⟨hended, -, -⟩ |
      ⟨net, mailbox, hpending, hdrawn, hmailbox, -, hmailboxes⟩ |
      ⟨net, mailbox, delivery, queue, hready, hdrawn, -, hqueue, hmailbox, -, hmailboxes⟩
    · rw [step, hsame] at hmailbox'
      exact hgrows hdrawn ⟨mailbox', hmailbox', List.prefix_rfl⟩
    · rw [step, hended] at hmailbox'
      cases (AList.lookup_erase ..).symm.trans hmailbox'
    · rw [step, hpending] at hmailbox'
      have hkept : net.mailboxes.lookup fed.here = some mailbox' := hmailbox'
      rw [hmailboxes, AList.lookup_insert] at hkept
      cases hkept
      exact hgrows hdrawn ⟨mailbox, hmailbox, List.prefix_rfl⟩
    · rw [step, hready] at hmailbox'
      have hkept : net.mailboxes.lookup fed.here = some mailbox' := hmailbox'
      rw [hmailboxes, AList.lookup_insert] at hkept
      cases hkept
      obtain ⟨hbound, hline⟩ := hfound mailbox hmailbox
      refine ⟨hbound, ?_⟩
      rw [hdrawn, hline, hqueue]
      simp

theorem mailbox_line : Run.Line step Lawful (Sound here watch) Bound (queue (P := P)) drawn arrived where
  keeps _ _ h ha := h.step ha
  back _ _ h ha hbound := (mailbox_step h ha hbound).1
  moves _ _ h ha hbound := (mailbox_step h ha hbound).2
  last fed a _ _ _ := (fed.drawn_prefix a).trans (List.prefix_append ..)
  shut fed a _ _ hshut := by
    have hempty : fed.queue = [] := by
      unfold queue
      rw [Option.not_isSome_iff_eq_none.mp hshut]
      rfl
    exact List.prefix_nil.mp (hempty ▸ fed.drawn_prefix a)

/-! ## The mailbox of the host -/

omit [Party P] in
theorem hosted_iff (h : Sound here watch fed) : fed.Hosted ↔ fed.rt.roster here.name ≠ none := by
  rw [← h.name]
  exact not_congr Option.map_eq_none_iff

theorem hosted_back (h : Sound here watch fed) {a : Act P} (ha : fed.Lawful a) (hhosted : (fed.step a).Hosted) :
    fed.Hosted := by
  rw [hosted_iff (h.step ha)] at hhosted
  rw [hosted_iff h]
  rcases h.around ha with hstays | ⟨net, hrt, -⟩
  · exact fun hgone => hhosted (hstays.gone hgone)
  · rwa [hrt] at hhosted

omit [Party P] in
theorem told_of_gone (hgone : ¬ fed.Hosted) (a : Act P) : fed.told a = [] := if_pos (not_not.mp hgone)

omit [Party P] in
theorem told_of_hosted (hhosted : fed.Hosted) (a : Act P) : fed.told a = match a with
    | .Hand _ => fed.pump.held.map fun delivery => .Told (.Deliver delivery)
    | .TellNext => (fed.watching.next fed.actor.name).map fun endpoint => .Told (.PeerDied endpoint)
    | .Host (.Tell told) => [.Told told]
    | .Host (.Fire task) => if fed.actor.awake task then [.DeadlineElapsed task] else []
    | _ => [] := if_neg hhosted

omit [Party P] in
theorem handled_of_ne {a : Act P} (ha : a ≠ .Host .Handle) : fed.handled a = [] := by
  unfold handled
  split
  · exact absurd rfl ha
  · rfl

omit [Party P] in
theorem handled_of_gone (hgone : ¬ fed.Hosted) (a : Act P) : fed.handled a = [] := by
  unfold handled
  rw [not_not.mp hgone]

omit [Party P] in
theorem handled_prefix (fed : Fed P) (a : Act P) : fed.handled a <+: fed.actor.mailbox := by
  unfold handled
  split
  · cases fed.actor.mailbox with
    | nil => exact List.prefix_rfl
    | cons mail mailbox => exact ⟨mailbox, rfl⟩
  · exact List.nil_prefix

theorem told_step {a : Act P} (hhosted : fed.Hosted) (ha : a ≠ .Host .Handle) :
    (fed.step a).actor.mailbox = fed.actor.mailbox ++ fed.told a := by
  rw [told_of_hosted hhosted]
  cases a with
  | Poll waker =>
    dsimp only
    rw [List.append_nil, step]
    rcases fed.poll_cases waker with ⟨hsame, -⟩ | ⟨hended, -, -⟩ | ⟨net, mailbox, hpending, -⟩ |
      ⟨net, mailbox, delivery, queue, hready, -⟩
    · rw [hsame]
    · rw [hended]
      rfl
    · rw [hpending]
      rfl
    · rw [hready]
      rfl
  | Hand closed =>
    unfold step hand
    cases fed.pump with
    | Holding delivery =>
      have hthere : ¬ (fed.actor.host = none ∧ closed = true) := fun h => hhosted h.1
      dsimp only
      rw [if_neg hthere]
      rfl
    | Polling | Ended => exact (List.append_nil _).symm
  | Drop =>
    unfold step drop
    dsimp only
    rw [List.append_nil]
    split <;> rfl
  | NextDeath waker =>
    dsimp only
    rw [List.append_nil, step]
    rcases fed.nextDeath_cases waker with ⟨hsame, -⟩ | ⟨net, hnext, -⟩ | ⟨net, endpoint, hnext, -⟩
    · rw [hsame]
    · rw [hnext]
      rfl
    · rw [hnext]
      rfl
  | Snapshot names =>
    unfold step snapshot
    dsimp only
    rw [List.append_nil]
    split <;> rfl
  | TellNext =>
    unfold step tellNext Watching.next
    rcases fed.watching with _ | endpoint | ⟨endpoint, _ | ⟨name, names⟩⟩ | _
    case Telling.cons =>
      dsimp only
      by_cases hname : name = fed.actor.name
      · rw [if_pos ⟨hname, hhosted⟩, if_pos hname]
        rfl
      · rw [if_neg fun h => hname h.1, if_neg hname]
        exact (List.append_nil _).symm
    all_goals exact (List.append_nil _).symm
  | Host a =>
    cases a with
    | Handle => exact absurd rfl ha
    | Tell told => rfl
    | Fire task =>
      unfold step KameoActor.act KameoActor.exec
      dsimp only
      split
      · rfl
      · exact (List.append_nil _).symm
    | Stop | Rehash _ | Elsewhere _ => exact (List.append_nil _).symm
  | Elsewhere op clock roster => exact (List.append_nil _).symm

theorem host_step (fed : Fed P) (a : Act P) (hhosted : fed.Hosted) :
    fed.handled a ++ (fed.step a).actor.mailbox = fed.actor.mailbox ++ fed.told a := by
  by_cases ha : a = .Host .Handle
  · subst ha
    obtain ⟨host, hhost⟩ := Option.ne_none_iff_exists'.mp hhosted
    have hmailbox : (fed.step (.Host .Handle)).actor.mailbox = fed.actor.mailbox.tail :=
      KameoActor.mailbox_handle fed.actor
    have hhandled : fed.handled (.Host .Handle) = fed.actor.mailbox.head?.toList := by
      unfold handled
      rw [hhost]
    rw [told_of_hosted hhosted, hmailbox, hhandled, List.append_nil]
    cases fed.actor.mailbox <;> rfl
  · rw [handled_of_ne ha, told_step hhosted ha, List.nil_append]

theorem host_line : Run.Line step Lawful (Sound here watch) Hosted (fun fed : Fed P => fed.actor.mailbox) handled
    told where
  keeps _ _ h ha := h.step ha
  back _ _ h ha hhosted := hosted_back h ha hhosted
  moves fed a h ha hhosted := fed.host_step a (hosted_back h ha hhosted)
  last fed a _ _ _ := (fed.handled_prefix a).trans (List.prefix_append ..)
  shut _ a _ _ hgone := handled_of_gone hgone a

/-! ## The pump -/

omit [Party P] in
theorem told_delivery {a : Act P} (ha : fed.Lawful a) (hhosted : fed.Hosted) :
    (fed.told a).flatMap Mail.delivery = match a with
      | .Hand _ => fed.pump.held
      | _ => [] := by
  rw [told_of_hosted hhosted]
  cases a with
  | Hand closed =>
    unfold Pump.held
    cases fed.pump <;> rfl
  | TellNext =>
    unfold Watching.next
    rcases fed.watching with _ | endpoint | ⟨endpoint, _ | ⟨name, names⟩⟩ | _
    case Telling.cons =>
      dsimp only
      split <;> rfl
    all_goals rfl
  | Host a =>
    cases a with
    | Tell told =>
      cases told with
      | Deliver delivery => exact absurd ha not_false
      | Admit _ | Revoke _ | PeerDied _ => rfl
    | Fire task =>
      dsimp only
      split <;> rfl
    | Handle | Stop | Rehash _ | Elsewhere _ => rfl
  | Poll _ | Drop | NextDeath _ | Snapshot _ | Elsewhere _ _ _ => rfl

theorem pump_step (h : Sound here watch fed) {a : Act P} (ha : fed.Lawful a) (hhosted : (fed.step a).Hosted) :
    (fed.told a).flatMap Mail.delivery ++ (fed.step a).pump.held = fed.pump.held ++ fed.drawn a := by
  have hbefore := hosted_back h ha hhosted
  rw [told_delivery ha hbefore]
  cases a with
  | Poll waker =>
    rw [List.nil_append, step]
    rcases fed.poll_cases waker with ⟨hsame, hdrawn⟩ | ⟨hended, hdrawn, hpump⟩ |
      ⟨net, mailbox, hpending, hdrawn, -⟩ | ⟨net, mailbox, delivery, queue, hready, hdrawn, hpump, -⟩
    · rw [hsame, hdrawn, List.append_nil]
    · rw [hended, hdrawn, hpump]
      rfl
    · rw [hpending, hdrawn, List.append_nil]
      rfl
    · rw [hready, hdrawn, hpump]
      rfl
  | Hand closed =>
    unfold step hand
    cases hpump : fed.pump with
    | Holding delivery =>
      have hthere : ¬ (fed.actor.host = none ∧ closed = true) := fun h => hbefore h.1
      dsimp only
      rw [if_neg hthere]
      rfl
    | Polling | Ended =>
      dsimp only
      rw [hpump]
      rfl
  | Drop =>
    have hkept : ⟨fed.here⟩ ∉ fed.rt.aborted := fun haborted =>
      (hosted_iff h).mp hbefore (h.aborted (h.here_eq ▸ haborted))
    unfold step drop
    dsimp only
    rw [if_neg fun hdropped => hkept hdropped.2]
    exact (List.append_nil _).symm
  | NextDeath waker =>
    rw [List.nil_append, step]
    rcases fed.nextDeath_cases waker with ⟨hsame, -⟩ | ⟨net, hnext, -⟩ | ⟨net, endpoint, hnext, -⟩
    · rw [hsame]
      exact (List.append_nil _).symm
    · rw [hnext]
      exact (List.append_nil _).symm
    · rw [hnext]
      exact (List.append_nil _).symm
  | Snapshot names =>
    unfold step snapshot
    dsimp only
    split <;> exact (List.append_nil _).symm
  | TellNext =>
    unfold step tellNext
    dsimp only
    split
    · split <;> exact (List.append_nil _).symm
    all_goals exact (List.append_nil _).symm
  | Host a => exact (List.append_nil _).symm
  | Elsewhere op clock roster => exact (List.append_nil _).symm

theorem pump_line : Run.Line step Lawful (Sound here watch) Hosted (fun fed : Fed P => fed.pump.held)
    (fun fed a => (fed.told a).flatMap Mail.delivery) drawn where
  keeps _ _ h ha := h.step ha
  back _ _ h ha hhosted := hosted_back h ha hhosted
  moves _ _ h ha hhosted := pump_step h ha hhosted
  last fed a _ ha hhosted := by
    rw [told_delivery ha hhosted]
    split
    · exact List.prefix_append ..
    · exact List.nil_prefix
  shut _ a _ _ hgone := by rw [told_of_gone hgone, List.flatMap_nil]

/-! ## The death watch -/

end Fed

end Kamiroh
