import Kamiroh.Mailboxes

/-!
# Wakeups in the network

A receiver that has nothing to take leaves a waker behind. The operation that has something for it takes
the waker in its critical section, and wakes it when it is out of the section.
-/

namespace Kamiroh.Shared

/-! ## The wakers that an operation takes -/

/-- What one critical section takes, in the order in which the operation wakes it. -/
def taken (net : Shared) : Op → List Waker
  | .Send origin target message => (net.send origin target message).2.2
  | .OpenMany origin toEndpoint toNames request =>
    (net.openMany origin toEndpoint toNames request).2.2
  | .Heal a b => (net.heal a b).2
  | .KillMailboxes endpoint => (net.killMailboxes endpoint).2
  | .PushDeath endpoint watch => (net.pushDeath endpoint watch).2
  | .Register _ | .Drop _ | .Partition _ _ | .DeathWatch | .PollNext _ _ | .PollDeath _ _ => []

/-! ## Receivers -/

inductive Receiver
  | Inbox (inbox : MemoryInbox)
  | Watch (watch : WatchId)
deriving DecidableEq

namespace Receiver

def poll (waker : Waker) : Receiver → Op
  | Inbox inbox => .PollNext inbox waker
  | Watch watch => .PollDeath watch waker

/-- The receiver is there, and a poll of it is pending. -/
def Pending (net : Shared) (waker : Waker) : Receiver → Prop
  | Inbox inbox => (net.pollNext inbox waker).1 = .Pending
  | Watch watch => watch < net.deathWatchers.length ∧ (net.pollDeath watch waker).1 = .Pending

/-- Its mailbox holds a delivery or is gone, or its queue holds a death. -/
def Ready (net : Shared) : Receiver → Prop
  | Inbox inbox =>
    ∀ mailbox, net.mailboxes.lookup inbox.address = some mailbox → mailbox.queue ≠ []
  | Watch watch => net.deaths watch ≠ []

/-- There is nothing for it, and its waker is in place. -/
def Waits (net : Shared) (waker : Waker) : Receiver → Prop
  | Inbox inbox => net.mailboxes.lookup inbox.address = some ⟨[], some waker⟩
  | Watch watch => net.deathWatchers[watch]? = some ⟨[], some waker⟩

/-- What only the holder of the receiver does, and a registration that gives its address to another. -/
def Own (net : Shared) : Receiver → Op → Prop
  | Inbox inbox, .PollNext inbox' _ => inbox' = inbox
  | Inbox inbox, .Drop inbox' => inbox' = inbox
  | Inbox inbox, .Register address =>
    address = inbox.address ∧ net.mailboxes.lookup address = none
  | Watch watch, .PollDeath watch' _ => watch' = watch
  | _, _ => False

variable {net net' net'' : Shared} {waker : Waker}

theorem Waits.not_ready {r : Receiver} (h : r.Waits net waker) : ¬ r.Ready net := by
  cases r with
  | Inbox inbox => exact fun hready => hready _ h rfl
  | Watch watch =>
    intro hready
    simp only [Waits] at h
    simp [Ready, deaths, h] at hready

theorem Pending.waits {r : Receiver} (h : r.Pending net waker) : r.Waits (net.run (r.poll waker)) waker := by
  cases r with
  | Inbox inbox =>
    simp only [Pending, pollNext] at h
    simp only [Waits, poll, run, pollNext]
    split at h
    · cases h
    · rename_i mailbox hmailbox
      split at h
      · cases h
      · rename_i hqueue
        simp [hqueue]
  | Watch watch =>
    obtain ⟨hlt, h⟩ := h
    simp only [pollDeath, List.getElem?_eq_getElem hlt] at h
    simp only [Waits, poll, run, pollDeath, List.getElem?_eq_getElem hlt]
    split at h
    · cases h
    · rename_i hqueue
      simp [hqueue, hlt]

/-! ## What one operation does to a receiver -/

/-- One that waits goes on waiting, or is ready and its waker is taken. One that is ready stays so. -/
structure Kept (r : Receiver) (waker : Waker) (net net' : Shared) (wakers : List Waker) : Prop where
  waits : r.Waits net waker → r.Waits net' waker ∨ r.Ready net' ∧ waker ∈ wakers
  ready : r.Ready net → r.Ready net'

variable {r : Receiver} {wakers wakers' : List Waker}

theorem Kept.trans (h : r.Kept waker net net' wakers) (h' : r.Kept waker net' net'' wakers') :
    r.Kept waker net net'' (wakers ++ wakers') := by
  refine ⟨fun hwaits => ?_, fun hready => h'.ready (h.ready hready)⟩
  rcases h.waits hwaits with hwaits | ⟨hready, hmem⟩
  · rcases h'.waits hwaits with hwaits | ⟨hready, hmem⟩
    · exact Or.inl hwaits
    · exact Or.inr ⟨hready, List.mem_append_right _ hmem⟩
  · exact Or.inr ⟨h'.ready hready, List.mem_append_left _ hmem⟩

theorem Kept.inbox_same {inbox : MemoryInbox}
    (h : net'.mailboxes.lookup inbox.address = net.mailboxes.lookup inbox.address) :
    (Inbox inbox).Kept waker net net' wakers := by
  refine ⟨fun hwaits => Or.inl ?_, fun hready => ?_⟩
  · simpa only [Waits, h] using hwaits
  · simpa only [Ready, h] using hready

theorem Kept.watch_same {watch : WatchId}
    (h : net'.deathWatchers[watch]? = net.deathWatchers[watch]?) :
    (Watch watch).Kept waker net net' wakers := by
  refine ⟨fun hwaits => Or.inl ?_, fun hready => ?_⟩
  · simpa only [Waits, h] using hwaits
  · simpa only [Ready, deaths, h] using hready

theorem Kept.same (hmailboxes : net'.mailboxes = net.mailboxes)
    (hdeaths : net'.deathWatchers = net.deathWatchers) : r.Kept waker net net' wakers := by
  cases r with
  | Inbox inbox => exact .inbox_same (by rw [hmailboxes])
  | Watch watch => exact .watch_same (by rw [hdeaths])

theorem kept_push (r : Receiver) (waker : Waker) (net : Shared) (delivery : Delivery) :
    r.Kept waker net (net.push delivery).1 (net.push delivery).2 := by
  cases r with
  | Watch watch => exact .watch_same (by rw [push_deathWatchers])
  | Inbox inbox =>
    by_cases haddress : delivery.target = inbox.address
    · refine ⟨fun hwaits => Or.inr ⟨fun mailbox hmailbox => ?_, ?_⟩, fun hready mailbox hmailbox => ?_⟩
      · rw [push_lookup, hwaits, Option.map_some, if_pos haddress] at hmailbox
        cases hmailbox
        simp
      · have hlookup : net.mailboxes.lookup delivery.target = some ⟨[], some waker⟩ := haddress ▸ hwaits
        simp [push, hlookup]
      · rw [push_lookup] at hmailbox
        obtain ⟨mailbox', -, rfl⟩ := Option.map_eq_some_iff.mp hmailbox
        simp [haddress]
    · apply Kept.inbox_same
      simp [push_lookup, haddress]

theorem kept_pushAll (r : Receiver) (waker : Waker) (net : Shared) (deliveries : List Delivery) :
    r.Kept waker net (net.pushAll deliveries).1 (net.pushAll deliveries).2 := by
  induction deliveries generalizing net with
  | nil => exact ⟨Or.inl, id⟩
  | cons delivery deliveries ih => exact (kept_push r waker net delivery).trans (ih _)

theorem kept_killMailboxes (r : Receiver) (waker : Waker) (net : Shared) (endpoint : EndpointId) :
    r.Kept waker net (net.killMailboxes endpoint).1 (net.killMailboxes endpoint).2 := by
  cases r with
  | Watch watch => exact .watch_same rfl
  | Inbox inbox =>
    by_cases hendpoint : inbox.address.endpoint = endpoint
    · have hgone : (Inbox inbox).Ready (net.killMailboxes endpoint).1 := by
        intro mailbox hmailbox
        rw [killMailboxes_lookup, if_pos hendpoint] at hmailbox
        cases hmailbox
      refine ⟨fun hwaits => Or.inr ⟨hgone, ?_⟩, fun _ => hgone⟩
      refine List.mem_filterMap.mpr ⟨inbox.address, ?_, ?_⟩
      · exact Assoc.mem_keysWhere.mpr ⟨_, hwaits, by simp [hendpoint]⟩
      · simp only [Waits] at hwaits
        simp [hwaits]
    · apply Kept.inbox_same
      rw [killMailboxes_lookup, if_neg hendpoint]

theorem kept_pushDeath (r : Receiver) (waker : Waker) (net : Shared) (endpoint : EndpointId)
    (watch : WatchId) :
    r.Kept waker net (net.pushDeath endpoint watch).1 (net.pushDeath endpoint watch).2 := by
  unfold pushDeath
  split
  · rename_i watcher hwatcher
    have hlt := (List.getElem?_eq_some_iff.mp hwatcher).1
    cases r with
    | Inbox inbox => exact .inbox_same rfl
    | Watch watch' =>
      by_cases hwatch : watch = watch'
      · subst hwatch
        refine ⟨fun hwaits => Or.inr ⟨by simp [Ready, deaths, hlt], ?_⟩, fun _ => by simp [Ready, deaths, hlt]⟩
        cases hwatcher.symm.trans hwaits
        simp
      · exact .watch_same (List.getElem?_set_ne hwatch)
  · exact ⟨Or.inl, id⟩

theorem kept_pollNext (r : Receiver) (waker : Waker) (net : Shared) {inbox : MemoryInbox} (waker' : Waker)
    (h : r ≠ Inbox inbox) : r.Kept waker net (net.pollNext inbox waker').2 [] := by
  cases r with
  | Watch watch => exact .watch_same (by rw [pollNext_deathWatchers])
  | Inbox inbox' =>
    obtain ⟨address'⟩ := inbox'
    obtain ⟨address⟩ := inbox
    have hne : address' ≠ address := fun heq => h (by rw [heq])
    apply Kept.inbox_same
    unfold pollNext
    split
    · rfl
    · split <;> exact AList.lookup_insert_ne hne

theorem kept_pollDeath (r : Receiver) (waker : Waker) (net : Shared) {watch : WatchId} (waker' : Waker)
    (h : r ≠ Watch watch) : r.Kept waker net (net.pollDeath watch waker').2 [] := by
  cases r with
  | Inbox inbox => exact .inbox_same (by rw [pollDeath_mailboxes])
  | Watch watch' =>
    have hne : watch ≠ watch' := fun heq => h (by rw [heq])
    apply Kept.watch_same
    unfold pollDeath
    split
    · split <;> exact List.getElem?_set_ne hne
    · rfl

theorem kept_deathWatch (r : Receiver) (waker : Waker) (net : Shared) :
    r.Kept waker net net.deathWatch.2 [] := by
  cases r with
  | Inbox inbox => exact .inbox_same rfl
  | Watch watch =>
    have happend : ∀ watcher, net.deathWatchers[watch]? = some watcher →
        net.deathWatch.2.deathWatchers[watch]? = some watcher := by
      intro watcher hwatcher
      have hlt := (List.getElem?_eq_some_iff.mp hwatcher).1
      rw [← hwatcher]
      exact List.getElem?_append_left hlt
    refine ⟨fun hwaits => Or.inl (happend _ hwaits), fun hready => ?_⟩
    simp only [Ready, deaths] at hready ⊢
    cases hwatcher : net.deathWatchers[watch]? with
    | none => simp [hwatcher] at hready
    | some watcher => rwa [happend _ hwatcher, ← hwatcher]

theorem kept_run (r : Receiver) (waker : Waker) (net : Shared) (op : Op) (hop : ¬ r.Own net op) :
    r.Kept waker net (net.run op) (net.taken op) := by
  cases op with
  | Register address =>
    simp only [run, register]
    split
    · exact .same rfl rfl
    · rename_i hfree
      cases r with
      | Watch watch => exact .watch_same rfl
      | Inbox inbox =>
        have hne : inbox.address ≠ address := fun heq => hop ⟨heq.symm, hfree⟩
        exact .inbox_same (AList.lookup_insert_ne hne)
  | Drop inbox' =>
    cases r with
    | Watch watch => exact .watch_same rfl
    | Inbox inbox =>
      have hne : inbox.address ≠ inbox'.address := fun heq =>
        hop (by cases inbox; cases inbox'; cases heq; rfl)
      exact .inbox_same (AList.lookup_erase_ne hne)
  | Send origin target message =>
    simp only [run, taken, send]
    split
    · exact .same rfl rfl
    · split
      · exact kept_push ..
      · exact .same rfl rfl
  | OpenMany origin toEndpoint toNames request =>
    simp only [run, taken, openMany]
    split
    · exact .same rfl rfl
    · split
      · exact .same rfl rfl
      · exact kept_pushAll ..
  | Partition a b => exact .same rfl rfl
  | Heal a b =>
    have hopened : r.Kept waker net { net with
        partitions := (net.partitions.erase (a, b)).erase (b, a)
        held := net.held.filter fun delivery => !between a b delivery } [] := .same rfl rfl
    exact hopened.trans (kept_pushAll ..)
  | DeathWatch => exact kept_deathWatch ..
  | KillMailboxes endpoint => exact kept_killMailboxes ..
  | PushDeath endpoint watch => exact kept_pushDeath ..
  | PollNext inbox waker' => exact kept_pollNext r waker net waker' fun h => hop (by rw [h]; rfl)
  | PollDeath watch waker' => exact kept_pollDeath r waker net waker' fun h => hop (by rw [h]; rfl)

end Receiver

/-! ## Operations that have left their sections -/

/-- The network, the wakers that operations have taken and not woken yet, and those that they have woken.
Each comes with the number of the section that took it. -/
structure Waking where
  net : Shared
  sections : Nat
  owed : List (Nat × Waker)
  woken : List (Nat × Waker)

namespace Waking

/-- A critical section, or an operation that is out of its section and wakes one of its wakers. -/
inductive Act
  | Section (op : Op)
  | Wake (due : Nat × Waker)

def act (s : Waking) : Act → Waking
  | .Section op =>
    { net := s.net.run op
      sections := s.sections + 1
      owed := s.owed ++ (s.net.taken op).map fun waker => (s.sections, waker)
      woken := s.woken }
  | .Wake due =>
    if due ∈ s.owed then { s with owed := s.owed.erase due, woken := s.woken ++ [due] } else s

def after (s : Waking) (acts : List Act) : Waking := Run.after act s acts

/-- The act of somebody other than the holder of `r`. -/
def Foreign (r : Receiver) (s : Waking) : Act → Prop
  | .Section op => ¬ r.Own s.net op
  | .Wake _ => True

theorem act_wake_net (s : Waking) (due : Nat × Waker) : (s.act (.Wake due)).net = s.net := by
  simp only [act]
  split <;> rfl

theorem due_act {s : Waking} {due : Nat × Waker} (h : due ∈ s.owed ∨ due ∈ s.woken) (a : Act) :
    due ∈ (s.act a).owed ∨ due ∈ (s.act a).woken := by
  cases a with
  | Section op => exact h.imp (List.mem_append_left _) id
  | Wake due' =>
    simp only [act]
    split
    · by_cases hdue : due = due'
      · exact Or.inr (by simp [hdue])
      · exact h.imp (List.mem_erase_of_ne hdue).mpr (List.mem_append_left _)
    · exact h

theorem due_after {s : Waking} {due : Nat × Waker} (h : due ∈ s.owed ∨ due ∈ s.woken) (acts : List Act) :
    due ∈ (s.after acts).owed ∨ due ∈ (s.after acts).woken :=
  Run.invariant_all act (I := fun s => due ∈ s.owed ∨ due ∈ s.woken) (fun _ a h => due_act h a) s acts h

variable {r : Receiver} {waker : Waker}

theorem ready_act {s : Waking} {a : Act} (h : r.Ready s.net) (ha : s.Foreign r a) :
    r.Ready (s.act a).net := by
  cases a with
  | Section op => exact (r.kept_run 0 s.net op ha).ready h
  | Wake due => rwa [act_wake_net]

theorem ready_after {s : Waking} {acts start : List Act} (h : r.Ready s.net)
    (hacts : Run.Along act (Foreign r) s acts) (hstart : start <+: acts) : r.Ready (s.after start).net := by
  obtain ⟨rest, rfl⟩ := hstart
  have halong := ((Run.along_append act s start rest).mp hacts).1
  exact Run.invariant act (I := fun s => r.Ready s.net) (fun _ _ h ha => ready_act h ha) s start h halong

/-- A receiver that waited and is ready became ready in one section, and that one took its waker. -/
theorem taken_of_ready {s : Waking} {acts : List Act} (hwaits : r.Waits s.net waker)
    (hacts : Run.Along act (Foreign r) s acts) (hready : r.Ready (s.after acts).net) :
    ∃ before op later, acts = before ++ .Section op :: later ∧ r.Waits (s.after before).net waker ∧
      waker ∈ (s.after before).net.taken op ∧ r.Ready ((s.after before).net.run op) := by
  induction acts generalizing s with
  | nil => exact absurd hready hwaits.not_ready
  | cons a acts ih =>
    obtain ⟨ha, hacts⟩ := hacts
    have hlater : r.Waits (s.act a).net waker → ∃ before op later, a :: acts = before ++ .Section op :: later ∧
        r.Waits (s.after before).net waker ∧ waker ∈ (s.after before).net.taken op ∧
        r.Ready ((s.after before).net.run op) := by
      intro hwaits
      obtain ⟨before, op, later, hsplit, h⟩ := ih hwaits hacts hready
      exact ⟨a :: before, op, later, by rw [hsplit, List.cons_append], h⟩
    cases a with
    | Wake due => exact hlater (by rwa [act_wake_net])
    | Section op =>
      rcases (r.kept_run waker s.net op ha).waits hwaits with hwaits' | ⟨hready', hmem⟩
      · exact hlater hwaits'
      · exact ⟨[], op, acts, rfl, hwaits, hmem, hready'⟩

/-- A receiver polls, and the poll is pending. If there is something for it after whatever the others do,
then it is there since one section that found the receiver without it. That section took the waker of
the poll, and its operation has woken it as soon as it owes it no more. -/
theorem no_lost_wakeup (s : Waking) (r : Receiver) (waker : Waker) (hpending : r.Pending s.net waker)
    (acts : List Act) (hacts : Run.Along act (Foreign r) (s.act (.Section (r.poll waker))) acts)
    (hready : r.Ready ((s.act (.Section (r.poll waker))).after acts).net) :
    ∃ before op later, acts = before ++ .Section op :: later ∧
      let polled := s.act (.Section (r.poll waker))
      let found := polled.after before
      ¬ r.Ready found.net ∧ waker ∈ found.net.taken op ∧
        (∀ start, start <+: later → r.Ready (polled.after (before ++ .Section op :: start)).net) ∧
        ((found.sections, waker) ∉ (polled.after acts).owed →
          (found.sections, waker) ∈ (polled.after acts).woken) := by
  obtain ⟨before, op, later, hsplit, hwaits, hmem, hready'⟩ := taken_of_ready hpending.waits hacts hready
  refine ⟨before, op, later, hsplit, hwaits.not_ready, hmem, fun start hstart => ?_, ?_⟩
  · rw [hsplit, Run.along_append] at hacts
    have hrest := ready_after (s := (((s.act (.Section (r.poll waker))).after before).act (.Section op)))
      hready' hacts.2.2 hstart
    simpa only [after, Run.after_append, Run.after_cons] using hrest
  · generalize hpolled : s.act (.Section (r.poll waker)) = polled at *
    have hdue : ((polled.after before).sections, waker) ∈ ((polled.after before).act (.Section op)).owed :=
      List.mem_append_right _ (List.mem_map_of_mem hmem)
    have hlater := due_after (Or.inl hdue) later
    rw [hsplit]
    simp only [after, Run.after_append, Run.after_cons] at hlater ⊢
    exact hlater.resolve_left

open Sample

/-- Bob has a mailbox with nothing in it, and nobody is at work. -/
def bobListens : Waking := ⟨(Shared.new.register bob).2, 0, [], []⟩

/-- Bob polls, alice sends, and her operation wakes him. -/
theorem no_lost_wakeup_bob :
    let polled := bobListens.act (.Section (.PollNext ⟨bob⟩ 7))
    let acts : List Act := [.Section (.Send alice bob (.Harness .Ping)), .Wake (1, 7)]
    (polled.after acts).woken = [(1, 7)] ∧
      ∃ before op later, acts = before ++ .Section op :: later ∧
        7 ∈ (polled.after before).net.taken op := by
  intro polled acts
  have hpending : (Receiver.Inbox ⟨bob⟩).Pending bobListens.net 7 := rfl
  have hacts : Run.Along act (Foreign (.Inbox ⟨bob⟩)) polled acts := ⟨id, trivial, trivial⟩
  have hready : (Receiver.Inbox ⟨bob⟩).Ready (polled.after acts).net := by
    have hlookup : (polled.after acts).net.mailboxes.lookup bob =
        some ⟨[⟨alice, bob, .Harness .Ping⟩], none⟩ := by decide +kernel
    intro mailbox hmailbox
    cases hlookup.symm.trans hmailbox
    simp
  obtain ⟨before, op, later, hsplit, -, hmem, -⟩ :=
    no_lost_wakeup bobListens (.Inbox ⟨bob⟩) 7 hpending acts hacts hready
  exact ⟨by decide +kernel, before, op, later, hsplit, hmem⟩

end Waking

end Kamiroh.Shared
