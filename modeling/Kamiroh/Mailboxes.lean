import Kamiroh.Memory
import Kamiroh.Run

/-!
# What an operation does to one mailbox

A mailbox is a queue: whatever happens on the network, what was taken out of it and what is still in it
are what was in it before, followed by what came later.
-/

namespace Kamiroh.Shared

/-! ## Pushing -/

@[simp] theorem push_partitions (net : Shared) (delivery : Delivery) :
    (net.push delivery).1.partitions = net.partitions := by
  unfold push
  split <;> rfl

@[simp] theorem push_held (net : Shared) (delivery : Delivery) :
    (net.push delivery).1.held = net.held := by
  unfold push
  split <;> rfl

theorem push_lookup (net : Shared) (delivery : Delivery) (address : Address) :
    (net.push delivery).1.mailboxes.lookup address =
      (net.mailboxes.lookup address).map fun mailbox =>
        if delivery.target = address then ⟨mailbox.queue ++ [delivery], none⟩ else mailbox := by
  unfold push
  split
  · rename_i mailbox hmailbox
    by_cases haddress : delivery.target = address
    · subst haddress
      simp [hmailbox]
    · rw [AList.lookup_insert_ne (Ne.symm haddress)]
      simp [haddress]
  · rename_i hnone
    by_cases haddress : delivery.target = address
    · subst haddress
      simp [hnone]
    · simp [haddress]

@[simp] theorem pushAll_partitions (net : Shared) (deliveries : List Delivery) :
    (net.pushAll deliveries).1.partitions = net.partitions := by
  induction deliveries generalizing net with
  | nil => rfl
  | cons delivery deliveries ih => rw [pushAll, ih, push_partitions]

@[simp] theorem pushAll_held (net : Shared) (deliveries : List Delivery) :
    (net.pushAll deliveries).1.held = net.held := by
  induction deliveries generalizing net with
  | nil => rfl
  | cons delivery deliveries ih => rw [pushAll, ih, push_held]

/-- The deliveries to one mailbox. -/
def addressed (address : Address) (deliveries : List Delivery) : List Delivery :=
  deliveries.filter fun delivery => delivery.target = address

theorem pushAll_lookup (net : Shared) (deliveries : List Delivery) (address : Address) :
    (net.pushAll deliveries).1.mailboxes.lookup address =
      (net.mailboxes.lookup address).map fun mailbox =>
        ⟨mailbox.queue ++ addressed address deliveries,
          if (addressed address deliveries).isEmpty then mailbox.waker else none⟩ := by
  induction deliveries generalizing net with
  | nil => cases h : net.mailboxes.lookup address <;> simp [pushAll, addressed, h]
  | cons delivery deliveries ih =>
    rw [pushAll, ih, push_lookup, Option.map_map]
    refine Option.map_congr fun mailbox _ => ?_
    by_cases haddress : delivery.target = address
    · simp [addressed, haddress]
    · simp [addressed, haddress]

/-! ## One mailbox in a run -/

theorem killMailboxes_lookup (net : Shared) (endpoint : EndpointId) (address : Address) :
    (net.killMailboxes endpoint).1.mailboxes.lookup address =
      if address.endpoint = endpoint then none else net.mailboxes.lookup address := by
  have h := net.mailboxes.lookup_eraseAll
    (net.mailboxes.keysWhere fun address _ => address.endpoint = endpoint) address
  refine h.trans ?_
  simp only [Assoc.mem_keysWhere]
  by_cases hendpoint : address.endpoint = endpoint
  · cases h : net.mailboxes.lookup address <;> simp [hendpoint]
  · simp [hendpoint]

/-- The operation takes the mailbox at `address` away. -/
def Removes (address : Address) : Op → Prop
  | .Drop inbox => inbox.address = address
  | .KillMailboxes endpoint => address.endpoint = endpoint
  | _ => False

/-- What the operation takes out of the mailbox at `address`. -/
def drawn (address : Address) (net : Shared) : Op → List Delivery
  | .PollNext inbox waker =>
    if inbox.address = address then
      match (net.pollNext inbox waker).1 with
      | .Ready (some delivery) => [delivery]
      | _ => []
    else []
  | _ => []

/-- The mailbox at `address` is there in `net'` just if it is in `net`, and `deliveries` and its queue are
the queue that it had, followed by what came. -/
def Continues (address : Address) (deliveries : List Delivery) (net net' : Shared) : Prop :=
  ∃ f : Mailbox → Mailbox,
    net'.mailboxes.lookup address = (net.mailboxes.lookup address).map f ∧
    ∀ mailbox, net.mailboxes.lookup address = some mailbox →
      ∃ more, deliveries ++ (f mailbox).queue = mailbox.queue ++ more

section

variable {net net' : Shared} {address : Address}

theorem continues_same (h : net'.mailboxes.lookup address = net.mailboxes.lookup address) :
    Continues address [] net net' :=
  ⟨id, by rw [h, Option.map_id, id], fun mailbox _ => ⟨[], by simp⟩⟩

theorem continues_pushAll (h : net'.mailboxes = net.mailboxes) (deliveries : List Delivery) :
    Continues address [] net (net'.pushAll deliveries).1 := by
  unfold Continues
  rw [pushAll_lookup, h]
  exact ⟨_, rfl, fun mailbox _ => ⟨_, rfl⟩⟩

theorem continues_pollNext (net : Shared) (inbox : MemoryInbox) (waker : Waker) (address : Address) :
    Continues address (drawn address net (.PollNext inbox waker)) net (net.pollNext inbox waker).2 := by
  by_cases haddress : inbox.address = address
  · subst haddress
    cases hmailbox : net.mailboxes.lookup inbox.address with
    | none => exact ⟨id, by simp [pollNext, hmailbox], fun mailbox h => by rw [hmailbox] at h; cases h⟩
    | some mailbox =>
      cases hqueue : mailbox.queue with
      | nil =>
        refine ⟨fun mailbox => { mailbox with waker := some waker }, ?_, fun mailbox' h => ⟨[], ?_⟩⟩
        · simp [pollNext, hmailbox, hqueue]
        · cases hmailbox.symm.trans h
          simp [drawn, pollNext, hmailbox, hqueue]
      | cons delivery queue =>
        refine ⟨fun mailbox => { mailbox with queue }, ?_, fun mailbox' h => ⟨[], ?_⟩⟩
        · simp [pollNext, hmailbox, hqueue]
        · cases hmailbox.symm.trans h
          simp [drawn, pollNext, hmailbox, hqueue]
  · have hne : address ≠ inbox.address := fun heq => haddress heq.symm
    simp only [drawn, haddress, if_false]
    apply continues_same
    unfold pollNext
    split
    · rfl
    · split <;> exact AList.lookup_insert_ne hne

end

theorem continues_run (net : Shared) {address : Address} (op : Op) (hregister : op ≠ .Register address)
    (hremoves : ¬ Removes address op) : Continues address (drawn address net op) net (net.run op) := by
  cases op with
  | Register address' =>
    have hne : address ≠ address' := fun heq => hregister (by rw [heq])
    simp only [run, register]
    split
    · exact continues_same rfl
    · exact continues_same (AList.lookup_insert_ne hne)
  | Drop inbox =>
    have hne : address ≠ inbox.address := fun heq => hremoves heq.symm
    exact continues_same (AList.lookup_erase_ne hne)
  | Send origin target message =>
    simp only [run, send]
    split
    · exact continues_same rfl
    · split
      · exact continues_pushAll rfl [⟨origin, target, message⟩]
      · exact continues_same rfl
  | OpenMany origin toEndpoint toNames request =>
    simp only [run, openMany]
    split
    · exact continues_same rfl
    · split
      · exact continues_same rfl
      · exact continues_pushAll rfl _
  | Heal a b => exact continues_pushAll rfl _
  | Partition a b | DeathWatch => exact continues_same rfl
  | PushDeath endpoint watch =>
    simp only [run, pushDeath]
    split <;> exact continues_same rfl
  | PollDeath watch waker => exact continues_same (by rw [run, pollDeath_mailboxes])
  | KillMailboxes endpoint =>
    have hne : ¬ address.endpoint = endpoint := hremoves
    exact continues_same (by rw [run, killMailboxes_lookup, if_neg hne])
  | PollNext inbox waker => exact continues_pollNext net inbox waker address

theorem run_queue {net : Shared} {address : Address} {mailbox : Mailbox}
    (h : net.mailboxes.lookup address = some mailbox) (op : Op) (hop : ¬ Removes address op) :
    ∃ mailbox' more, (net.run op).mailboxes.lookup address = some mailbox' ∧
      drawn address net op ++ mailbox'.queue = mailbox.queue ++ more := by
  by_cases hregister : op = .Register address
  · subst hregister
    exact ⟨mailbox, [], by simp [run, register, h], by simp [drawn]⟩
  · obtain ⟨f, hlookup, hqueue⟩ := net.continues_run op hregister hop
    obtain ⟨more, hmore⟩ := hqueue mailbox h
    exact ⟨f mailbox, more, by rw [hlookup, h]; rfl, hmore⟩

theorem run_unbound {net : Shared} {address : Address} (h : net.mailboxes.lookup address = none)
    (op : Op) (hop : op ≠ .Register address) : (net.run op).mailboxes.lookup address = none := by
  by_cases hremoves : Removes address op
  · unfold Removes at hremoves
    split at hremoves
    · subst hremoves
      exact AList.lookup_erase ..
    · rw [run, killMailboxes_lookup, if_pos hremoves]
    · exact absurd hremoves not_false
  · obtain ⟨f, hlookup, -⟩ := net.continues_run op hop hremoves
    rw [hlookup, h]
    rfl

theorem runs_unbound {net : Shared} {address : Address} (h : net.mailboxes.lookup address = none)
    (ops : List Op) (hops : ∀ op ∈ ops, op ≠ .Register address) :
    (Run.after run net ops).mailboxes.lookup address = none := by
  induction ops generalizing net with
  | nil => exact h
  | cons op ops ih =>
    obtain ⟨hop, hops⟩ := List.forall_mem_cons.mp hops
    exact ih (run_unbound h op hop) hops

/-- As long as nobody takes a mailbox away, what came out of it and what is still in it are what was in
it, followed by what came later. -/
theorem runs_queue {address : Address} (ops : List Op) (net : Shared) {mailbox : Mailbox}
    (h : net.mailboxes.lookup address = some mailbox) (hops : ∀ op ∈ ops, ¬ Removes address op) :
    ∃ mailbox' more, (Run.after run net ops).mailboxes.lookup address = some mailbox' ∧
      Run.outputs (fun net op => (net.run op, drawn address net op)) net ops ++ mailbox'.queue =
        mailbox.queue ++ more := by
  induction ops generalizing net mailbox with
  | nil => exact ⟨mailbox, [], h, by simp [Run.outputs]⟩
  | cons op ops ih =>
    obtain ⟨hop, hops⟩ := List.forall_mem_cons.mp hops
    obtain ⟨mailbox₁, more₁, h₁, hqueue₁⟩ := run_queue h op hop
    obtain ⟨mailbox₂, more₂, h₂, hqueue₂⟩ := ih (net.run op) h₁ hops
    refine ⟨mailbox₂, more₁ ++ more₂, h₂, ?_⟩
    rw [Run.outputs, List.append_assoc, hqueue₂, ← List.append_assoc, hqueue₁, List.append_assoc]

/-! ## What is on its way -/

/-- What an operation brings onto the network. -/
def Op.brings : Op → List Delivery
  | .Send origin target message => [⟨origin, target, message⟩]
  | .OpenMany origin toEndpoint toNames request =>
    ⟨batchReceiptSender toEndpoint, origin, .Ack ⟨request.id⟩⟩ ::
      toNames.map fun name => ⟨origin, ⟨toEndpoint, name⟩, .Turn (.Open request)⟩
  | _ => []

/-- What an operation leaves with the network, which keeps nothing of what it refuses. -/
def brought (net : Shared) (op : Op) : List Delivery :=
  match op with
  | .Send origin target message => if (net.send origin target message).1.isOk then op.brings else []
  | .OpenMany origin toEndpoint toNames request =>
    if (net.openMany origin toEndpoint toNames request).1.isOk then op.brings else []
  | _ => []

/-- What an operation returns to the owner of an inbox. -/
def returned (net : Shared) : Op → List (Address × Delivery)
  | .PollNext inbox waker =>
    match (net.pollNext inbox waker).1 with
    | .Ready (some delivery) => [(inbox.address, delivery)]
    | _ => []
  | _ => []

/-- The delivery lies in the mailbox at `address`. -/
def Lies (net : Shared) (address : Address) (delivery : Delivery) : Prop :=
  ∃ mailbox, net.mailboxes.lookup address = some mailbox ∧ delivery ∈ mailbox.queue

/-- The delivery is held, or lies in the mailbox of its target. -/
def Carries (net : Shared) (delivery : Delivery) : Prop :=
  delivery ∈ net.held ∨ net.Lies delivery.target delivery

/-- Each mailbox holds only what is addressed to it. -/
def Sorted (net : Shared) : Prop := ∀ address delivery, net.Lies address delivery → delivery.target = address

section

variable {net net' : Shared} {address : Address} {delivery : Delivery}

theorem lies_of_lookup (hlookup : net'.mailboxes.lookup address = net.mailboxes.lookup address)
    (h : net'.Lies address delivery) : net.Lies address delivery := by
  unfold Lies at h ⊢
  rwa [hlookup] at h

theorem lies_pushAll {deliveries : List Delivery} (h : (net.pushAll deliveries).1.Lies address delivery) :
    net.Lies address delivery ∨ delivery ∈ deliveries ∧ delivery.target = address := by
  obtain ⟨mailbox, hmailbox, hdelivery⟩ := h
  rw [pushAll_lookup, Option.map_eq_some_iff] at hmailbox
  obtain ⟨mailbox', hmailbox', rfl⟩ := hmailbox
  rcases List.mem_append.mp hdelivery with hbefore | hpushed
  · exact Or.inl ⟨mailbox', hmailbox', hbefore⟩
  · obtain ⟨hmem, htarget⟩ := List.mem_filter.mp hpushed
    exact Or.inr ⟨hmem, of_decide_eq_true htarget⟩

theorem lies_pollNext {inbox : MemoryInbox} {waker : Waker}
    (h : (net.pollNext inbox waker).2.Lies address delivery) : net.Lies address delivery := by
  unfold pollNext at h
  split at h
  · exact h
  · rename_i mailbox hmailbox
    -- The mailbox keeps its queue, or the tail of it.
    have hqueue : ∀ mailbox' : Mailbox, mailbox'.queue ⊆ mailbox.queue →
        ({ net with mailboxes := net.mailboxes.insert inbox.address mailbox' } : Shared).Lies address delivery →
        net.Lies address delivery := by
      rintro mailbox' hsub ⟨found, hfound, hdelivery⟩
      by_cases haddress : address = inbox.address
      · subst haddress
        rw [AList.lookup_insert, Option.some.injEq] at hfound
        subst hfound
        exact ⟨mailbox, hmailbox, hsub hdelivery⟩
      · rw [AList.lookup_insert_ne haddress] at hfound
        exact ⟨found, hfound, hdelivery⟩
    split at h
    · rename_i first queue hcons
      exact hqueue _ (hcons ▸ List.subset_cons_self first queue) h
    · exact hqueue { mailbox with waker := some waker } (fun _ hmem => hmem) h

theorem lies_send {origin target : Address} {message : Message}
    (h : (net.send origin target message).2.1.Lies address delivery) :
    net.Lies address delivery ∨ delivery = ⟨origin, target, message⟩ ∧ delivery.target = address := by
  unfold send at h
  split at h
  · exact Or.inl h
  · split at h
    · have hpushed : (net.pushAll [⟨origin, target, message⟩]).1.Lies address delivery := h
      simpa using lies_pushAll hpushed
    · exact Or.inl h

theorem lies_run {op : Op} (h : (net.run op).Lies address delivery) :
    net.Lies address delivery ∨
      delivery.target = address ∧ (delivery ∈ net.held ∨ delivery ∈ op.brings) := by
  have hsame : ∀ {net' : Shared}, net'.mailboxes.lookup address = net.mailboxes.lookup address →
      net'.Lies address delivery → net.Lies address delivery ∨
        delivery.target = address ∧ (delivery ∈ net.held ∨ delivery ∈ op.brings) :=
    fun hlookup h => Or.inl (lies_of_lookup hlookup h)
  cases op with
  | Register bound =>
    simp only [run, register] at h
    split at h
    · exact Or.inl h
    · obtain ⟨mailbox, hmailbox, hdelivery⟩ := h
      by_cases haddress : address = bound
      · subst haddress
        rw [AList.lookup_insert, Option.some.injEq] at hmailbox
        subst hmailbox
        cases hdelivery
      · exact hsame (AList.lookup_insert_ne haddress) ⟨mailbox, hmailbox, hdelivery⟩
  | Drop inbox =>
    obtain ⟨mailbox, hmailbox, hdelivery⟩ := h
    by_cases haddress : address = inbox.address
    · subst haddress
      rw [run, dropInbox, AList.lookup_erase] at hmailbox
      cases hmailbox
    · exact hsame (AList.lookup_erase_ne haddress) ⟨mailbox, hmailbox, hdelivery⟩
  | Send origin target message =>
    rcases lies_send h with hbefore | ⟨hsent, htarget⟩
    · exact Or.inl hbefore
    · exact Or.inr ⟨htarget, Or.inr (List.mem_singleton.mpr hsent)⟩
  | OpenMany origin toEndpoint toNames request =>
    simp only [run, openMany] at h
    split at h
    · exact Or.inl h
    · split at h
      · exact Or.inl h
      · rcases lies_pushAll h with hbefore | ⟨hsent, htarget⟩
        · exact Or.inl hbefore
        · exact Or.inr ⟨htarget, Or.inr hsent⟩
  | Heal a b =>
    rcases lies_pushAll h with hbefore | ⟨hheld, htarget⟩
    · exact Or.inl hbefore
    · exact Or.inr ⟨htarget, Or.inl (List.mem_filter.mp hheld).1⟩
  | Partition a b | DeathWatch => exact Or.inl h
  | PushDeath endpoint watch =>
    simp only [run, pushDeath] at h
    split at h <;> exact Or.inl h
  | PollDeath watch waker => exact hsame (by rw [run, pollDeath_mailboxes]) h
  | KillMailboxes endpoint =>
    obtain ⟨mailbox, hmailbox, hdelivery⟩ := h
    rw [run, killMailboxes_lookup] at hmailbox
    split at hmailbox
    · cases hmailbox
    · exact Or.inl ⟨mailbox, hmailbox, hdelivery⟩
  | PollNext inbox waker => exact Or.inl (lies_pollNext h)

theorem held_run {op : Op} (h : delivery ∈ (net.run op).held) :
    delivery ∈ net.held ∨ delivery ∈ op.brings := by
  cases op with
  | Register bound =>
    simp only [run, register] at h
    split at h <;> exact Or.inl h
  | Send origin target message =>
    simp only [run, send] at h
    split at h
    · exact List.mem_append.mp h
    · split at h
      · rw [push_held] at h
        exact Or.inl h
      · exact Or.inl h
  | OpenMany origin toEndpoint toNames request =>
    simp only [run, openMany] at h
    split at h
    · exact Or.inl h
    · split at h
      · exact List.mem_append.mp h
      · rw [pushAll_held] at h
        exact Or.inl h
  | Heal a b =>
    simp only [run, heal, pushAll_held] at h
    exact Or.inl (List.mem_filter.mp h).1
  | PushDeath endpoint watch =>
    simp only [run, pushDeath] at h
    split at h <;> exact Or.inl h
  | PollNext inbox waker =>
    simp only [run, pollNext] at h
    split at h
    · exact Or.inl h
    · split at h <;> exact Or.inl h
  | PollDeath watch waker =>
    simp only [run, pollDeath] at h
    split at h
    · split at h <;> exact Or.inl h
    · exact Or.inl h
  | Drop _ | Partition _ _ | DeathWatch | KillMailboxes _ => exact Or.inl h

theorem carries_run {op : Op} (h : (net.run op).Carries delivery) :
    net.Carries delivery ∨ delivery ∈ op.brings := by
  rcases h with hheld | hlies
  · exact (held_run hheld).imp_left Or.inl
  · rcases lies_run hlies with hbefore | ⟨-, hheld | hbrought⟩
    · exact Or.inl (Or.inr hbefore)
    · exact Or.inl (Or.inl hheld)
    · exact Or.inr hbrought

theorem carries_of_silent {op : Op} (hop : op.brings = []) (h : (net.run op).Carries delivery) :
    net.Carries delivery := by
  rcases carries_run h with hbefore | hbrought
  · exact hbefore
  · rw [hop] at hbrought
    cases hbrought

theorem Sorted.run (h : net.Sorted) (op : Op) : (net.run op).Sorted := by
  intro address delivery hlies
  rcases lies_run hlies with hbefore | ⟨htarget, -⟩
  · exact h address delivery hbefore
  · exact htarget

theorem Sorted.carries (h : net.Sorted) (hlies : net.Lies address delivery) :
    delivery.target = address ∧ net.Carries delivery := by
  have htarget := h address delivery hlies
  exact ⟨htarget, Or.inr (htarget ▸ hlies)⟩

theorem sorted_new : new.Sorted := by
  rintro address delivery ⟨mailbox, hmailbox, -⟩
  cases hmailbox

theorem carries_new : ¬ new.Carries delivery := by
  rintro (hheld | ⟨mailbox, hmailbox, -⟩)
  · cases hheld
  · cases hmailbox

theorem lies_of_polled {inbox : MemoryInbox} {waker : Waker}
    (h : (net.pollNext inbox waker).1 = .Ready (some delivery)) : net.Lies inbox.address delivery := by
  unfold pollNext at h
  split at h
  · cases h
  · rename_i mailbox hmailbox
    split at h
    · rename_i first queue hqueue
      cases h
      exact ⟨mailbox, hmailbox, hqueue ▸ List.mem_cons_self⟩
    · cases h

theorem send_refused {origin target : Address} {message : Message} {error : MemoryTransportError}
    (h : (net.send origin target message).1 = .error error) :
    (net.send origin target message).2.1 = net := by
  unfold send at h ⊢
  split at h
  · cases h
  · split at h
    · cases h
    · rename_i hpartition _ _
      rw [if_neg hpartition]

theorem openMany_refused {origin : Address} {toEndpoint : EndpointId} {toNames : List ActorName}
    {request : Request} {error : MemoryTransportError}
    (h : (net.openMany origin toEndpoint toNames request).1 = .error error) :
    (net.openMany origin toEndpoint toNames request).2.1 = net := by
  unfold openMany at h ⊢
  split at h
  · rename_i hnobody
    rw [if_pos hnobody]
  · split at h <;> cases h

end

end Kamiroh.Shared
