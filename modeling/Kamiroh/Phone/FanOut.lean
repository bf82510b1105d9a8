import Kamiroh.Mailboxes
import Kamiroh.Phone.Waits

/-!
# One batch, and as many openings

A batch reaches the same mailboxes as one ordinary opening for each of its names. What it adds is one
receipt, in the initiator's mailbox.
-/

namespace Kamiroh.Phone

open Shared

/-! ## The openings one by one -/

/-- One ordinary opening for each name, all at the same instant. -/
def openEach {N : Type} [Transport N] (net : N) (now : Instant) (selfAddress : Address)
    (endpoint : EndpointId) (request : Request) (deadlines : Deadlines) :
    List ActorName → List (Except PhoneError Unit × Phone) × N
  | [] => ([], net)
  | name :: names =>
    let opened := (converse selfAddress ⟨endpoint, name⟩ deadlines).openExchange net now request
    let rest := openEach opened.2.2 now selfAddress endpoint request deadlines names
    ((opened.1, opened.2.1) :: rest.1, rest.2)

/-- The opening turn for one name of a batch. -/
def opening (selfAddress : Address) (endpoint : EndpointId) (request : Request) (name : ActorName) :
    Delivery :=
  ⟨selfAddress, ⟨endpoint, name⟩, .Turn (.Open request)⟩

/-- The one receipt of a batch. -/
def receipt (selfAddress : Address) (endpoint : EndpointId) (request : Request) : Delivery :=
  ⟨batchReceiptSender endpoint, selfAddress, .Ack ⟨request.id⟩⟩

section

variable {net : Shared} {now : Instant} {selfAddress : Address} {endpoint : EndpointId}
  {request : Request} {deadlines : Deadlines}

theorem send_bound {origin target : Address} (message : Message)
    (hline : (origin.endpoint, target.endpoint) ∉ net.partitions)
    (hbound : (net.mailboxes.lookup target).isSome = true) :
    Transport.send net origin target message = (.ok (), (net.push ⟨origin, target, message⟩).1) := by
  obtain ⟨mailbox, hmailbox⟩ := Option.isSome_iff_exists.mp hbound
  simp only [Transport.send, send, if_neg hline, hmailbox]
  rfl

theorem openExchange_bound {name : ActorName} (hline : (selfAddress.endpoint, endpoint) ∉ net.partitions)
    (hbound : (net.mailboxes.lookup ⟨endpoint, name⟩).isSome = true) :
    (converse selfAddress ⟨endpoint, name⟩ deadlines).openExchange net now request =
      (.ok (), fanned selfAddress ⟨endpoint, name⟩ deadlines now request,
        (net.push (opening selfAddress endpoint request name)).1) := by
  have hsend : Transport.send net selfAddress ⟨endpoint, name⟩ (.Turn (.Open request)) = _ :=
    send_bound _ hline hbound
  simp only [openExchange, sendTurn, converse, TurnState.onOutgoing, hsend]
  rfl

theorem openEach_bound (names : List ActorName) (net : Shared)
    (hline : (selfAddress.endpoint, endpoint) ∉ net.partitions)
    (hbound : ∀ name ∈ names, (net.mailboxes.lookup ⟨endpoint, name⟩).isSome = true) :
    openEach net now selfAddress endpoint request deadlines names =
      (names.map fun name => (.ok (), fanned selfAddress ⟨endpoint, name⟩ deadlines now request),
        (net.pushAll (names.map (opening selfAddress endpoint request))).1) := by
  induction names generalizing net with
  | nil => rfl
  | cons name names ih =>
    obtain ⟨hname, hnames⟩ := List.forall_mem_cons.mp hbound
    simp only [openEach, openExchange_bound hline hname, List.map_cons, pushAll]
    rw [ih _ (by simpa using hline) fun name' hname' => ?_]
    rw [push_lookup, Option.isSome_map]
    exact hnames name' hname'

theorem openMany_bound (names : List ActorName)
    (hline : (selfAddress.endpoint, endpoint) ∉ net.partitions)
    (hthere : ∃ address, address.endpoint = endpoint ∧ (net.mailboxes.lookup address).isSome = true) :
    openMany net now selfAddress endpoint names request deadlines =
      (.ok (names.map fun name => fanned selfAddress ⟨endpoint, name⟩ deadlines now request),
        (net.pushAll (receipt selfAddress endpoint request ::
          names.map (opening selfAddress endpoint request))).1) := by
  obtain ⟨address, haddress, hmailbox⟩ := hthere
  have hkeys : ¬ (net.mailboxes.keys.all fun address => address.endpoint ≠ endpoint) = true := by
    intro hall
    have hmem : address ∈ net.mailboxes := AList.lookup_isSome.mp hmailbox
    have hne := List.all_eq_true.mp hall address (AList.mem_keys.mp hmem)
    simp [haddress] at hne
  simp only [openMany, FanOut.openMany, Shared.openMany, if_neg hkeys, if_neg hline]
  rfl

/-! ## The two nets -/

theorem addressed_receipt (deliveries : List Delivery) (address : Address) :
    addressed address (receipt selfAddress endpoint request :: deliveries) =
      if selfAddress = address then receipt selfAddress endpoint request :: addressed address deliveries
      else addressed address deliveries := by
  by_cases h : selfAddress = address <;> simp [addressed, receipt, h]

theorem pushAll_receipt_of_ne (deliveries : List Delivery) {address : Address}
    (h : address ≠ selfAddress) :
    (net.pushAll (receipt selfAddress endpoint request :: deliveries)).1.mailboxes.lookup address =
      (net.pushAll deliveries).1.mailboxes.lookup address := by
  rw [pushAll_lookup, pushAll_lookup, addressed_receipt, if_neg (Ne.symm h)]

/-! ## The receipt settles every phone -/

theorem noteAck_fanned (peer : Address) :
    let phone := fanned selfAddress peer deadlines now request
    phone.noteAck ⟨request.id⟩ = (true, { phone with ackDue := none }) ∧
      { phone with ackDue := none }.nextDue = some (.Turn, now + deadlines.turn) ∧
      { phone with ackDue := none }.noteAck ⟨request.id⟩ = (false, { phone with ackDue := none }) := by
  refine ⟨?_, rfl, rfl⟩
  simp [noteAck, fanned]

end

/-- A batch returns the phones that one opening for each name returns, and every mailbox gets the same
deliveries in the same order. The receipt is in front of all that comes to the initiator later. It
settles the ack wait of each phone, and another ack with its id changes nothing. -/
theorem batch_is_opens (net : Shared) (now : Instant) (selfAddress : Address) (endpoint : EndpointId)
    (names : List ActorName) (request : Request) (deadlines : Deadlines) (mailbox : Mailbox)
    (hline : (selfAddress.endpoint, endpoint) ∉ net.partitions)
    (hself : net.mailboxes.lookup selfAddress = some mailbox)
    (hthere : ∃ address, address.endpoint = endpoint ∧ (net.mailboxes.lookup address).isSome = true)
    (hbound : ∀ name ∈ names, (net.mailboxes.lookup ⟨endpoint, name⟩).isSome = true) :
    let batch := openMany net now selfAddress endpoint names request deadlines
    let each := openEach net now selfAddress endpoint request deadlines names
    let toSelf := addressed selfAddress (names.map (opening selfAddress endpoint request))
    ∃ phones, batch.1 = .ok phones ∧ each.1 = phones.map (fun phone => (.ok (), phone)) ∧
      (∀ address, address ≠ selfAddress →
        batch.2.mailboxes.lookup address = each.2.mailboxes.lookup address) ∧
      (each.2.mailboxes.lookup selfAddress).map (·.queue) = some (mailbox.queue ++ toSelf) ∧
      (batch.2.mailboxes.lookup selfAddress).map (·.queue) =
        some (mailbox.queue ++ receipt selfAddress endpoint request :: toSelf) ∧
      batch.2.partitions = each.2.partitions ∧ batch.2.held = each.2.held ∧
      batch.2.deathWatchers = each.2.deathWatchers ∧
      (∀ ops, (∀ op ∈ ops, ¬ Removes selfAddress op) → ∃ mailbox' later,
        (Run.after run batch.2 ops).mailboxes.lookup selfAddress = some mailbox' ∧
        Run.outputs (fun net op => (net.run op, drawn selfAddress net op)) batch.2 ops ++ mailbox'.queue =
          mailbox.queue ++ receipt selfAddress endpoint request :: toSelf ++ later) ∧
      ∀ phone ∈ phones, phone.noteAck ⟨request.id⟩ = (true, { phone with ackDue := none }) ∧
        { phone with ackDue := none }.nextDue = some (.Turn, now + deadlines.turn) ∧
        { phone with ackDue := none }.noteAck ⟨request.id⟩ = (false, { phone with ackDue := none }) := by
  intro batch each toSelf
  have hbatch : batch = _ := openMany_bound names hline hthere
  have heach : each = _ := openEach_bound names net hline hbound
  have hinbox : batch.2.mailboxes.lookup selfAddress =
      some ⟨mailbox.queue ++ receipt selfAddress endpoint request :: toSelf, none⟩ := by
    rw [hbatch, pushAll_lookup, hself, addressed_receipt, if_pos rfl]
    rfl
  refine ⟨_, by rw [hbatch], by rw [heach, List.map_map]; rfl, fun address haddress => ?_, ?_, ?_, ?_, ?_,
    ?_, fun ops hops => runs_queue ops batch.2 hinbox hops, fun phone hphone => ?_⟩
  · rw [hbatch, heach]
    exact pushAll_receipt_of_ne _ haddress
  · rw [heach, pushAll_lookup, hself]
    rfl
  · rw [hinbox]
    rfl
  · simp [hbatch, heach]
  · simp [hbatch, heach]
  · simp [hbatch, heach]
  · obtain ⟨name, -, rfl⟩ := List.mem_map.mp hphone
    exact noteAck_fanned _

/-- Alice opens with Bob, with Dave, and with Bob once more. -/
theorem batch_is_opens_alice :
    let net := ((Shared.new.register Sample.alice).2.register Sample.bob).2.register Sample.dave |>.2
    let batch := openMany net 0 Sample.alice Sample.bob.endpoint
      [Sample.bob.name, Sample.dave.name, Sample.bob.name] (Sample.request 1) Sample.patience
    (batch.2.mailboxes.lookup Sample.alice).map (·.queue) =
        some [receipt Sample.alice Sample.bob.endpoint (Sample.request 1)] ∧
      (batch.2.mailboxes.lookup Sample.bob).map (·.queue.length) = some 2 := by
  intro net batch
  obtain ⟨phones, -, -, -, -, hreceipt, -⟩ := batch_is_opens net 0 Sample.alice Sample.bob.endpoint
    [Sample.bob.name, Sample.dave.name, Sample.bob.name] (Sample.request 1) Sample.patience default
    (by decide) (by decide) ⟨Sample.bob, rfl, by decide⟩ (by decide)
  exact ⟨hreceipt, by decide⟩

end Kamiroh.Phone
