import Kamiroh.Iroh.Wiring

/-!
# Whose deliveries an inbox hands out

What an inbox hands out under the name of an endpoint that runs the adapter, that endpoint was asked to
send, or it is the receipt of a batch. Nobody else can add to it, and no retry doubles it.
-/

namespace Kamiroh.Iroh

section

variable [Postcard]

/-- A frame that is cut short does not decode. -/
def Postcard.CutsFail : Prop :=
  ∀ frame bytes n, Postcard.toStdvec frame = .ok bytes → n < bytes.length →
    ∀ frame', Postcard.fromBytes (bytes.take n) ≠ .ok frame'

theorem accept_cut (hcuts : Postcard.CutsFail) {frame : Frame} {bytes : List UInt8} {n : Nat}
    (hencode : Postcard.toStdvec frame = .ok bytes) (hn : n < bytes.length) :
    accept (bytes.take n) = none := by
  unfold accept
  split
  · rfl
  · split
    · rename_i frame' hdecode
      exact absurd hdecode (hcuts frame bytes n hencode hn frame')
    · rfl

theorem accept_whole (hpostcard : Postcard.RoundTrips) {frame : Frame} {bytes : List UInt8}
    (hencode : Postcard.toStdvec frame = .ok bytes) : accept bytes = none ∨ accept bytes = some frame := by
  unfold accept
  split
  · exact Or.inl rfl
  · rw [hpostcard frame bytes hencode]
    exact Or.inr rfl

/-! ## What is on its way -/

/-- The receipt that a frame from `origin` asks for. -/
def Frame.receipts (endpointId origin : EndpointId) : Frame → List Delivery
  | Single _ _ _ => []
  | OpenMany fromName _ request => [receiptOf endpointId ⟨origin, fromName⟩ request]

omit [Postcard] in
theorem Frame.deliveries_origin (endpointId origin : EndpointId) (frame : Frame) :
    ∀ delivery ∈ frame.deliveries endpointId origin, delivery.origin.endpoint = origin := by
  intro delivery hdelivery
  cases frame with
  | Single fromName toName message =>
    cases List.mem_singleton.mp hdelivery
    rfl
  | OpenMany fromName toNames request =>
    obtain ⟨name, -, rfl⟩ := List.mem_map.mp hdelivery
    rfl

omit [Postcard] in
theorem Frame.receipts_target (endpointId origin : EndpointId) (frame : Frame) :
    ∀ delivery ∈ frame.receipts endpointId origin, delivery.target.endpoint = origin := by
  intro delivery hdelivery
  cases frame with
  | Single fromName toName message => exact (List.not_mem_nil hdelivery).elim
  | OpenMany fromName toNames request =>
    cases List.mem_singleton.mp hdelivery
    rfl

end

def Batch.receipts (endpointId : EndpointId) (batch : Batch) : List Delivery :=
  if batch.answered then [] else [receiptOf endpointId ⟨batch.origin, batch.fromName⟩ batch.request]

/-- What a task of `endpoint` has sent, if it has: a task that failed or was dropped has sent nothing. -/
def Call.deliveries (endpoint : EndpointId) (call : Call) : List Delivery :=
  if call.state = .Finished then call.frame.deliveries call.target endpoint else []

def Call.receipts (endpoint : EndpointId) (call : Call) : List Delivery :=
  if call.state = .Finished then call.frame.receipts call.target endpoint else []

namespace Network

/-- All that the tasks of `endpoint` have sent. -/
def sent (net : Network) (endpoint : EndpointId) : List Delivery :=
  (net.nodes endpoint).calls.flatMap (Call.deliveries endpoint)

/-- The receipts that the batches of `endpoint` ask for. -/
def receipted (net : Network) (endpoint : EndpointId) : List Delivery :=
  (net.nodes endpoint).calls.flatMap (Call.receipts endpoint)

def Event.received (endpoint : EndpointId) (name : ActorName) : Event → List Delivery
  | Received endpoint' name' delivery => if endpoint' = endpoint ∧ name' = name then [delivery] else []
  | _ => []

/-- What the inboxes of `name` at `endpoint` hand out in a run. -/
def received [Postcard] (net : Network) (endpoint : EndpointId) (name : ActorName) (acts : List Act) :
    List Delivery :=
  (net.trace acts).flatMap (Event.received endpoint name)

end Network

/-! ## The stock of one delivery -/

section

variable [Postcard] (delivery : Delivery)

/-- How often a frame from `origin` leads to the delivery. -/
def Frame.weight (endpointId origin : EndpointId) (frame : Frame) : Nat :=
  (frame.deliveries endpointId origin).count delivery + (frame.receipts endpointId origin).count delivery

def Flight.weight (flight : Flight) : Nat :=
  (accept flight.bytes).elim 0 (Frame.weight delivery flight.target flight.origin)

/-- How often the delivery is in its inbox or at a reader. -/
def Node.inbound (endpoint : EndpointId) (node : Node) : Nat :=
  (node.batches.map fun batch => (batch.deliveries endpoint).count delivery).sum +
    ((node.router.queue delivery.target.name).getD []).count delivery

/-- How often the delivery is a receipt that a reader has not sent. -/
def Node.owing (endpoint : EndpointId) (node : Node) : Nat :=
  (node.batches.map fun batch => (batch.receipts endpoint).count delivery).sum

def Node.sent (endpoint : EndpointId) (node : Node) : Nat :=
  (node.calls.map fun call => (call.deliveries endpoint).count delivery).sum

def Node.receipted (endpoint : EndpointId) (node : Node) : Nat :=
  (node.calls.map fun call => (call.receipts endpoint).count delivery).sum

namespace Network

/-- How often the delivery may still come out of the inbox that it is for, wherever it is now. -/
def stock (net : Network) : Nat :=
  (net.flights.map (Flight.weight delivery)).sum +
    (net.nodes delivery.target.endpoint).inbound delivery delivery.target.endpoint +
    (net.nodes delivery.origin.endpoint).owing delivery delivery.origin.endpoint

/-- How often its two endpoints have sent what leads to it. -/
def supply (net : Network) : Nat :=
  (net.nodes delivery.origin.endpoint).sent delivery delivery.origin.endpoint +
    (net.nodes delivery.target.endpoint).receipted delivery delivery.target.endpoint

def handed (events : List Event) : Nat :=
  (events.flatMap (Event.received delivery.target.endpoint delivery.target.name)).count delivery

/-- The step takes the delivery from the stock at most as often as its endpoints supply it. -/
def Pays (net : Network) (stepped : Network × List Event) : Prop :=
  handed delivery stepped.2 + stock delivery stepped.1 + supply delivery net ≤
    stock delivery net + supply delivery stepped.1

variable {delivery} {net net' : Network} {endpoint : EndpointId} {change : Node → Node}

omit [Postcard] in
theorem modify_same (f : EndpointId → Node → Nat)
    (h : f endpoint (change (net.nodes endpoint)) = f endpoint (net.nodes endpoint)) (e : EndpointId) :
    f e ((net.modify endpoint change).nodes e) = f e (net.nodes e) :=
  modify_nodes (p := fun e node => f e node = f e (net.nodes e)) (fun _ => rfl) h e

omit [Postcard] in
theorem modify_le (f : EndpointId → Node → Nat) {k : Nat}
    (h : f endpoint (change (net.nodes endpoint)) ≤ f endpoint (net.nodes endpoint) + k) (e : EndpointId) :
    f e ((net.modify endpoint change).nodes e) ≤ f e (net.nodes e) + k :=
  modify_nodes (p := fun e node => f e node ≤ f e (net.nodes e) + k) (fun _ => Nat.le_add_right ..) h e

theorem pays_of_quiet
    (h : stock delivery net' = stock delivery net ∧ supply delivery net' = supply delivery net) :
    Pays delivery net (net', []) := by
  rw [Pays, h.1, h.2]
  exact Nat.le_of_eq (congrArg (· + _) (Nat.zero_add _))

theorem pays_quiet (hbatches : (change (net.nodes endpoint)).batches = (net.nodes endpoint).batches)
    (hrouter : (change (net.nodes endpoint)).router = (net.nodes endpoint).router)
    (hsent : (change (net.nodes endpoint)).sent delivery endpoint = (net.nodes endpoint).sent delivery endpoint)
    (hreceipted : (change (net.nodes endpoint)).receipted delivery endpoint =
      (net.nodes endpoint).receipted delivery endpoint) :
    stock delivery (net.modify endpoint change) = stock delivery net ∧
      supply delivery (net.modify endpoint change) = supply delivery net := by
  refine ⟨?_, ?_⟩
  · rw [stock, stock, modify_flights, modify_same (Node.inbound delivery),
      modify_same (Node.owing delivery)]
    · rw [Node.owing, Node.owing, hbatches]
    · rw [Node.inbound, Node.inbound, hbatches, hrouter]
  · rw [supply, supply, modify_same (Node.sent delivery) hsent,
      modify_same (Node.receipted delivery) hreceipted]

/-! ### Sending -/

theorem post_pays (delivery : Delivery) (net : Network) (endpoint : EndpointId) (c : ConnId)
    (out : Option (List UInt8)) {k : Nat}
    (hout : ∀ bytes target far, out = some bytes → net.remote endpoint c = some target →
      Flight.weight delivery ⟨endpoint, target, far, bytes⟩ ≤ k) :
    stock delivery (net.post endpoint c out).1 ≤ stock delivery net + k ∧
      supply delivery (net.post endpoint c out).1 = supply delivery net ∧
      handed delivery (net.post endpoint c out).2 = 0 := by
  rcases net.post_cases endpoint c out with hnone | ⟨bytes, target, far, hbytes, hremote, -, hpost⟩
  · rw [hnone]
    exact ⟨Nat.le_add_right .., rfl, rfl⟩
  · have hweight := hout bytes target far hbytes hremote
    rw [hpost]
    refine ⟨?_, rfl, rfl⟩
    simp only [stock, List.map_append, List.map_cons, List.map_nil, List.sum_append, List.sum_cons,
      List.sum_nil]
    omega

theorem weight_cut (hcuts : Postcard.CutsFail) {frame : Frame} {bytes : List UInt8} {n : Nat}
    (hencode : Postcard.toStdvec frame = .ok bytes) (hn : n < bytes.length) (origin target : EndpointId)
    (far : ConnId) : Flight.weight delivery ⟨origin, target, far, bytes.take n⟩ = 0 := by
  rw [Flight.weight, accept_cut hcuts hencode hn]
  rfl

theorem weight_whole (hpostcard : Postcard.RoundTrips) {frame : Frame} {bytes : List UInt8}
    (hencode : Postcard.toStdvec frame = .ok bytes) (origin target : EndpointId) (far : ConnId) :
    Flight.weight delivery ⟨origin, target, far, bytes⟩ ≤ frame.weight delivery target origin := by
  rw [Flight.weight]
  rcases accept_whole hpostcard hencode with hnone | hsome
  · rw [hnone]
    exact Nat.zero_le _
  · rw [hsome]
    exact Nat.le_refl _

omit [Postcard] in
theorem sent_set (delivery : Delivery) (endpoint : EndpointId) {node node' : Node} {i : Nat}
    {call call' : Call} (hcall : node.calls[i]? = some call) (hset : node'.calls = node.calls.set i call') :
    node'.sent delivery endpoint + (call.deliveries endpoint).count delivery =
      node.sent delivery endpoint + (call'.deliveries endpoint).count delivery := by
  rw [Node.sent, hset]
  exact Stock.sum_set (fun call => (call.deliveries endpoint).count delivery) hcall call'

omit [Postcard] in
theorem receipted_set (delivery : Delivery) (endpoint : EndpointId) {node node' : Node} {i : Nat}
    {call call' : Call} (hcall : node.calls[i]? = some call) (hset : node'.calls = node.calls.set i call') :
    node'.receipted delivery endpoint + (call.receipts endpoint).count delivery =
      node.receipted delivery endpoint + (call'.receipts endpoint).count delivery := by
  rw [Node.receipted, hset]
  exact Stock.sum_set (fun call => (call.receipts endpoint).count delivery) hcall call'

theorem sets_quiet {i : Nat} {call call' : Call} (hcall : (net.nodes endpoint).calls[i]? = some call)
    (hset : (change (net.nodes endpoint)).calls = (net.nodes endpoint).calls.set i call')
    (hunsent : call.state ≠ .Finished) (hunsent' : call'.state ≠ .Finished)
    (hbatches : (change (net.nodes endpoint)).batches = (net.nodes endpoint).batches)
    (hrouter : (change (net.nodes endpoint)).router = (net.nodes endpoint).router) :
    stock delivery (net.modify endpoint change) = stock delivery net ∧
      supply delivery (net.modify endpoint change) = supply delivery net := by
  refine pays_quiet hbatches hrouter ?_ ?_
  · have hsent := sent_set delivery endpoint hcall hset
    rwa [Call.deliveries, if_neg hunsent, Call.deliveries, if_neg hunsent'] at hsent
  · have hreceipted := receipted_set delivery endpoint hcall hset
    rwa [Call.receipts, if_neg hunsent, Call.receipts, if_neg hunsent'] at hreceipted

theorem sets_finished (delivery : Delivery) {i : Nat} {target : EndpointId} {frame : Frame} {state : Attempting}
    (hcall : (net.nodes endpoint).calls[i]? = some ⟨target, frame, state⟩) (hunsent : state ≠ .Finished) :
    let finished := net.modify endpoint fun node =>
      { node with calls := node.calls.set i ⟨target, frame, .Finished⟩ }
    stock delivery finished = stock delivery net ∧
      supply delivery finished = supply delivery net + frame.weight delivery target endpoint := by
  intro finished
  have hcalls : (finished.nodes endpoint).calls = (net.nodes endpoint).calls.set i ⟨target, frame, .Finished⟩ :=
    congrArg Node.calls modify_self
  have hsent : (finished.nodes delivery.origin.endpoint).sent delivery delivery.origin.endpoint =
      (net.nodes delivery.origin.endpoint).sent delivery delivery.origin.endpoint +
        (frame.deliveries target endpoint).count delivery := by
    by_cases horigin : delivery.origin.endpoint = endpoint
    · have hset := sent_set delivery endpoint hcall hcalls
      rw [Call.deliveries, if_neg hunsent, Call.deliveries, if_pos rfl] at hset
      rwa [horigin]
    · rw [modify_ne horigin, List.count_eq_zero_of_not_mem]
      · rfl
      · exact fun hmem => horigin (frame.deliveries_origin target endpoint delivery hmem)
  have hreceipted : (finished.nodes delivery.target.endpoint).receipted delivery delivery.target.endpoint =
      (net.nodes delivery.target.endpoint).receipted delivery delivery.target.endpoint +
        (frame.receipts target endpoint).count delivery := by
    by_cases htarget : delivery.target.endpoint = endpoint
    · have hset := receipted_set delivery endpoint hcall hcalls
      rw [Call.receipts, if_neg hunsent, Call.receipts, if_pos rfl] at hset
      rwa [htarget]
    · rw [modify_ne htarget, List.count_eq_zero_of_not_mem]
      · rfl
      · exact fun hmem => htarget (frame.receipts_target target endpoint delivery hmem)
  refine ⟨?_, ?_⟩
  · rw [stock, stock, modify_same (Node.inbound delivery) rfl, modify_same (Node.owing delivery) rfl]
    rfl
  · rw [supply, supply, hsent, hreceipted, Frame.weight]
    omega

theorem send_pays (net : Network) (endpoint : EndpointId) (origin : Address) (target : EndpointId)
    (frame : Frame) : Pays delivery net (net.send endpoint origin target frame, []) := by
  have hnew : ∀ state : Attempting, state ≠ .Finished →
      Pays delivery net
        (net.modify endpoint fun node => { node with calls := node.calls ++ [⟨target, frame, state⟩] }, []) := by
    intro state hunsent
    refine pays_of_quiet (pays_quiet rfl rfl ?_ ?_)
    · simp [Node.sent, Call.deliveries, hunsent]
    · simp [Node.receipted, Call.receipts, hunsent]
  refine hnew _ ?_
  split
  · simp
  · split <;> simp

theorem pays_join (h : stock delivery net' = stock delivery net ∧ supply delivery net' = supply delivery net)
    (c : ConnId) (target : EndpointId) :
    stock delivery (net'.join endpoint c target) = stock delivery net ∧
      supply delivery (net'.join endpoint c target) = supply delivery net := by
  unfold join
  split
  · have hquiet : stock delivery (net'.modify target fun node =>
        { node with shared := node.shared.established endpoint }) = stock delivery net' ∧
        supply delivery (net'.modify target fun node =>
          { node with shared := node.shared.established endpoint }) = supply delivery net' :=
      pays_quiet rfl rfl rfl rfl
    exact ⟨hquiet.1.trans h.1, hquiet.2.trans h.2⟩
  · exact h

theorem connect_pays (net : Network) (endpoint : EndpointId) (i : Nat) (dialed : Except String Unit) :
    Pays delivery net (net.connect endpoint i dialed, []) := by
  refine pays_of_quiet ?_
  unfold connect
  split
  · rename_i target frame bytes again hcall
    have hset (shared : IrohShared) (state : Attempting) (hunsent : state ≠ .Finished) :
        stock delivery (net.modify endpoint fun node =>
            { node with shared, calls := node.calls.set i ⟨target, frame, state⟩ }) = stock delivery net ∧
          supply delivery (net.modify endpoint fun node =>
            { node with shared, calls := node.calls.set i ⟨target, frame, state⟩ }) = supply delivery net :=
      sets_quiet hcall rfl (by simp) hunsent rfl rfl
    split
    · rename_i error shared hgot
      exact hset shared (.Failed (.Connection error)) (by simp)
    · rename_i c shared hgot
      split
      · exact pays_join (hset shared (.Streaming bytes again c) (by simp)) c target
      · exact hset shared (.Streaming bytes again c) (by simp)
  · exact ⟨rfl, rfl⟩

theorem cut_pays (hcuts : Postcard.CutsFail) {frame : Frame} {bytes : List UInt8}
    (hencode : Postcard.toStdvec frame = .ok bytes) {sent : Option Nat}
    (hshort : ∀ n, sent = some n → n < bytes.length)
    (hquiet : stock delivery net' = stock delivery net ∧ supply delivery net' = supply delivery net)
    (endpoint : EndpointId) (c : ConnId) :
    Pays delivery net (net'.post endpoint c (sent.map bytes.take)) := by
  obtain ⟨hstock, hsupply, hhanded⟩ := post_pays delivery net' endpoint c (sent.map bytes.take)
    (k := 0) fun piece target far hpiece _ => by
      obtain ⟨n, hn, rfl⟩ := Option.map_eq_some_iff.mp hpiece
      exact Nat.le_of_eq (weight_cut hcuts hencode (hshort n hn) endpoint target far)
  rw [Pays, hhanded, hsupply, hquiet.2]
  omega

theorem write_pays (hpostcard : Postcard.RoundTrips) (hcuts : Postcard.CutsFail) (hwired : net.Wired)
    {i : Nat} {written : Written} (hlawful : net.Lawful (.Write endpoint i written)) :
    Pays delivery net (net.write endpoint i written) := by
  unfold write
  split
  · rename_i target frame bytes again c hcall
    obtain ⟨hencode, hremote⟩ := (hwired.nodes endpoint).calls _ (List.mem_of_getElem? hcall)
    cases written with
    | Whole =>
      let finished := net.modify endpoint fun node =>
        { node with calls := node.calls.set i ⟨target, frame, .Finished⟩ }
      have hremote' : finished.remote endpoint c = some target := by
        rw [remote, modify_self]
        exact hremote
      obtain ⟨hstock, hsupply⟩ : stock delivery finished = stock delivery net ∧
          supply delivery finished = supply delivery net + frame.weight delivery target endpoint :=
        sets_finished delivery hcall (by simp)
      obtain ⟨hposted, hsame, hhanded⟩ := post_pays delivery finished endpoint c (some bytes)
        (k := frame.weight delivery target endpoint) fun bytes' target' far hbytes htarget => by
          cases hbytes
          cases hremote'.symm.trans htarget
          exact weight_whole hpostcard hencode endpoint target far
      change handed delivery (finished.post endpoint c (some bytes)).2 +
          stock delivery (finished.post endpoint c (some bytes)).1 + supply delivery net ≤
        stock delivery net + supply delivery (finished.post endpoint c (some bytes)).1
      rw [hhanded, hsame]
      omega
    | Cut sent text =>
      refine cut_pays hcuts hencode ?_ (sets_quiet hcall rfl (by simp) ?_ rfl rfl) endpoint c
      · rintro n rfl
        exact hlawful _ hcall bytes rfl
      · cases again <;> simp
  · exact pays_of_quiet ⟨rfl, rfl⟩

theorem drop_pays (hcuts : Postcard.CutsFail) (hwired : net.Wired) {i : Nat} {sent : Option Nat}
    (hlawful : net.Lawful (.Drop endpoint i sent)) : Pays delivery net (net.drop endpoint i sent) := by
  unfold drop
  split
  · rename_i target frame bytes again hcall
    refine pays_of_quiet (sets_quiet hcall rfl (by simp) ?_ rfl rfl)
    simp
  · rename_i target frame bytes again c hcall
    refine cut_pays hcuts ((hwired.nodes endpoint).calls _ (List.mem_of_getElem? hcall)).1 ?_
      (sets_quiet hcall rfl (by simp) ?_ rfl rfl) endpoint c
    · rintro n rfl
      exact hlawful _ hcall bytes rfl
    · simp
  · exact pays_of_quiet ⟨rfl, rfl⟩

/-! ### Reading -/

omit [Postcard] in
theorem inbound_routes (delivery : Delivery) {node : Node} {router : Router} {deliveries : List Delivery}
    (h : node.router.Routes router deliveries) :
    ((router.queue delivery.target.name).getD []).count delivery ≤
      ((node.router.queue delivery.target.name).getD []).count delivery + deliveries.count delivery := by
  rw [h]
  cases node.router.queue delivery.target.name with
  | none => exact Nat.zero_le _
  | some queue =>
    rw [Option.map_some, Option.getD_some, Option.getD_some, List.count_append]
    exact Nat.add_le_add_left (List.filter_sublist.count_le delivery) _

omit [Postcard] in
theorem handed_queued (endpoint : EndpointId) (c : ConnId) (deliveries : List Delivery) :
    handed delivery (deliveries.map (.Queued endpoint c)) = 0 := by
  rw [handed, List.flatMap_map, List.flatMap_eq_nil_iff.mpr]
  · rfl
  · exact fun _ _ => rfl

theorem moves_pays {taken : Network} (htaken : taken.nodes = net.nodes) {k j : Nat}
    (hinbound : (change (net.nodes endpoint)).inbound delivery endpoint ≤
      (net.nodes endpoint).inbound delivery endpoint + k)
    (howing : (change (net.nodes endpoint)).owing delivery endpoint ≤
      (net.nodes endpoint).owing delivery endpoint + j)
    (hcalls : (change (net.nodes endpoint)).calls = (net.nodes endpoint).calls)
    (hflights : k + j + (taken.flights.map (Flight.weight delivery)).sum ≤
      (net.flights.map (Flight.weight delivery)).sum) {events : List Event}
    (hhanded : handed delivery events = 0) :
    Pays delivery net (taken.modify endpoint change, events) := by
  have hsent : (change (net.nodes endpoint)).sent delivery endpoint =
      (net.nodes endpoint).sent delivery endpoint := by
    rw [Node.sent, hcalls]
    rfl
  have hreceipted : (change (net.nodes endpoint)).receipted delivery endpoint =
      (net.nodes endpoint).receipted delivery endpoint := by
    rw [Node.receipted, hcalls]
    rfl
  rw [← htaken] at hinbound howing hsent hreceipted
  have hinbound' := modify_le (Node.inbound delivery) hinbound delivery.target.endpoint
  have howing' := modify_le (Node.owing delivery) howing delivery.origin.endpoint
  have hsent' := modify_same (Node.sent delivery) hsent delivery.origin.endpoint
  have hreceipted' := modify_same (Node.receipted delivery) hreceipted delivery.target.endpoint
  rw [htaken] at hinbound' howing' hsent' hreceipted'
  simp only [Pays, hhanded, stock, supply, modify_flights, hsent', hreceipted']
  omega

theorem read_pays (hwired : net.Wired) (endpoint : EndpointId) (c : ConnId) :
    Pays delivery net (net.read endpoint c) := by
  have hreading := net.read_reading endpoint c
  generalize net.read endpoint c = read at hreading
  rcases hreading with _ | ⟨flight, hfind⟩ |
    ⟨flight, hfind, origin, horigin, -, fromName, toName, message, haccept⟩ |
    ⟨flight, hfind, origin, horigin, -, fromName, toNames, request, haccept⟩
  · exact pays_of_quiet ⟨rfl, rfl⟩
  · have hflights := Stock.sum_of_find (Flight.weight delivery) hfind
    simp only [Pays, stock, supply, hflights, handed, List.flatMap_cons, List.flatMap_nil, Event.received,
      List.append_nil, List.count_nil]
    omega
  · obtain ⟨hmem, rfl, rfl⟩ := find_flight hfind
    have hflights := Stock.sum_of_find (Flight.weight delivery) hfind
    cases horigin.symm.trans (hwired.flights flight hmem)
    rw [Flight.weight, haccept] at hflights
    let routed : Delivery := ⟨⟨flight.origin, fromName⟩, ⟨flight.target, toName⟩, message⟩
    refine moves_pays (k := [routed].count delivery) (j := 0) ?_ ?_ ?_ ?_ ?_ ?_
    · rfl
    · rw [Node.inbound, Node.inbound, Nat.add_assoc]
      exact Nat.add_le_add_left (inbound_routes delivery (Router.route_routes _ routed)) _
    · exact Nat.le_refl _
    · rfl
    · rw [hflights]
      exact Nat.le_refl _
    · exact handed_queued _ _ _
  · obtain ⟨hmem, rfl, rfl⟩ := find_flight hfind
    have hflights := Stock.sum_of_find (Flight.weight delivery) hfind
    cases horigin.symm.trans (hwired.flights flight hmem)
    rw [Flight.weight, haccept] at hflights
    refine moves_pays
      (k := (Batch.deliveries flight.target
        ⟨flight.connection, flight.origin, fromName, toNames, request, false⟩).count delivery)
      (j := (Batch.receipts flight.target
        ⟨flight.connection, flight.origin, fromName, toNames, request, false⟩).count delivery) ?_ ?_ ?_ ?_ ?_ ?_
    · rfl
    · simp only [Node.inbound, List.map_append, List.map_cons, List.map_nil, List.sum_append, List.sum_cons,
        List.sum_nil]
      omega
    · simp only [Node.owing, List.map_append, List.map_cons, List.map_nil, List.sum_append, List.sum_cons,
        List.sum_nil]
      omega
    · rfl
    · rw [hflights]
      exact Nat.le_refl _
    · rfl

theorem answered_stock {c : ConnId} {batch : Batch}
    (hfind : (net.nodes endpoint).batches.find? (Batch.isAt c false) = some batch)
    (hunanswered : batch.answered = false) :
    let answered := net.modify endpoint fun node =>
      { node with batches := node.batches.eraseP (Batch.isAt c false) ++ [{ batch with answered := true }] }
    stock delivery answered + (batch.receipt endpoint).weight delivery batch.origin endpoint ≤
        stock delivery net ∧
      supply delivery answered = supply delivery net := by
  intro answered
  have hopens := Stock.sum_of_find (fun batch => (batch.deliveries endpoint).count delivery) hfind
  have howes := Stock.sum_of_find (fun batch => (batch.receipts endpoint).count delivery) hfind
  have hweight : (batch.receipt endpoint).weight delivery batch.origin endpoint =
      (batch.receipts endpoint).count delivery := by
    rw [Batch.receipts, hunanswered]
    rfl
  have hsame : (Batch.deliveries endpoint { batch with answered := true }).count delivery =
      (batch.deliveries endpoint).count delivery := rfl
  have hnone : (Batch.receipts endpoint { batch with answered := true }).count delivery = 0 := rfl
  have hinbound : ∀ e, (answered.nodes e).inbound delivery e = (net.nodes e).inbound delivery e := by
    refine modify_same (Node.inbound delivery) ?_
    simp only [Node.inbound, hopens, List.map_append, List.map_cons, List.map_nil, List.sum_append,
      List.sum_cons, List.sum_nil]
    omega
  have howing : (answered.nodes delivery.origin.endpoint).owing delivery delivery.origin.endpoint +
      (batch.receipts endpoint).count delivery ≤
        (net.nodes delivery.origin.endpoint).owing delivery delivery.origin.endpoint := by
    by_cases horigin : delivery.origin.endpoint = endpoint
    · rw [horigin, modify_self]
      simp only [Node.owing, howes, List.map_append, List.map_cons, List.map_nil, List.sum_append,
        List.sum_cons, List.sum_nil]
      omega
    · rw [modify_ne horigin, ← hweight, Frame.weight, List.count_eq_zero_of_not_mem]
      · exact Nat.le_refl _
      · exact fun hmem => horigin (congrArg (·.origin.endpoint) (List.mem_singleton.mp hmem))
  have hquiet : supply delivery answered = supply delivery net := by
    rw [supply, supply, modify_same (Node.sent delivery) rfl, modify_same (Node.receipted delivery) rfl]
  have hflights : answered.flights = net.flights := rfl
  refine ⟨?_, hquiet⟩
  simp only [stock, hinbound, hflights, hweight]
  omega

theorem answer_pays (hpostcard : Postcard.RoundTrips) (hcuts : Postcard.CutsFail) (hwired : net.Wired)
    {c : ConnId} {written : Written} (hlawful : net.Lawful (.Answer endpoint c written)) :
    Pays delivery net (net.answer endpoint c written) := by
  unfold answer
  split
  · rename_i batch hfind
    obtain ⟨hmem, rfl, hunanswered⟩ := find_batch hfind
    let answered := net.modify endpoint fun node =>
      { node with
        batches := node.batches.eraseP (Batch.isAt batch.connection false) ++
          [{ batch with answered := true }] }
    obtain ⟨hstock, hsupply⟩ : stock delivery answered + (batch.receipt endpoint).weight delivery batch.origin
        endpoint ≤ stock delivery net ∧ supply delivery answered = supply delivery net :=
      answered_stock hfind hunanswered
    have hremote : answered.remote endpoint batch.connection = some batch.origin := by
      rw [remote, modify_self]
      exact (hwired.nodes endpoint).batches batch hmem
    have hposts : ∀ bytes, Postcard.toStdvec (batch.receipt endpoint) = .ok bytes →
        Pays delivery net (answered.post endpoint batch.connection (written.bytes bytes)) := by
      intro bytes hencode
      obtain ⟨hposted, hsame, hhanded⟩ := post_pays delivery answered endpoint batch.connection
        (written.bytes bytes) (k := (batch.receipt endpoint).weight delivery batch.origin endpoint)
        fun piece target far hpiece htarget => by
          cases hremote.symm.trans htarget
          cases written with
          | Whole =>
            cases hpiece
            exact weight_whole hpostcard hencode endpoint batch.origin far
          | Cut sent text =>
            obtain ⟨n, rfl, rfl⟩ := Option.map_eq_some_iff.mp hpiece
            rw [weight_cut hcuts hencode (hlawful batch hfind bytes (hencode ▸ rfl))]
            exact Nat.zero_le _
      rw [Pays, hhanded, hsame]
      omega
    dsimp only
    split
    · rename_i bytes hencode
      exact hposts bytes hencode
    · change 0 + stock delivery answered + supply delivery net ≤ stock delivery net + supply delivery answered
      omega
  · exact pays_of_quiet ⟨rfl, rfl⟩

theorem fan_pays (net : Network) (endpoint : EndpointId) (c : ConnId) :
    Pays delivery net (net.fan endpoint c) := by
  unfold fan
  split
  · rename_i batch hfind
    refine moves_pays (k := 0) (j := 0) rfl ?_ ?_ ?_ ?_ ?_
    · have hbatches := Stock.sum_of_find (fun batch => (batch.deliveries endpoint).count delivery) hfind
      have hrouted := inbound_routes delivery
        ((net.nodes endpoint).router.routeAll_queue (batch.deliveries endpoint))
      simp only [Node.inbound] at hrouted ⊢
      omega
    · exact Stock.sum_le_of_sublist _ List.eraseP_sublist
    · rfl
    · omega
    · exact handed_queued _ _ _
  · exact pays_of_quiet ⟨rfl, rfl⟩

theorem receive_pays (net : Network) (endpoint : EndpointId) (name : ActorName) :
    Pays delivery net (net.step (.Receive endpoint name)) := by
  simp only [step]
  rcases (net.nodes endpoint).router.recv_cases name with hrecv | ⟨received, rest, hbefore, hgot, hrecv⟩
  · rw [hrecv]
    exact pays_of_quiet (pays_quiet rfl rfl rfl rfl)
  · let after := net.modify endpoint fun node => { node with router := ((net.nodes endpoint).router.recv name).2 }
    have hinbound : handed delivery [.Received endpoint name received] +
        (after.nodes delivery.target.endpoint).inbound delivery delivery.target.endpoint =
          (net.nodes delivery.target.endpoint).inbound delivery delivery.target.endpoint := by
      by_cases hhere : endpoint = delivery.target.endpoint ∧ name = delivery.target.name
      · obtain ⟨rfl, rfl⟩ := hhere
        have hhanded : handed delivery [.Received delivery.target.endpoint delivery.target.name received] =
            [received].count delivery := by simp [handed, Event.received]
        have hcons : ([received] ++ rest).count delivery = [received].count delivery + rest.count delivery :=
          List.count_append
        rw [List.singleton_append] at hcons
        rw [modify_self, hhanded]
        simp only [Node.inbound, hrecv, if_true, hbefore, Option.getD_some]
        omega
      · have hhanded : handed delivery [.Received endpoint name received] = 0 := by
          simp [handed, Event.received, hhere]
        by_cases hendpoint : delivery.target.endpoint = endpoint
        · have hname : delivery.target.name ≠ name := fun hname => hhere ⟨hendpoint.symm, hname.symm⟩
          rw [hhanded, hendpoint, modify_self, Node.inbound, Node.inbound, hrecv, if_neg hname]
          exact Nat.zero_add _
        · rw [hhanded, modify_ne hendpoint]
          exact Nat.zero_add _
    have howing : (after.nodes delivery.origin.endpoint).owing delivery delivery.origin.endpoint =
        (net.nodes delivery.origin.endpoint).owing delivery delivery.origin.endpoint :=
      modify_same (Node.owing delivery) rfl _
    have hquiet : supply delivery after = supply delivery net := by
      rw [supply, supply, modify_same (Node.sent delivery) rfl, modify_same (Node.receipted delivery) rfl]
    have hflights : after.flights = net.flights := rfl
    rw [hgot]
    change handed delivery [.Received endpoint name received] + stock delivery after + supply delivery net ≤
      stock delivery net + supply delivery after
    simp only [stock, hquiet, howing, hflights]
    omega

theorem step_pays (hpostcard : Postcard.RoundTrips) (hcuts : Postcard.CutsFail) (hwired : net.Wired)
    (horigin : delivery.origin.endpoint ∈ net.adapters) (htarget : delivery.target.endpoint ∈ net.adapters)
    {a : Act} (hlawful : net.Lawful a) : Pays delivery net (net.step a) := by
  cases a with
  | Upkeep endpoint act => exact pays_of_quiet (pays_quiet rfl rfl rfl rfl)
  | Bind endpoint address =>
    refine moves_pays (k := 0) (j := 0) rfl ?_ (Nat.le_refl _) rfl (by omega) rfl
    have hqueue : ((((net.nodes endpoint).router.bind endpoint address).2.queue
        delivery.target.name).getD []).count delivery ≤
          (((net.nodes endpoint).router.queue delivery.target.name).getD []).count delivery := by
      rcases (net.nodes endpoint).router.bind_cases endpoint address with ⟨error, hbind⟩ | ⟨-, -, -, hbind⟩
      · rw [hbind]
      · rw [hbind]
        split
        · exact Nat.zero_le _
        · exact Nat.le_refl _
    exact Nat.add_le_add_left hqueue _
  | Receive endpoint name => exact receive_pays ..
  | DropInbox endpoint name =>
    refine moves_pays (k := 0) (j := 0) rfl ?_ (Nat.le_refl _) rfl (by omega) rfl
    have hqueue : ((((net.nodes endpoint).router.dropInbox name).queue delivery.target.name).getD []).count
        delivery ≤ (((net.nodes endpoint).router.queue delivery.target.name).getD []).count delivery := by
      rw [Router.dropInbox_queue]
      split
      · exact Nat.zero_le _
      · exact Nat.le_refl _
    exact Nat.add_le_add_left hqueue _
  | Send endpoint origin target message => exact send_pays ..
  | OpenMany endpoint origin toEndpoint toNames request => exact send_pays ..
  | Connect endpoint i dialed => exact connect_pays ..
  | Write endpoint i written => exact write_pays hpostcard hcuts hwired hlawful
  | Drop endpoint i sent => exact drop_pays hcuts hwired hlawful
  | Read endpoint c => exact read_pays hwired endpoint c
  | Answer endpoint c written => exact answer_pays hpostcard hcuts hwired hlawful
  | Fan endpoint c => exact fan_pays ..
  | Lose i =>
    have hlost := Stock.sum_le_of_sublist (Flight.weight delivery) (List.eraseIdx_sublist net.flights i)
    simp only [Pays, step, stock, supply, handed, List.flatMap_nil, List.count_nil]
    omega
  | Inject endpoint c bytes =>
    simp only [step]
    split
    · rename_i link hlink
      have hstranger := hlawful link hlink
      have hweight : Flight.weight delivery ⟨link.remote, endpoint, c, bytes⟩ = 0 := by
        rw [Flight.weight]
        cases accept bytes with
        | none => rfl
        | some frame =>
          rw [Option.elim_some, Frame.weight, List.count_eq_zero_of_not_mem, List.count_eq_zero_of_not_mem]
          · intro hmem
            rw [frame.receipts_target endpoint link.remote delivery hmem] at htarget
            exact hstranger htarget
          · intro hmem
            rw [frame.deliveries_origin endpoint link.remote delivery hmem] at horigin
            exact hstranger horigin
      simp only [Pays, stock, supply, handed, List.map_append, List.map_cons, List.map_nil, List.sum_append,
        List.sum_cons, List.sum_nil, hweight, List.flatMap_cons, List.flatMap_nil, Event.received,
        List.append_nil, List.count_nil]
      omega
    · exact pays_of_quiet ⟨rfl, rfl⟩

/-! ## The runs -/

omit [Postcard] in
theorem supply_eq (delivery : Delivery) (net : Network) : supply delivery net =
    (net.sent delivery.origin.endpoint).count delivery +
      (net.receipted delivery.target.endpoint).count delivery := by
  rw [sent, receipted, List.count_flatMap, List.count_flatMap]
  rfl

theorem cost_handed (net : Network) (acts : List Act) :
    Run.cost act (fun net a => handed delivery (net.step a).2) net acts =
      (net.received delivery.target.endpoint delivery.target.name acts).count delivery := by
  induction acts generalizing net with
  | nil => rfl
  | cons a acts ih =>
    have htrace : net.trace (a :: acts) = (net.step a).2 ++ (net.act a).trace acts := rfl
    rw [Run.cost, ih, received, received, htrace, List.flatMap_append, List.count_append]
    rfl

theorem received_queued {a : Act} {e : EndpointId} {name : ActorName} {d : Delivery}
    (h : Event.Received e name d ∈ (net.step a).2) :
    ∃ rest, (net.nodes e).router.queue name = some (d :: rest) := by
  have hpost (net : Network) (endpoint : EndpointId) (c : ConnId) (out : Option (List UInt8)) :
      Event.Received e name d ∉ (net.post endpoint c out).2 := by
    rcases net.post_cases endpoint c out with hnone | ⟨bytes, target, far, -, -, -, hpost⟩
    · simp [hnone]
    · simp [hpost]
  cases a with
  | Receive endpoint name' =>
    simp only [step] at h
    rcases (net.nodes endpoint).router.recv_cases name' with hrecv | ⟨received, rest, hbefore, hgot, -⟩
    · simp [hrecv] at h
    · rw [hgot] at h
      cases List.mem_singleton.mp h
      exact ⟨rest, hbefore⟩
  | Write endpoint i written =>
    simp only [step, write] at h
    split at h
    · exact (hpost _ _ _ _ h).elim
    · exact (List.not_mem_nil h).elim
  | Drop endpoint i sent =>
    simp only [step, drop] at h
    split at h
    · exact (List.not_mem_nil h).elim
    · exact (hpost _ _ _ _ h).elim
    · exact (List.not_mem_nil h).elim
  | Read endpoint c =>
    have hreading := net.read_reading endpoint c
    simp only [step] at h
    generalize net.read endpoint c = read at hreading h
    rcases hreading with _ | _ | _ | _ <;> simp at h
  | Answer endpoint c written =>
    simp only [step, answer] at h
    split at h
    · split at h
      · exact (hpost _ _ _ _ h).elim
      · exact (List.not_mem_nil h).elim
    · exact (List.not_mem_nil h).elim
  | Fan endpoint c =>
    simp only [step, fan] at h
    split at h <;> simp at h
  | Inject endpoint c bytes =>
    simp only [step] at h
    split at h <;> simp at h
  | _ => exact (List.not_mem_nil h).elim

theorem received_target (hwired : net.Wired) (acts : List Act) (endpoint : EndpointId) (name : ActorName) :
    ∀ delivery ∈ net.received endpoint name acts, delivery.target = ⟨endpoint, name⟩ := by
  induction acts generalizing net with
  | nil => exact fun _ hmem => (List.not_mem_nil hmem).elim
  | cons a acts ih =>
    intro delivery hmem
    have htrace : net.trace (a :: acts) = (net.step a).2 ++ (net.act a).trace acts := rfl
    rw [received, htrace, List.flatMap_append] at hmem
    rcases List.mem_append.mp hmem with hnow | hlater
    · obtain ⟨event, hevent, hdelivery⟩ := List.mem_flatMap.mp hnow
      cases event with
      | Received endpoint' name' delivery' =>
        simp only [Event.received] at hdelivery
        split at hdelivery
        · rename_i hhere
          obtain ⟨rfl, rfl⟩ := hhere
          cases List.mem_singleton.mp hdelivery
          obtain ⟨rest, hqueue⟩ := received_queued hevent
          exact (hwired.nodes _).queued _ _ hqueue _ List.mem_cons_self
        · exact (List.not_mem_nil hdelivery).elim
      | _ => exact (List.not_mem_nil hdelivery).elim
    · exact ih (hwired.act a) delivery hlater

/-- In every run of a network in which anybody may write what they like on connections of their own: an
inbox hands out only what is addressed to it, and each delivery from an endpoint that runs the adapter no
more often than that endpoint's finished sends and batches ask for it, and its receipts for the batches
of the inbox's own endpoint. What a send has not finished, because it failed or was dropped, is never
handed out, and what it has finished is not handed out twice. -/
theorem nothing_forged_or_doubled (hpostcard : Postcard.RoundTrips) (hcuts : Postcard.CutsFail)
    (adapters : Finset EndpointId) (acts : List Act)
    (hlawful : Run.Along act Lawful (start adapters) acts) {origin target : EndpointId}
    (horigin : origin ∈ adapters) (htarget : target ∈ adapters) (name : ActorName) :
    let net := (start adapters).after acts
    let received := (start adapters).received target name acts
    (∀ delivery ∈ received, delivery.target = ⟨target, name⟩) ∧
      ∀ delivery, delivery.origin.endpoint = origin →
        received.count delivery ≤ (net.sent origin).count delivery + (net.receipted target).count delivery := by
  intro net received
  have htargets := received_target (wired_start adapters) acts target name
  refine ⟨htargets, fun delivery hdelivery => ?_⟩
  by_cases hmem : delivery ∈ received
  · have hfor := htargets delivery hmem
    have hpaid := Stock.cost_le act (stock delivery) (supply delivery)
      (I := fun net => net.Wired ∧ net.adapters = adapters)
      (fun net a h _ => ⟨h.1.act a, (net.act_adapters a).trans h.2⟩)
      (fun net a h hlawful => step_pays hpostcard hcuts h.1 (by rwa [h.2, hdelivery]) (by rwa [h.2, hfor])
        hlawful)
      (start adapters) acts ⟨wired_start adapters, rfl⟩ hlawful
    have hempty : stock delivery (start adapters) = 0 := rfl
    rw [cost_handed, supply_eq delivery (Run.after ..), hfor, hdelivery, hempty, Nat.zero_add] at hpaid
    exact Nat.le_trans (Nat.le_trans (Nat.le_add_right ..) (Nat.le_add_right ..)) hpaid
  · rw [List.count_eq_zero_of_not_mem hmem]
    exact Nat.zero_le _

end Network

end

end Kamiroh.Iroh

namespace Kamiroh.Sample

open Iroh

theorem postcard_cutsFail : @Postcard.CutsFail postcard := by
  have hbatch : ∀ n < batchBytes.length, batchBytes.take n ≠ batchBytes ∧ batchBytes.take n ≠ receiptBytes := by
    decide +kernel
  have hreceipt : ∀ n < receiptBytes.length,
      receiptBytes.take n ≠ batchBytes ∧ receiptBytes.take n ≠ receiptBytes := by
    decide +kernel
  have hnone : ∀ bytes frame', bytes ≠ batchBytes ∧ bytes ≠ receiptBytes →
      @Postcard.fromBytes postcard bytes ≠ .ok frame' := by
    intro bytes frame' hne
    unfold Postcard.fromBytes
    dsimp only [postcard]
    rw [if_neg hne.1, if_neg hne.2]
    exact nofun
  intro frame bytes n hencode hn frame'
  unfold Postcard.toStdvec at hencode
  dsimp only [postcard] at hencode
  split at hencode
  · cases hencode
    exact hnone _ frame' (hbatch n hn)
  · split at hencode
    · cases hencode
      exact hnone _ frame' (hreceipt n hn)
    · cases hencode

/-- Alice's first attempt breaks off, and her second sends the batch. Carol writes the same bytes on a
connection of her own. -/
def forgery : List Network.Act :=
  [.Bind bob.endpoint bob, .Bind alice.endpoint alice, .Upkeep alice.endpoint (.AddPeer bob.endpoint),
    .OpenMany alice.endpoint alice bob.endpoint [bob.name, dave.name, bob.name] (request 1),
    .Connect alice.endpoint 0 (.ok ()), .Upkeep bob.endpoint (.Accepted 0),
    .Write alice.endpoint 0 (.Cut (some 7) "connection lost"), .Connect alice.endpoint 0 (.ok ()),
    .Write alice.endpoint 0 .Whole, .Upkeep bob.endpoint (.Established carol.endpoint),
    .Upkeep bob.endpoint (.Accepted 1), .Upkeep bob.endpoint (.Accepted 2), .Inject bob.endpoint 2 batchBytes,
    .Read bob.endpoint 0, .Read bob.endpoint 1, .Read bob.endpoint 2, .Answer bob.endpoint 1 .Whole,
    .Fan bob.endpoint 1, .Answer bob.endpoint 2 .Whole, .Fan bob.endpoint 2, .Read alice.endpoint 1,
    .Receive bob.endpoint bob.name, .Receive bob.endpoint bob.name, .Receive bob.endpoint bob.name,
    .Receive alice.endpoint alice.name]

end Kamiroh.Sample

namespace Kamiroh.Iroh.Network

open Sample

theorem nothing_forged_or_doubled_alice :
    let opened := openOf bob.endpoint alice (request 1) bob.name
    let forged := openOf bob.endpoint ⟨carol.endpoint, alice.name⟩ (request 1) bob.name
    @received postcard (start {alice.endpoint, bob.endpoint}) bob.endpoint bob.name forgery =
        [opened, opened, forged] ∧
      (@received postcard (start {alice.endpoint, bob.endpoint}) bob.endpoint bob.name forgery).count opened ≤
        2 := by
  refine ⟨by decide +kernel, ?_⟩
  have h := (@nothing_forged_or_doubled postcard postcard_roundTrips postcard_cutsFail
    {alice.endpoint, bob.endpoint} forgery (by decide +kernel) alice.endpoint bob.endpoint (by decide) (by decide)
    bob.name).2 (openOf bob.endpoint alice (request 1) bob.name) rfl
  refine h.trans ?_
  decide +kernel

end Kamiroh.Iroh.Network
