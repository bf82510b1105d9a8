import Kamiroh.Iroh.Connected
import Kamiroh.Iroh.Network

/-!
# How the endpoints are wired

What holds in every state of a network: a connection has the same two endpoints at both ends, a stream
comes from where its connection does, and a task writes on a connection of the peer that it sends to.
-/

namespace Kamiroh.Iroh

/-! ## The remote of a connection -/

namespace IrohShared

def remote (shared : IrohShared) (c : ConnId) : Option EndpointId := (shared.links[c]?).map (·.remote)

/-- The connections of `shared` are still there, to the same peers, and closed if they were. -/
def Grows (shared shared' : IrohShared) : Prop :=
  ∀ (c : ConnId) (link : Link), shared.links[c]? = some link → ∃ link' : Link,
    shared'.links[c]? = some link' ∧ link'.remote = link.remote ∧ (link'.reason = none → link.reason = none)

variable {shared shared' : IrohShared}

theorem Grows.remote (h : shared.Grows shared') {c : ConnId} {peer : EndpointId}
    (hremote : shared.remote c = some peer) : shared'.remote c = some peer := by
  obtain ⟨link, hlink, rfl⟩ := Option.map_eq_some_iff.mp hremote
  obtain ⟨link', hlink', hsame, -⟩ := h c link hlink
  rw [IrohShared.remote, hlink']
  exact congrArg some hsame

theorem grows_refl (shared : IrohShared) : shared.Grows shared := fun _ link hlink => ⟨link, hlink, rfl, id⟩

theorem Grows.trans {shared'' : IrohShared} (h : shared.Grows shared') (h' : shared'.Grows shared'') :
    shared.Grows shared'' := by
  intro c link hlink
  obtain ⟨link', hlink', hremote, hreason⟩ := h c link hlink
  obtain ⟨link'', hlink'', hremote', hreason'⟩ := h' c link' hlink'
  exact ⟨link'', hlink'', hremote'.trans hremote, hreason ∘ hreason'⟩

theorem grows_of_links (h : shared'.links = shared.links) : shared.Grows shared' := by
  intro c link hlink
  exact ⟨link, by rwa [h], rfl, id⟩

theorem grows_snoc {new : Link} (h : shared'.links = shared.links ++ [new]) : shared.Grows shared' := by
  intro c link hlink
  exact ⟨link, by rw [h]; exact snoc_link.mpr (Or.inl hlink), rfl, id⟩

theorem established_remote (shared : IrohShared) (peer : EndpointId) :
    (shared.established peer).remote shared.links.length = some peer := by
  rw [remote, established, snoc_link.mpr (Or.inr ⟨rfl, rfl⟩)]
  rfl

theorem grows_modify {c : ConnId} {change : Link → Link} (h : shared'.links = shared.links.modify c change)
    (hremote : ∀ link, (change link).remote = link.remote)
    (hreason : ∀ link, (change link).reason = none → link.reason = none) : shared.Grows shared' := by
  intro o link hlink
  refine ⟨_, by rw [h]; exact modify_link.mpr ⟨link, hlink, rfl⟩, ?_⟩
  split
  · exact ⟨hremote link, hreason link⟩
  · exact ⟨rfl, id⟩

theorem grows_close {c : ConnId} {reason : ConnectionError}
    (h : shared'.links = shared.links.modify c (·.close reason)) : shared.Grows shared' := by
  refine grows_modify h (fun link => close_remote link reason) fun link hnone => ?_
  rw [close_reason] at hnone
  cases hnone

theorem grows_connectionTo (peer : EndpointId) (forceFresh : Bool) (dialed : Except String Unit) :
    shared.Grows (shared.connectionTo peer forceFresh dialed).2 := by
  rcases shared.connectionTo_cases peer forceFresh dialed with hsame | hjoined
  · rw [hsame]
    exact shared.grows_refl
  · rw [hjoined]
    exact grows_snoc rfl

theorem grows_watches {c : ConnId} {ran : Option EndpointId × IrohShared} (hran : Watches shared c ran) :
    shared.Grows ran.2 := by
  rcases hran with _ | ⟨link, hlink, hstage, reason, hreason, reported, -, connections, -, deathWatchers⟩
  · exact shared.grows_refl
  · exact grows_modify rfl (fun _ => rfl) fun _ => id

theorem grows_act (a : Act) : shared.Grows (shared.act a) := by
  cases a with
  | AddPeer peer => exact grows_of_links rfl
  | DeathWatch => exact grows_of_links rfl
  | Established remote => exact grows_snoc rfl
  | Accepted c =>
    simp only [act, accepted]
    split
    · split
      · exact grows_modify rfl (fun _ => rfl) fun _ => id
      · exact shared.grows_refl
    · exact shared.grows_refl
  | ConnectionTo peer forceFresh dialed => exact grows_connectionTo peer forceFresh dialed
  | CloseConnection peer =>
    simp only [act, closeConnection]
    split <;> exact grows_of_links rfl
  | HungUp c =>
    simp only [act, hungUp]
    split
    · exact grows_close rfl
    · exact shared.grows_refl
  | PeerCloses c cause => exact grows_close rfl
  | WatchConnection c => exact grows_watches (shared.watchConnection_watches c)

theorem connectionTo_remote (h : shared.Sane) {peer : EndpointId} {forceFresh : Bool}
    {dialed : Except String Unit} {c : ConnId} {shared' : IrohShared}
    (hgot : shared.connectionTo peer forceFresh dialed = (.ok c, shared')) :
    shared'.remote c = some peer := by
  have hdial (hgot : shared.dial peer dialed = (.ok c, shared')) : shared'.remote c = some peer := by
    unfold dial at hgot
    split at hgot
    · cases hgot
    · split at hgot
      · cases hgot
      · cases hgot
        rw [remote, snoc_link.mpr (Or.inr ⟨rfl, rfl⟩)]
        rfl
  unfold connectionTo at hgot
  split at hgot
  · exact hdial hgot
  · split at hgot
    · rename_i hcached
      cases hgot
      obtain ⟨-, link, hlink, hpeer, -⟩ := h.cached peer c hcached
      rw [remote, hlink]
      exact congrArg some hpeer
    · exact hdial hgot

end IrohShared

/-! ## The inboxes -/

namespace Router

variable (router : Router)

/-- The router has got the deliveries, each into the inbox of its name. -/
def Routes (router router' : Router) (deliveries : List Delivery) : Prop :=
  ∀ name, router'.queue name = (router.queue name).map (· ++ deliveries.filter (·.target.name = name))

theorem route_routes (delivery : Delivery) : router.Routes (router.route delivery).1 [delivery] := by
  intro name
  rw [route_queue]
  refine Option.map_congr fun queue _ => ?_
  by_cases hname : delivery.target.name = name <;> simp [hname]

theorem route_queued (delivery : Delivery) : (router.route delivery).2.filterMap Act.delivery =
    [delivery].filter fun delivery => (router.queue delivery.target.name).isSome := by
  rw [route_acts]
  cases hbound : (router.queue delivery.target.name).isSome <;> simp [hbound, Act.delivery]

theorem routeAll_queued (deliveries : List Delivery) :
    (router.routeAll deliveries).2.filterMap Act.delivery =
      deliveries.filter fun delivery => (router.queue delivery.target.name).isSome := by
  rw [routeAll_acts, List.filterMap_map]
  exact List.filterMap_some

theorem bind_cases (endpointId : EndpointId) (address : Address) :
    (∃ error, router.bind endpointId address = (.error error, router)) ∨
      (router.bind endpointId address).1 = .ok () ∧ address.endpoint = endpointId ∧
        router.queue address.name = none ∧
        ∀ name, (router.bind endpointId address).2.queue name =
          if name = address.name then some [] else router.queue name := by
  unfold bind
  split
  · exact Or.inl ⟨_, rfl⟩
  · rename_i hours
    split
    · exact Or.inl ⟨_, rfl⟩
    · rename_i hfree
      refine Or.inr ⟨rfl, not_not.mp hours, ?_, fun name => ?_⟩
      · unfold queue
        cases hbound : router.bound.lookup address.name with
        | none => rfl
        | some channel =>
          obtain ⟨queue, _ | _⟩ := channel
          · exact absurd hbound (hfree queue)
          · rfl
      · unfold queue
        split
        · rename_i hname
          rw [hname, AList.lookup_insert]
          rfl
        · rename_i hname
          rw [AList.lookup_insert_ne hname]

theorem dropInbox_queue (name name' : ActorName) :
    (router.dropInbox name).queue name' = if name' = name then none else router.queue name' := by
  unfold dropInbox queue
  split
  · rename_i hname
    rw [hname, Assoc.lookup_modify_self]
    cases router.bound.lookup name <;> rfl
  · rename_i hname
    rw [Assoc.lookup_modify_of_ne _ _ hname]

theorem recv_cases (name : ActorName) :
    router.recv name = (none, router) ∨
      ∃ delivery rest, router.queue name = some (delivery :: rest) ∧
        (router.recv name).1 = some delivery ∧
        ∀ name', (router.recv name).2.queue name' =
          if name' = name then some rest else router.queue name' := by
  unfold recv
  split
  · rename_i delivery rest hbound
    refine Or.inr ⟨delivery, rest, by simp [queue, hbound], rfl, fun name' => ?_⟩
    unfold queue
    split
    · rename_i hname
      rw [hname, AList.lookup_insert]
      rfl
    · rename_i hname
      rw [AList.lookup_insert_ne hname]
  · exact Or.inl rfl

end Router

/-! ## One endpoint -/

section

variable [Postcard]

/-- A task has the bytes of its frame, and writes them to the peer that the frame is for. -/
def Call.Sound (shared : IrohShared) (call : Call) : Prop :=
  match call.state with
  | .Connecting bytes _ => Postcard.toStdvec call.frame = .ok bytes
  | .Streaming bytes _ c =>
    Postcard.toStdvec call.frame = .ok bytes ∧ shared.remote c = some call.target
  | _ => True

structure Node.Sound (endpoint : EndpointId) (node : Node) : Prop where
  sane : node.shared.Sane
  calls : ∀ call ∈ node.calls, call.Sound node.shared
  batches : ∀ batch ∈ node.batches, node.shared.remote batch.connection = some batch.origin
  paced : ∀ c, (node.batches.filter (·.connection = c)).length ≤ 1
  queued : ∀ name queue, node.router.queue name = some queue → ∀ delivery ∈ queue,
    delivery.target = ⟨endpoint, name⟩

omit [Postcard] in
theorem Batch.deliveries_target (endpoint : EndpointId) (batch : Batch) :
    ∀ delivery ∈ batch.deliveries endpoint, delivery.target.endpoint = endpoint := by
  intro delivery hdelivery
  obtain ⟨name, -, rfl⟩ := List.mem_map.mp hdelivery
  rfl

theorem Call.Sound.grows {shared shared' : IrohShared} {call : Call} (h : call.Sound shared)
    (hgrows : shared.Grows shared') : call.Sound shared' := by
  obtain ⟨target, frame, _ | _ | _ | _ | _⟩ := call
  · exact h
  · exact ⟨h.1, hgrows.remote h.2⟩
  · trivial
  · trivial
  · trivial

variable {endpoint : EndpointId} {node : Node}

theorem Node.Sound.shares (h : node.Sound endpoint) {shared : IrohShared} (hsane : shared.Sane)
    (hgrows : node.shared.Grows shared) : Node.Sound endpoint { node with shared } :=
  ⟨hsane, fun call hcall => (h.calls call hcall).grows hgrows,
    fun batch hbatch => hgrows.remote (h.batches batch hbatch), h.paced, h.queued⟩

theorem Node.Sound.calling (h : node.Sound endpoint) {call : Call} (hcall : call.Sound node.shared) :
    Node.Sound endpoint { node with calls := node.calls ++ [call] } := by
  refine ⟨h.sane, fun call' hcall' => ?_, h.batches, h.paced, h.queued⟩
  rcases List.mem_append.mp hcall' with hold | hnew
  · exact h.calls call' hold
  · cases List.mem_singleton.mp hnew
    exact hcall

theorem Node.Sound.set (h : node.Sound endpoint) (i : Nat) {call : Call} (hcall : call.Sound node.shared) :
    Node.Sound endpoint { node with calls := node.calls.set i call } := by
  refine ⟨h.sane, fun call' hcall' => ?_, h.batches, h.paced, h.queued⟩
  rcases List.mem_or_eq_of_mem_set hcall' with hold | rfl
  · exact h.calls call' hold
  · exact hcall

theorem Node.Sound.routes (h : node.Sound endpoint) {router : Router}
    (hqueued : ∀ name queue, router.queue name = some queue → ∀ delivery ∈ queue,
      delivery.target = ⟨endpoint, name⟩) : Node.Sound endpoint { node with router } :=
  ⟨h.sane, h.calls, h.batches, h.paced, hqueued⟩

theorem Node.Sound.routed (h : node.Sound endpoint) {router : Router} {deliveries : List Delivery}
    (hrouted : node.router.Routes router deliveries)
    (htarget : ∀ delivery ∈ deliveries, delivery.target.endpoint = endpoint) :
    Node.Sound endpoint { node with router } := by
  refine h.routes fun name queue hqueue delivery hmem => ?_
  rw [hrouted name] at hqueue
  obtain ⟨before, hbefore, rfl⟩ := Option.map_eq_some_iff.mp hqueue
  rcases List.mem_append.mp hmem with hold | hnew
  · exact h.queued name before hbefore delivery hold
  · obtain ⟨hdelivery, hname⟩ := List.mem_filter.mp hnew
    rw [← of_decide_eq_true hname, ← htarget delivery hdelivery]

theorem Node.Sound.batched (h : node.Sound endpoint) {batches : List Batch}
    (hbatches : ∀ batch ∈ batches, node.shared.remote batch.connection = some batch.origin)
    (hpaced : ∀ c, (batches.filter (·.connection = c)).length ≤ 1) :
    Node.Sound endpoint { node with batches } :=
  ⟨h.sane, h.calls, hbatches, hpaced, h.queued⟩

theorem Node.Sound.fanned (h : node.Sound endpoint) (p : Batch → Bool) :
    Node.Sound endpoint { node with batches := node.batches.eraseP p } :=
  h.batched (fun batch hbatch => h.batches batch (List.mem_of_mem_eraseP hbatch))
    fun c => Nat.le_trans (List.eraseP_sublist.filter _).length_le (h.paced c)

theorem Node.Sound.only (h : node.Sound endpoint) {c : ConnId} {answered : Bool} {batch : Batch}
    (hfind : node.batches.find? (Batch.isAt c answered) = some batch) :
    node.batches.filter (·.connection = c) = [batch] ∧
      (node.batches.eraseP (Batch.isAt c answered)).filter (·.connection = c) = [] := by
  have hat := List.find?_some hfind
  simp only [Batch.isAt, Bool.and_eq_true, decide_eq_true_eq] at hat
  have hperm := (Stock.perm_of_find hfind).filter (·.connection = c)
  simp only [List.filter_cons, hat.1, decide_true, if_true] at hperm
  have hone := h.paced c
  rw [← hperm.length_eq, List.length_cons] at hone
  have hrest := List.length_eq_zero_iff.mp (Nat.le_zero.mp (Nat.le_of_succ_le_succ hone))
  rw [hrest] at hperm
  exact ⟨List.perm_singleton.mp hperm.symm, hrest⟩

omit [Postcard] in
theorem filter_other {batches : List Batch} {c c' : ConnId} (hne : c' ≠ c) (answered : Bool) :
    (batches.eraseP (Batch.isAt c answered)).filter (·.connection = c') =
      batches.filter (·.connection = c') := by
  refine Stock.filter_eraseP fun batch hat => decide_eq_false ?_
  simp only [Batch.isAt, Bool.and_eq_true, decide_eq_true_eq] at hat
  rw [hat.1]
  exact Ne.symm hne

end

/-! ## The whole network -/

namespace Network

def remote (net : Network) (endpoint : EndpointId) (c : ConnId) : Option EndpointId :=
  (net.nodes endpoint).shared.remote c

structure Wired [Postcard] (net : Network) : Prop where
  nodes : ∀ endpoint, (net.nodes endpoint).Sound endpoint
  wires : ∀ endpoint c far, net.wires.lookup (endpoint, c) = some far → ∃ target,
    net.remote endpoint c = some target ∧ net.remote target far = some endpoint
  flights : ∀ flight ∈ net.flights, net.remote flight.target flight.connection = some flight.origin

section

variable {net : Network} {endpoint e : EndpointId} {change : Node → Node}

@[simp] theorem modify_self : (net.modify e change).nodes e = change (net.nodes e) :=
  Function.update_self ..

@[simp] theorem modify_ne (h : endpoint ≠ e) : (net.modify e change).nodes endpoint = net.nodes endpoint :=
  Function.update_of_ne h ..

@[simp] theorem modify_flights : (net.modify e change).flights = net.flights := rfl

@[simp] theorem modify_wires : (net.modify e change).wires = net.wires := rfl

@[simp] theorem modify_adapters : (net.modify e change).adapters = net.adapters := rfl

theorem modify_nodes {p : EndpointId → Node → Prop} (hall : ∀ endpoint, p endpoint (net.nodes endpoint))
    (hchanged : p e (change (net.nodes e))) (endpoint : EndpointId) :
    p endpoint ((net.modify e change).nodes endpoint) := by
  by_cases hsame : endpoint = e
  · subst hsame
    rwa [modify_self]
  · rw [modify_ne hsame]
    exact hall endpoint

theorem post_cases (net : Network) (endpoint : EndpointId) (c : ConnId) (out : Option (List UInt8)) :
    net.post endpoint c out = (net, []) ∨
      ∃ bytes target far, out = some bytes ∧ net.remote endpoint c = some target ∧
        net.wires.lookup (endpoint, c) = some far ∧
        net.post endpoint c out =
          ({ net with flights := net.flights ++ [⟨endpoint, target, far, bytes⟩] },
            [.Opened ⟨endpoint, target, far, bytes⟩]) := by
  unfold post
  split
  · exact Or.inl rfl
  · rename_i bytes
    split
    · rename_i link far hlink hfar
      exact Or.inr ⟨bytes, link.remote, far, rfl, by simp [remote, IrohShared.remote, hlink], hfar, rfl⟩
    · exact Or.inl rfl

theorem find_batch {c : ConnId} {answered : Bool} {batch : Batch}
    (hfind : (net.nodes endpoint).batches.find? (Batch.isAt c answered) = some batch) :
    batch ∈ (net.nodes endpoint).batches ∧ batch.connection = c ∧ batch.answered = answered := by
  have hat := List.find?_some hfind
  simp only [Batch.isAt, Bool.and_eq_true, decide_eq_true_eq] at hat
  exact ⟨List.mem_of_find?_eq_some hfind, hat⟩

theorem find_flight {c : ConnId} {flight : Flight}
    (hfind : net.flights.find? (Flight.isAt endpoint c) = some flight) :
    flight ∈ net.flights ∧ flight.target = endpoint ∧ flight.connection = c := by
  have hat := List.find?_some hfind
  simp only [Flight.isAt, Bool.and_eq_true, decide_eq_true_eq] at hat
  exact ⟨List.mem_of_find?_eq_some hfind, hat⟩

section

variable [Postcard]

/-- What a reader does: nothing, or it takes the first stream of its connection, and drops it, routes its
one delivery or starts on its batch. -/
inductive Reading (net : Network) (endpoint : EndpointId) (c : ConnId) : Network × List Event → Prop
  | idle : Reading net endpoint c (net, [])
  | dropped (flight : Flight) (hfind : net.flights.find? (Flight.isAt endpoint c) = some flight)
      (haccept : accept flight.bytes = none) :
      Reading net endpoint c
        ({ net with flights := net.flights.eraseP (Flight.isAt endpoint c) }, [.Took flight])
  | single (flight : Flight) (hfind : net.flights.find? (Flight.isAt endpoint c) = some flight)
      (origin : EndpointId) (horigin : net.remote endpoint c = some origin)
      (hfree : ∀ batch ∈ (net.nodes endpoint).batches, batch.connection ≠ c)
      (fromName toName : ActorName) (message : Message)
      (haccept : accept flight.bytes = some (.Single fromName toName message)) :
      Reading net endpoint c
        (Network.modify { net with flights := net.flights.eraseP (Flight.isAt endpoint c) } endpoint
            fun node =>
              { node with
                router := (node.router.route ⟨⟨origin, fromName⟩, ⟨endpoint, toName⟩, message⟩).1 },
          .Took flight :: (((net.nodes endpoint).router.route
            ⟨⟨origin, fromName⟩, ⟨endpoint, toName⟩, message⟩).2.filterMap Act.delivery).map
              (.Queued endpoint c))
  | batch (flight : Flight) (hfind : net.flights.find? (Flight.isAt endpoint c) = some flight)
      (origin : EndpointId) (horigin : net.remote endpoint c = some origin)
      (hfree : ∀ batch ∈ (net.nodes endpoint).batches, batch.connection ≠ c)
      (fromName : ActorName) (toNames : List ActorName) (request : Request)
      (haccept : accept flight.bytes = some (.OpenMany fromName toNames request)) :
      Reading net endpoint c
        (Network.modify { net with flights := net.flights.eraseP (Flight.isAt endpoint c) } endpoint
            fun node =>
              { node with
                batches := node.batches ++ [⟨c, origin, fromName, toNames, request, false⟩] },
          [.Took flight])

theorem read_reading (net : Network) (endpoint : EndpointId) (c : ConnId) :
    Reading net endpoint c (net.read endpoint c) := by
  unfold read
  dsimp only
  split
  · rename_i link flight hlink hfind
    have horigin : net.remote endpoint c = some link.remote := by
      rw [remote, IrohShared.remote, hlink]
      rfl
    split
    · exact .idle
    · rename_i hready
      have hfree : ∀ batch ∈ (net.nodes endpoint).batches, batch.connection ≠ c := by
        intro batch hbatch hat
        refine hready ?_
        rw [Bool.or_eq_true, List.any_eq_true]
        exact Or.inr ⟨batch, hbatch, decide_eq_true hat⟩
      split
      · rename_i haccept
        exact .dropped flight hfind haccept
      · rename_i fromName toName message haccept
        exact .single flight hfind link.remote horigin hfree fromName toName message haccept
      · rename_i fromName toNames request haccept
        exact .batch flight hfind link.remote horigin hfree fromName toNames request haccept
  · exact .idle

theorem Wired.modify (h : net.Wired) (hsound : (change (net.nodes e)).Sound e)
    (hgrows : (net.nodes e).shared.Grows (change (net.nodes e)).shared) : (net.modify e change).Wired := by
  have hremote : ∀ endpoint c peer, net.remote endpoint c = some peer →
      (net.modify e change).remote endpoint c = some peer :=
    modify_nodes (p := fun endpoint node => ∀ c peer, net.remote endpoint c = some peer →
      node.shared.remote c = some peer) (fun _ _ _ => id) fun _ _ => hgrows.remote
  refine ⟨modify_nodes h.nodes hsound, fun endpoint c far hfar => ?_, fun flight hflight => ?_⟩
  · obtain ⟨target, hnear, hback⟩ := h.wires endpoint c far hfar
    exact ⟨target, hremote _ _ _ hnear, hremote _ _ _ hback⟩
  · exact hremote _ _ _ (h.flights flight hflight)

theorem Wired.post (h : net.Wired) (endpoint : EndpointId) (c : ConnId) (out : Option (List UInt8)) :
    (net.post endpoint c out).1.Wired := by
  rcases net.post_cases endpoint c out with hnone | ⟨bytes, target, far, -, hremote, hfar, hpost⟩
  · rwa [hnone]
  · rw [hpost]
    refine ⟨h.nodes, h.wires, fun flight hflight => ?_⟩
    rcases List.mem_append.mp hflight with hold | hnew
    · exact h.flights flight hold
    · cases List.mem_singleton.mp hnew
      obtain ⟨target', hremote', hback⟩ := h.wires endpoint c far hfar
      cases hremote.symm.trans hremote'
      exact hback

theorem Wired.subset (h : net.Wired) {flights : List Flight} (hsub : flights ⊆ net.flights) :
    Wired { net with flights } :=
  ⟨h.nodes, h.wires, fun flight hflight => h.flights flight (hsub hflight)⟩

theorem Wired.join (h : net.Wired) {c : ConnId} {target : EndpointId}
    (hremote : net.remote endpoint c = some target) : (net.join endpoint c target).Wired := by
  unfold Network.join
  split
  · have hgrows : (net.nodes target).shared.Grows ((net.nodes target).shared.established endpoint) :=
      IrohShared.grows_snoc rfl
    have hjoined : (net.modify target fun node =>
        { node with shared := node.shared.established endpoint }).Wired :=
      h.modify ((h.nodes target).shares ((h.nodes target).sane.snoc endpoint .Accepted) hgrows) hgrows
    have hnear : (net.modify target fun node =>
        { node with shared := node.shared.established endpoint }).remote endpoint c = some target := by
      refine modify_nodes (p := fun endpoint' node => endpoint' = endpoint →
        node.shared.remote c = some target) ?_ ?_ endpoint rfl
      · rintro _ rfl
        exact hremote
      · rintro rfl
        exact hgrows.remote hremote
    have hfar : (net.modify target fun node => { node with shared := node.shared.established endpoint }).remote
        target (net.nodes target).shared.links.length = some endpoint := by
      rw [remote, modify_self]
      exact (net.nodes target).shared.established_remote endpoint
    refine ⟨hjoined.nodes, fun endpoint' c' far' hlookup => ?_, hjoined.flights⟩
    by_cases hback : (endpoint', c') = (target, (net.nodes target).shared.links.length)
    · cases hback
      rw [AList.lookup_insert] at hlookup
      cases hlookup
      exact ⟨endpoint, hfar, hnear⟩
    · rw [AList.lookup_insert_ne hback] at hlookup
      by_cases hthere : (endpoint', c') = (endpoint, c)
      · cases hthere
        rw [AList.lookup_insert] at hlookup
        cases hlookup
        exact ⟨target, hnear, hfar⟩
      · rw [AList.lookup_insert_ne hthere] at hlookup
        exact hjoined.wires endpoint' c' far' hlookup
  · exact h

/-! ## Every step keeps the wiring -/

omit [Postcard] in
theorem post_adapters (net : Network) (endpoint : EndpointId) (c : ConnId) (out : Option (List UInt8)) :
    (net.post endpoint c out).1.adapters = net.adapters := by
  rcases net.post_cases endpoint c out with hnone | ⟨bytes, target, far, -, -, -, hpost⟩
  · rw [hnone]
  · rw [hpost]

omit [Postcard] in
theorem post_nodes (net : Network) (endpoint : EndpointId) (c : ConnId) (out : Option (List UInt8)) :
    (net.post endpoint c out).1.nodes = net.nodes := by
  rcases net.post_cases endpoint c out with hnone | ⟨bytes, target, far, -, -, -, hpost⟩
  · rw [hnone]
  · rw [hpost]

omit [Postcard] in
theorem modify_grows {taken : Network} (htaken : taken.nodes = net.nodes)
    (h : (net.nodes e).shared.Grows (change (net.nodes e)).shared) (endpoint : EndpointId) :
    (net.nodes endpoint).shared.Grows ((taken.modify e change).nodes endpoint).shared := by
  rw [← htaken] at h ⊢
  exact modify_nodes (p := fun endpoint node => (taken.nodes endpoint).shared.Grows node.shared)
    (fun _ => IrohShared.grows_refl _) h endpoint

omit [Postcard] in
theorem join_grows (net : Network) (e : EndpointId) (c : ConnId) (target endpoint : EndpointId) :
    (net.nodes endpoint).shared.Grows ((net.join e c target).nodes endpoint).shared := by
  unfold join
  split
  · dsimp only
    apply modify_grows
    · rfl
    · exact IrohShared.grows_snoc rfl
  · exact IrohShared.grows_refl _

theorem act_grows (net : Network) (a : Act) (endpoint : EndpointId) :
    (net.nodes endpoint).shared.Grows ((net.act a).nodes endpoint).shared := by
  have hkept {taken : Network} {change : Node → Node} {e : EndpointId} (htaken : taken.nodes = net.nodes)
      (hshared : (change (net.nodes e)).shared = (net.nodes e).shared) :
      (net.nodes endpoint).shared.Grows ((taken.modify e change).nodes endpoint).shared :=
    modify_grows htaken (IrohShared.grows_of_links (congrArg IrohShared.links hshared)) endpoint
  cases a with
  | Upkeep e act =>
    simp only [Network.act, step]
    exact modify_grows rfl (IrohShared.grows_act act) endpoint
  | Bind | Receive | DropInbox | Send | OpenMany =>
    simp only [Network.act, step, send]
    exact hkept rfl rfl
  | Connect e i dialed =>
    simp only [Network.act, step, connect]
    split
    · rename_i target frame bytes again hcall
      have hgrows := (net.nodes e).shared.grows_connectionTo target again dialed
      split
      · rename_i hgot
        rw [hgot] at hgrows
        exact modify_grows rfl hgrows endpoint
      · rename_i c shared hgot
        rw [hgot] at hgrows
        split
        · apply IrohShared.Grows.trans _ (join_grows _ e c target endpoint)
          exact modify_grows rfl hgrows endpoint
        · exact modify_grows rfl hgrows endpoint
    · exact IrohShared.grows_refl _
  | Write e i written =>
    simp only [Network.act, step, write]
    split
    · rw [post_nodes]
      exact hkept rfl rfl
    · exact IrohShared.grows_refl _
  | Drop e i sent =>
    simp only [Network.act, step, drop]
    split
    · dsimp only
      exact hkept rfl rfl
    · rw [post_nodes]
      exact hkept rfl rfl
    · exact IrohShared.grows_refl _
  | Read e c =>
    have hreading := net.read_reading e c
    simp only [Network.act, step]
    generalize net.read e c = read at hreading
    rcases hreading with _ | _ | _ | _
    · exact IrohShared.grows_refl _
    · exact IrohShared.grows_refl _
    · dsimp only
      exact hkept rfl rfl
    · dsimp only
      exact hkept rfl rfl
  | Answer e c written =>
    simp only [Network.act, step, answer]
    split
    · split
      · rw [post_nodes]
        exact hkept rfl rfl
      · dsimp only
        exact hkept rfl rfl
    · exact IrohShared.grows_refl _
  | Fan e c =>
    simp only [Network.act, step, fan]
    split
    · dsimp only
      exact hkept rfl rfl
    · exact IrohShared.grows_refl _
  | Lose i => exact IrohShared.grows_refl _
  | Inject e c bytes =>
    simp only [Network.act, step]
    split <;> exact IrohShared.grows_refl _

theorem act_adapters (net : Network) (a : Act) : (net.act a).adapters = net.adapters := by
  cases a with
  | Connect endpoint i dialed =>
    simp only [act, step, connect]
    split
    · split
      · rfl
      · split
        · unfold join
          split <;> rfl
        · rfl
    · rfl
  | Write endpoint i written =>
    simp only [act, step, write]
    split
    · exact post_adapters ..
    · rfl
  | Drop endpoint i sent =>
    simp only [act, step, drop]
    split
    · rfl
    · exact post_adapters ..
    · rfl
  | Read endpoint c =>
    have hreading := net.read_reading endpoint c
    simp only [act, step]
    generalize net.read endpoint c = read at hreading
    rcases hreading with _ | _ | _ | _ <;> rfl
  | Answer endpoint c written =>
    simp only [act, step, answer]
    split
    · split
      · exact post_adapters ..
      · rfl
    · rfl
  | Fan endpoint c =>
    simp only [act, step, fan]
    split <;> rfl
  | Inject endpoint c bytes =>
    simp only [act, step]
    split <;> rfl
  | _ => rfl

theorem Wired.send (h : net.Wired) (endpoint : EndpointId) (origin : Address) (target : EndpointId)
    (frame : Frame) : (net.send endpoint origin target frame).Wired := by
  unfold Network.send
  refine h.modify ((h.nodes endpoint).calling ?_) (IrohShared.grows_of_links rfl)
  dsimp only [Call.Sound]
  split
  · rename_i hstate
    split at hstate
    · cases hstate
    · split at hstate
      · cases hstate
      · rename_i hencode
        cases hstate
        exact hencode
  · rename_i hstate
    split at hstate
    · cases hstate
    · split at hstate <;> cases hstate
  · trivial

theorem Wired.connect (h : net.Wired) (endpoint : EndpointId) (i : Nat) (dialed : Except String Unit) :
    (net.connect endpoint i dialed).Wired := by
  unfold Network.connect
  split
  · rename_i target frame bytes again hcall
    have hsound := h.nodes endpoint
    have hbytes : Postcard.toStdvec frame = .ok bytes := hsound.calls _ (List.mem_of_getElem? hcall)
    have hgrows := (net.nodes endpoint).shared.grows_connectionTo target again dialed
    have hsane := hsound.sane.connectionTo target again dialed
    split
    · rename_i error shared hgot
      rw [hgot] at hgrows hsane
      refine h.modify ((hsound.shares hsane hgrows).set i ?_) hgrows
      trivial
    · rename_i c shared hgot
      have hremote := IrohShared.connectionTo_remote hsound.sane hgot
      rw [hgot] at hgrows hsane
      have hconnected : (net.modify endpoint fun node =>
          { node with
            shared
            calls := node.calls.set i ⟨target, frame, .Streaming bytes again c⟩ }).Wired := by
        refine h.modify ((hsound.shares hsane hgrows).set i ?_) hgrows
        exact ⟨hbytes, hremote⟩
      split
      · refine hconnected.join ?_
        rw [remote, modify_self]
        exact hremote
      · exact hconnected
  · exact h

theorem Wired.sets (h : net.Wired) (i : Nat) {call : Call}
    (hcall : call.Sound (net.nodes endpoint).shared) :
    (net.modify endpoint fun node => { node with calls := node.calls.set i call }).Wired :=
  h.modify ((h.nodes endpoint).set i hcall) (IrohShared.grows_of_links rfl)

theorem Wired.write (h : net.Wired) (endpoint : EndpointId) (i : Nat) (written : Written) :
    (net.write endpoint i written).1.Wired := by
  unfold Network.write
  split
  · rename_i target frame bytes again c hcall
    have hbytes : Postcard.toStdvec frame = .ok bytes :=
      ((h.nodes endpoint).calls _ (List.mem_of_getElem? hcall)).1
    refine (h.sets i ?_).post ..
    cases written with
    | Whole => trivial
    | Cut sent text =>
      cases again
      · exact hbytes
      · trivial
  · exact h

theorem Wired.drop (h : net.Wired) (endpoint : EndpointId) (i : Nat) (sent : Option Nat) :
    (net.drop endpoint i sent).1.Wired := by
  unfold Network.drop
  split
  · refine h.sets i ?_
    trivial
  · refine (h.sets i ?_).post ..
    trivial
  · exact h

theorem Wired.answer (h : net.Wired) (endpoint : EndpointId) (c : ConnId) (written : Written) :
    (net.answer endpoint c written).1.Wired := by
  unfold Network.answer
  split
  · rename_i batch hfind
    have hanswered : (net.modify endpoint fun node =>
        { node with
          batches := node.batches.eraseP (Batch.isAt c false) ++ [{ batch with answered := true }] }).Wired := by
      have hsound := h.nodes endpoint
      obtain ⟨hmem, hconnection, -⟩ := find_batch hfind
      refine h.modify (hsound.batched (fun batch' hbatch' => ?_) fun c' => ?_) (IrohShared.grows_of_links rfl)
      · rcases List.mem_append.mp hbatch' with hold | hnew
        · exact hsound.batches batch' (List.mem_of_mem_eraseP hold)
        · cases List.mem_singleton.mp hnew
          exact hsound.batches batch hmem
      · rw [List.filter_append]
        by_cases hsame : c' = c
        · rw [hsame, (hsound.only hfind).2]
          exact List.length_filter_le ..
        · rw [filter_other hsame, List.filter_cons_of_neg (by simp [hconnection, Ne.symm hsame])]
          simpa using hsound.paced c'
    dsimp only
    split
    · exact hanswered.post ..
    · exact hanswered
  · exact h

theorem Wired.fan (h : net.Wired) (endpoint : EndpointId) (c : ConnId) :
    (net.fan endpoint c).1.Wired := by
  unfold Network.fan
  split
  · rename_i batch hfind
    have hrouted := (h.nodes endpoint).routed
      ((net.nodes endpoint).router.routeAll_queue (batch.deliveries endpoint)) (batch.deliveries_target endpoint)
    dsimp only
    exact h.modify (hrouted.fanned (Batch.isAt c true)) (IrohShared.grows_of_links rfl)
  · exact h

theorem Wired.read (h : net.Wired) (endpoint : EndpointId) (c : ConnId) :
    (net.read endpoint c).1.Wired := by
  have hreading := net.read_reading endpoint c
  generalize net.read endpoint c = read at hreading
  have htaken : Wired { net with flights := net.flights.eraseP (Flight.isAt endpoint c) } :=
    h.subset List.eraseP_subset
  rcases hreading with _ | ⟨flight, hfind⟩ | ⟨flight, hfind, origin, horigin, -, fromName, toName, message⟩ |
    ⟨flight, hfind, origin, horigin, hfree, fromName, toNames, request⟩
  · exact h
  · exact htaken
  · dsimp only
    refine htaken.modify ((h.nodes endpoint).routed (Router.route_routes _ _) ?_)
      (IrohShared.grows_of_links rfl)
    exact List.forall_mem_singleton.mpr rfl
  · dsimp only
    have hsound := h.nodes endpoint
    refine htaken.modify (hsound.batched (fun batch hbatch => ?_) fun c' => ?_) (IrohShared.grows_of_links rfl)
    · rcases List.mem_append.mp hbatch with hold | hnew
      · exact hsound.batches batch hold
      · cases List.mem_singleton.mp hnew
        exact horigin
    · rw [List.filter_append]
      by_cases hsame : c = c'
      · subst hsame
        rw [List.filter_eq_nil_iff.mpr fun batch hbatch => by simpa using hfree batch hbatch]
        exact List.length_filter_le ..
      · rw [List.filter_cons_of_neg (by simp [hsame])]
        simpa using hsound.paced c'

theorem Wired.act (h : net.Wired) (a : Act) : (net.act a).Wired := by
  cases a with
  | Upkeep endpoint act =>
    have hgrows := (net.nodes endpoint).shared.grows_act act
    simp only [Network.act, Network.step]
    exact h.modify ((h.nodes endpoint).shares ((h.nodes endpoint).sane.act act) hgrows) hgrows
  | Bind endpoint address =>
    simp only [Network.act, Network.step]
    refine h.modify ((h.nodes endpoint).routes fun name queue hqueue => ?_) (IrohShared.grows_of_links rfl)
    rcases (net.nodes endpoint).router.bind_cases endpoint address with ⟨error, hbind⟩ | ⟨-, -, -, hbind⟩
    · rw [hbind] at hqueue
      exact (h.nodes endpoint).queued name queue hqueue
    · rw [hbind] at hqueue
      split at hqueue
      · cases hqueue
        simp
      · exact (h.nodes endpoint).queued name queue hqueue
  | Receive endpoint name =>
    simp only [Network.act, Network.step]
    refine h.modify ((h.nodes endpoint).routes fun name' queue hqueue => ?_) (IrohShared.grows_of_links rfl)
    rcases (net.nodes endpoint).router.recv_cases name with hrecv | ⟨delivery, rest, hbefore, -, hrecv⟩
    · rw [hrecv] at hqueue
      exact (h.nodes endpoint).queued name' queue hqueue
    · rw [hrecv] at hqueue
      split at hqueue
      · rename_i hname
        cases hqueue
        subst hname
        exact fun d hd => (h.nodes endpoint).queued name' _ hbefore d (List.mem_cons_of_mem _ hd)
      · exact (h.nodes endpoint).queued name' queue hqueue
  | DropInbox endpoint name =>
    simp only [Network.act, Network.step]
    refine h.modify ((h.nodes endpoint).routes fun name' queue hqueue => ?_) (IrohShared.grows_of_links rfl)
    rw [Router.dropInbox_queue] at hqueue
    split at hqueue
    · cases hqueue
    · exact (h.nodes endpoint).queued name' queue hqueue
  | Send endpoint origin target message => exact h.send ..
  | OpenMany endpoint origin toEndpoint toNames request => exact h.send ..
  | Connect endpoint i dialed => exact h.connect ..
  | Write endpoint i written => exact h.write ..
  | Drop endpoint i sent => exact h.drop ..
  | Read endpoint c => exact h.read ..
  | Answer endpoint c written => exact h.answer ..
  | Fan endpoint c => exact h.fan ..
  | Lose i => exact h.subset (List.eraseIdx_subset ..)
  | Inject endpoint c bytes =>
    simp only [Network.act, Network.step]
    split
    · rename_i link hlink
      refine ⟨h.nodes, h.wires, fun flight hflight => ?_⟩
      rcases List.mem_append.mp hflight with hold | hnew
      · exact h.flights flight hold
      · cases List.mem_singleton.mp hnew
        exact congrArg (Option.map (·.remote)) hlink
    · exact h

theorem wired_start (adapters : Finset EndpointId) : (start adapters).Wired :=
  ⟨fun _ => ⟨IrohShared.sane_new, fun _ h => (List.not_mem_nil h).elim,
      fun _ h => (List.not_mem_nil h).elim, fun _ => Nat.zero_le _, fun _ _ h => (nomatch h)⟩,
    fun _ _ _ h => (nomatch h), fun _ h => (List.not_mem_nil h).elim⟩

end

end

end Network

end Kamiroh.Iroh
