import Kamiroh.Iroh.Provenance
import Mathlib.Data.List.Flatten

/-!
# What arrives at an inbox, and in what order

What is written on a connection is on its way, at the reader, or in the inboxes that it is for, once and in
the order of writing, until the connection closes.
-/

namespace Kamiroh.Iroh.Network

variable {net net' : Network} {endpoint e : EndpointId} {name : ActorName} {change : Node → Node}

/-! ## The inbox -/

/-- What is for `name` among deliveries. -/
def mail (name : ActorName) (deliveries : List Delivery) : List Delivery :=
  deliveries.filter (·.target.name = name)

/-- What arrives in the inbox, with the connection that it came on. -/
def Event.arrival (endpoint : EndpointId) (name : ActorName) : Event → List (ConnId × Delivery)
  | Queued endpoint' c delivery =>
    if endpoint' = endpoint ∧ delivery.target.name = name then [(c, delivery)] else []
  | _ => []

/-- An event that no inbox has part in. -/
def Event.isAside : Event → Bool
  | Opened _ | Took _ => true
  | Queued .. | Received .. => false

/-- The inbox lives on, and what it handed out and what it holds is what it held and what arrived. -/
def Inboxed (endpoint : EndpointId) (name : ActorName) (net : Network) (stepped : Network × List Event) :
    Prop :=
  ∀ queue, (net.nodes endpoint).router.queue name = some queue → ∃ queue',
    (stepped.1.nodes endpoint).router.queue name = some queue' ∧
      stepped.2.flatMap (Event.received endpoint name) ++ queue' =
        queue ++ (stepped.2.flatMap (Event.arrival endpoint name)).map Prod.snd

theorem aside_nothing (endpoint : EndpointId) (name : ActorName) {events : List Event}
    (haside : ∀ event ∈ events, event.isAside) :
    events.flatMap (Event.received endpoint name) = [] ∧ events.flatMap (Event.arrival endpoint name) = [] := by
  refine ⟨List.flatMap_eq_nil_iff.mpr fun event hevent => ?_,
    List.flatMap_eq_nil_iff.mpr fun event hevent => ?_⟩
  · have h := haside event hevent
    cases event <;> first | rfl | cases h
  · have h := haside event hevent
    cases event <;> first | rfl | cases h

theorem inboxed_aside {stepped : Network × List Event} (haside : ∀ event ∈ stepped.2, event.isAside)
    (hqueue : (stepped.1.nodes endpoint).router.queue name = (net.nodes endpoint).router.queue name) :
    Inboxed endpoint name net stepped := by
  intro queue hbound
  obtain ⟨hreceived, harrival⟩ := aside_nothing endpoint name haside
  refine ⟨queue, hqueue.trans hbound, ?_⟩
  simp [hreceived, harrival]

theorem modify_router (h : (change (net.nodes e)).router = (net.nodes e).router) (endpoint : EndpointId) :
    ((net.modify e change).nodes endpoint).router = (net.nodes endpoint).router :=
  modify_nodes (p := fun endpoint node => node.router = (net.nodes endpoint).router) (fun _ => rfl) h endpoint

theorem post_aside (net : Network) (e : EndpointId) (c : ConnId) (out : Option (List UInt8)) :
    ∀ event ∈ (net.post e c out).2, event.isAside := by
  rcases net.post_cases e c out with hnone | ⟨bytes, target, far, -, -, -, hpost⟩
  · simp [hnone]
  · simp [hpost, Event.isAside]

theorem inboxed_nothing (net : Network) : Inboxed endpoint name net (net, []) :=
  inboxed_aside (fun _ h => (List.not_mem_nil h).elim) rfl

theorem inboxed_modify (h : (change (net.nodes e)).router = (net.nodes e).router) :
    Inboxed endpoint name net (net.modify e change, []) :=
  inboxed_aside (fun _ h => (List.not_mem_nil h).elim) (congrArg (Router.queue · name) (modify_router h endpoint))

theorem inboxed_post (h : (change (net.nodes e)).router = (net.nodes e).router) (c : ConnId)
    (out : Option (List UInt8)) : Inboxed endpoint name net ((net.modify e change).post e c out) := by
  refine inboxed_aside ((net.modify e change).post_aside e c out) ?_
  rw [(net.modify e change).post_nodes e c out, modify_router h]

theorem arrival_queued (e : EndpointId) (c : ConnId) (queued : List Delivery) :
    (queued.map (Event.Queued e c)).flatMap (Event.arrival endpoint name) =
      if e = endpoint then (mail name queued).map (Prod.mk c) else [] := by
  induction queued with
  | nil => simp [mail]
  | cons delivery queued ih =>
    rw [List.map_cons, List.flatMap_cons, ih, Event.arrival]
    by_cases hhere : e = endpoint
    · by_cases hname : delivery.target.name = name <;> simp [hhere, hname, mail]
    · simp [hhere]

theorem mail_queued {router : Router} {queue : List Delivery} (hbound : router.queue name = some queue)
    (deliveries : List Delivery) :
    mail name (deliveries.filter fun delivery => (router.queue delivery.target.name).isSome) =
      mail name deliveries := by
  rw [mail, mail, List.filter_filter]
  refine List.filter_congr fun delivery _ => ?_
  by_cases hname : delivery.target.name = name <;> simp [hname, hbound]

theorem inboxed_routed {taken : Network} (htaken : taken.nodes = net.nodes) {deliveries : List Delivery}
    (hrouted : (net.nodes e).router.Routes (change (net.nodes e)).router deliveries) (c : ConnId)
    (aside : List Event) (haside : ∀ event ∈ aside, event.isAside) :
    Inboxed endpoint name net (taken.modify e change, aside ++ (deliveries.filter fun delivery =>
      ((net.nodes e).router.queue delivery.target.name).isSome).map (Event.Queued e c)) := by
  intro queue hbound
  obtain ⟨hreceived, harrival⟩ := aside_nothing endpoint name haside
  have hnone (queued : List Delivery) :
      (queued.map (Event.Queued e c)).flatMap (Event.received endpoint name) = [] := by
    rw [List.flatMap_map]
    exact List.flatMap_eq_nil_iff.mpr fun _ _ => rfl
  by_cases hhere : e = endpoint
  · subst hhere
    refine ⟨queue ++ mail name deliveries, ?_, ?_⟩
    · rw [modify_self, htaken, hrouted name, hbound]
      rfl
    · rw [List.flatMap_append, List.flatMap_append, hreceived, harrival, hnone, arrival_queued, if_pos rfl,
        mail_queued hbound]
      simp
  · refine ⟨queue, ?_, ?_⟩
    · rwa [modify_ne (Ne.symm hhere), htaken]
    · rw [List.flatMap_append, List.flatMap_append, hreceived, harrival, hnone, arrival_queued, if_neg hhere]
      simp

theorem inboxed_receive (net : Network) (e : EndpointId) (name' : ActorName) :
    Inboxed endpoint name net
      (net.modify e fun node => { node with router := ((net.nodes e).router.recv name').2 },
        ((net.nodes e).router.recv name').1.toList.map (.Received e name')) := by
  rcases (net.nodes e).router.recv_cases name' with hrecv | ⟨delivery, rest, hbefore, hgot, hrecv⟩
  · rw [hrecv]
    exact inboxed_modify rfl
  · intro queue hbound
    rw [hgot]
    by_cases hhere : e = endpoint
    · subst hhere
      by_cases hname : name = name'
      · subst hname
        cases hbound.symm.trans hbefore
        refine ⟨rest, ?_, ?_⟩
        · rw [modify_self, hrecv, if_pos rfl]
        · simp [Event.received, Event.arrival]
      · refine ⟨queue, ?_, ?_⟩
        · rw [modify_self, hrecv, if_neg hname, hbound]
        · simp [Event.received, Event.arrival, Ne.symm hname]
    · refine ⟨queue, ?_, ?_⟩
      · rw [modify_ne (Ne.symm hhere), hbound]
      · simp [Event.received, Event.arrival, hhere]

theorem inboxed_bind (net : Network) (e : EndpointId) (address : Address) :
    Inboxed endpoint name net
      (net.modify e fun node => { node with router := (node.router.bind e address).2 }, []) := by
  intro queue hbound
  refine ⟨queue, ?_, by simp⟩
  by_cases hhere : e = endpoint
  · subst hhere
    rw [modify_self]
    rcases (net.nodes e).router.bind_cases e address with ⟨error, hbind⟩ | ⟨-, -, hfree, hbind⟩
    · rw [hbind, hbound]
    · rw [hbind, if_neg, hbound]
      rintro rfl
      cases hfree.symm.trans hbound
  · rw [modify_ne (Ne.symm hhere), hbound]

theorem inboxed_drop (net : Network) (e : EndpointId) (name' : ActorName)
    (hkept : ¬ (e = endpoint ∧ name' = name)) :
    Inboxed endpoint name net
      (net.modify e fun node => { node with router := node.router.dropInbox name' }, []) := by
  intro queue hbound
  refine ⟨queue, ?_, by simp⟩
  by_cases hhere : e = endpoint
  · rw [hhere, modify_self, Router.dropInbox_queue, if_neg, hbound]
    exact fun hname => hkept ⟨hhere, hname.symm⟩
  · rw [modify_ne (Ne.symm hhere), hbound]

section

variable [Postcard]

omit [Postcard] in
theorem inboxed_connect (net : Network) (e : EndpointId) (i : Nat) (dialed : Except String Unit) :
    Inboxed endpoint name net (net.connect e i dialed, []) := by
  refine inboxed_aside (fun _ h => (List.not_mem_nil h).elim) ?_
  simp only [connect]
  split
  · split
    · rw [modify_router]
      rfl
    · split
      · simp only [join]
        split
        · rw [modify_router]
          · rw [modify_router]
            rfl
          · rfl
        · rw [modify_router]
          rfl
      · rw [modify_router]
        rfl
  · rfl

theorem inboxed_read (net : Network) (e : EndpointId) (c : ConnId) :
    Inboxed endpoint name net (net.read e c) := by
  have hreading := net.read_reading e c
  generalize net.read e c = read at hreading
  rcases hreading with _ | ⟨flight, hfind⟩ |
    ⟨flight, hfind, origin, horigin, -, fromName, toName, message, haccept⟩ |
    ⟨flight, hfind, origin, horigin, -, fromName, toNames, request, haccept⟩
  · exact net.inboxed_nothing
  · exact inboxed_aside (by simp [Event.isAside]) rfl
  · rw [Router.route_queued]
    refine inboxed_routed ?_ ?_ c [.Took flight] (by simp [Event.isAside])
    · rfl
    · exact Router.route_routes _ _
  · refine inboxed_aside (by simp [Event.isAside]) ?_
    rw [modify_router rfl]

theorem step_inboxed (net : Network) (a : Act) (hkept : a ≠ .DropInbox endpoint name) :
    Inboxed endpoint name net (net.step a) := by
  cases a with
  | Upkeep e act =>
    simp only [step]
    refine inboxed_modify ?_
    rfl
  | Bind e address => exact net.inboxed_bind e address
  | Receive e name' => exact inboxed_receive net e name'
  | DropInbox e name' =>
    refine net.inboxed_drop e name' ?_
    rintro ⟨rfl, rfl⟩
    exact hkept rfl
  | Send e origin target message =>
    simp only [step, send]
    refine inboxed_modify ?_
    rfl
  | OpenMany e origin toEndpoint toNames request =>
    simp only [step, send]
    refine inboxed_modify ?_
    rfl
  | Connect e i dialed => exact net.inboxed_connect e i dialed
  | Write e i written =>
    simp only [step, write]
    split
    · refine inboxed_post ?_ _ _
      rfl
    · exact net.inboxed_nothing
  | Drop e i sent =>
    simp only [step, drop]
    split
    · refine inboxed_modify ?_
      rfl
    · refine inboxed_post ?_ _ _
      rfl
    · exact net.inboxed_nothing
  | Read e c => exact net.inboxed_read e c
  | Answer e c written =>
    simp only [step, answer]
    split
    · split
      · refine inboxed_post ?_ _ _
        rfl
      · refine inboxed_modify ?_
        rfl
    · exact net.inboxed_nothing
  | Fan e c =>
    simp only [step, fan]
    split
    · rw [Router.routeAll_queued]
      refine inboxed_routed ?_ ?_ c [] (fun _ h => (List.not_mem_nil h).elim)
      · rfl
      · exact Router.routeAll_queue _ _
    · exact net.inboxed_nothing
  | Lose i => exact inboxed_aside (fun _ h => (List.not_mem_nil h).elim) rfl
  | Inject e c bytes =>
    simp only [step]
    split
    · exact inboxed_aside (by simp [Event.isAside]) rfl
    · exact net.inboxed_nothing

end

/-! ## A connection -/

end Kamiroh.Iroh.Network

namespace Kamiroh.Iroh

variable [Postcard]

def Flight.deliveries (flight : Flight) : List Delivery :=
  (accept flight.bytes).elim [] (Frame.deliveries flight.target flight.origin)

namespace Network

variable {net net' : Network} {endpoint e : EndpointId} {name : ActorName} {c : ConnId}
  {change : Node → Node}

omit [Postcard] in
/-- The connection is not closed here. -/
def IsOpen (net : Network) (endpoint : EndpointId) (c : ConnId) : Prop :=
  ∀ link : Link, (net.nodes endpoint).shared.links[c]? = some link → link.reason = none

/-- What the reader of the connection has still to fan in. -/
def atReader (endpoint : EndpointId) (c : ConnId) (batches : List Batch) : List Delivery :=
  (batches.filter (·.connection = c)).flatMap (Batch.deliveries endpoint)

def inFlight (endpoint : EndpointId) (c : ConnId) (flights : List Flight) : List Delivery :=
  (flights.filter (Flight.isAt endpoint c)).flatMap Flight.deliveries

/-- What was written on a connection for `name`, and is not in the inbox yet. -/
def pending (net : Network) (endpoint : EndpointId) (name : ActorName) (c : ConnId) : List Delivery :=
  mail name (atReader endpoint c (net.nodes endpoint).batches ++ inFlight endpoint c net.flights)

def Event.opened (endpoint : EndpointId) (name : ActorName) (c : ConnId) : Event → List Delivery
  | Opened flight => if flight.isAt endpoint c then mail name flight.deliveries else []
  | _ => []

/-- What came on the connection `c`, of what arrives with its connections. -/
def cameOn (c : ConnId) (arrivals : List (ConnId × Delivery)) : List Delivery :=
  (arrivals.filter (·.1 = c)).map Prod.snd

/-- What came in on the connection and what is on its way is what was on its way and what was written. -/
def Moved (endpoint : EndpointId) (name : ActorName) (c : ConnId) (net : Network)
    (stepped : Network × List Event) : Prop :=
  cameOn c (stepped.2.flatMap (Event.arrival endpoint name)) ++ stepped.1.pending endpoint name c =
    net.pending endpoint name c ++ stepped.2.flatMap (Event.opened endpoint name c)

omit [Postcard] in
theorem mail_append (name : ActorName) (deliveries deliveries' : List Delivery) :
    mail name (deliveries ++ deliveries') = mail name deliveries ++ mail name deliveries' :=
  List.filter_append ..

theorem moved_quiet (h : net'.pending endpoint name c = net.pending endpoint name c) :
    Moved endpoint name c net (net', []) := by
  simp [Moved, cameOn, h]

theorem moved_opened (h : net'.pending endpoint name c = net.pending endpoint name c) (flight : Flight) :
    Moved endpoint name c net ({ net' with flights := net'.flights ++ [flight] }, [.Opened flight]) := by
  have hflights : inFlight endpoint c (net'.flights ++ [flight]) = inFlight endpoint c net'.flights ++
      if flight.isAt endpoint c then flight.deliveries else [] := by
    rw [inFlight, List.filter_append, List.flatMap_append]
    cases hat : flight.isAt endpoint c <;> simp [hat, inFlight]
  rw [Moved, ← h]
  simp only [pending, hflights, mail_append]
  cases hat : flight.isAt endpoint c <;> simp [hat, cameOn, Event.arrival, Event.opened, mail]

theorem moved_post (h : net'.pending endpoint name c = net.pending endpoint name c) (e : EndpointId)
    (c' : ConnId) (out : Option (List UInt8)) : Moved endpoint name c net (net'.post e c' out) := by
  rcases net'.post_cases e c' out with hnone | ⟨bytes, target, far, -, -, -, hpost⟩
  · rw [hnone]
    exact moved_quiet h
  · rw [hpost]
    exact moved_opened h _

theorem pending_modify (h : (change (net.nodes e)).batches = (net.nodes e).batches) :
    (net.modify e change).pending endpoint name c = net.pending endpoint name c := by
  have hbatches : ((net.modify e change).nodes endpoint).batches = (net.nodes endpoint).batches :=
    modify_nodes (p := fun endpoint node => node.batches = (net.nodes endpoint).batches) (fun _ => rfl) h
      endpoint
  rw [pending, pending, hbatches, modify_flights]

theorem pending_join (net : Network) (e : EndpointId) (c' : ConnId) (target : EndpointId) :
    (net.join e c' target).pending endpoint name c = net.pending endpoint name c := by
  unfold join
  split
  · have hestablished : (net.modify target fun node =>
        { node with shared := node.shared.established e }).pending endpoint name c =
          net.pending endpoint name c := pending_modify rfl
    exact hestablished
  · rfl

/-! ### The reader -/

theorem inFlight_taken (endpoint : EndpointId) (c : ConnId) {c' : ConnId} {flights : List Flight}
    {flight : Flight} (hfind : flights.find? (Flight.isAt e c') = some flight) :
    inFlight endpoint c flights = (if e = endpoint ∧ c' = c then flight.deliveries else []) ++
      inFlight endpoint c (flights.eraseP (Flight.isAt e c')) := by
  split
  · rename_i hhere
    obtain ⟨rfl, rfl⟩ := hhere
    rw [inFlight, Stock.filter_of_find hfind, List.flatMap_cons]
    rfl
  · rename_i hhere
    rw [inFlight, inFlight, Stock.filter_eraseP]
    · rfl
    · intro flight hat
      simp only [Flight.isAt, Bool.and_eq_true, decide_eq_true_eq] at hat
      obtain ⟨rfl, rfl⟩ := hat
      simpa [Flight.isAt] using hhere

omit [Postcard] in
theorem atReader_free (hfree : ∀ batch ∈ (net.nodes e).batches, batch.connection ≠ c) :
    atReader e c (net.nodes e).batches = [] := by
  rw [atReader, List.filter_eq_nil_iff.mpr]
  · rfl
  · exact fun batch hbatch => by simpa using hfree batch hbatch

omit [Postcard] in
theorem cameOn_queued {c' : ConnId} {queue : List Delivery}
    (hbound : (net.nodes endpoint).router.queue name = some queue) (deliveries : List Delivery) :
    cameOn c (((deliveries.filter fun delivery =>
        ((net.nodes e).router.queue delivery.target.name).isSome).map (Event.Queued e c')).flatMap
          (Event.arrival endpoint name)) =
      if e = endpoint ∧ c' = c then mail name deliveries else [] := by
  rw [arrival_queued]
  by_cases hhere : e = endpoint
  · subst hhere
    rw [if_pos rfl, mail_queued hbound, cameOn, List.filter_map, List.map_map]
    by_cases hc : c' = c
    · simp [hc, Function.comp_def]
    · simp [hc, Function.comp_def]
  · simp [hhere, cameOn]

theorem opened_queued (e : EndpointId) (c' : ConnId) (queued : List Delivery) :
    (queued.map (Event.Queued e c')).flatMap (Event.opened endpoint name c) = [] := by
  rw [List.flatMap_map]
  exact List.flatMap_eq_nil_iff.mpr fun _ _ => rfl

theorem moved_routed {queue : List Delivery}
    (hbound : (net.nodes endpoint).router.queue name = some queue) {c' : ConnId}
    {deliveries : List Delivery} (aside : List Event)
    (haside : aside.flatMap (Event.arrival endpoint name) = [] ∧
      aside.flatMap (Event.opened endpoint name c) = [])
    (hpending : net.pending endpoint name c =
      (if e = endpoint ∧ c' = c then mail name deliveries else []) ++ net'.pending endpoint name c) :
    Moved endpoint name c net (net', aside ++ (deliveries.filter fun delivery =>
      ((net.nodes e).router.queue delivery.target.name).isSome).map (Event.Queued e c')) := by
  rw [Moved, List.flatMap_append, List.flatMap_append, haside.1, haside.2, opened_queued, List.nil_append,
    cameOn_queued hbound, hpending]
  simp

theorem moved_aside (aside : List Event)
    (haside : aside.flatMap (Event.arrival endpoint name) = [] ∧
      aside.flatMap (Event.opened endpoint name c) = [])
    (hpending : net.pending endpoint name c = net'.pending endpoint name c) :
    Moved endpoint name c net (net', aside) := by
  rw [Moved, haside.1, haside.2, hpending]
  simp [cameOn]

omit [Postcard] in
theorem modify_atReader {taken : Network} (htaken : taken.nodes = net.nodes)
    (h : (change (net.nodes e)).batches = (net.nodes e).batches) :
    atReader endpoint c ((taken.modify e change).nodes endpoint).batches =
      atReader endpoint c (net.nodes endpoint).batches := by
  rw [← htaken] at h ⊢
  have hbatches : ((taken.modify e change).nodes endpoint).batches = (taken.nodes endpoint).batches :=
    modify_nodes (p := fun endpoint node => node.batches = (taken.nodes endpoint).batches) (fun _ => rfl) h
      endpoint
  rw [hbatches]

theorem moved_read (hwired : net.Wired) {queue : List Delivery}
    (hbound : (net.nodes endpoint).router.queue name = some queue) (e : EndpointId) (c' : ConnId) :
    Moved endpoint name c net (net.read e c') := by
  have hreading := net.read_reading e c'
  generalize net.read e c' = read at hreading
  rcases hreading with _ | ⟨flight, hfind, haccept⟩ |
    ⟨flight, hfind, origin, horigin, hfree, fromName, toName, message, haccept⟩ |
    ⟨flight, hfind, origin, horigin, hfree, fromName, toNames, request, haccept⟩
  · exact moved_quiet rfl
  · have hnothing : flight.deliveries = [] := by rw [Flight.deliveries, haccept]; rfl
    have htaken := inFlight_taken endpoint c hfind
    rw [hnothing, ite_self, List.nil_append] at htaken
    simp [Moved, pending, cameOn, Event.arrival, Event.opened, htaken]
  · have htaken := inFlight_taken endpoint c hfind
    have hkept : atReader endpoint c ((Network.modify
        { net with flights := net.flights.eraseP (Flight.isAt e c') } e fun node =>
          { node with
            router := (node.router.route ⟨⟨origin, fromName⟩, ⟨e, toName⟩, message⟩).1 }).nodes
              endpoint).batches = atReader endpoint c (net.nodes endpoint).batches :=
      modify_atReader rfl rfl
    obtain ⟨hmem, rfl, rfl⟩ := find_flight hfind
    cases horigin.symm.trans (hwired.flights flight hmem)
    rw [Flight.deliveries, haccept] at htaken
    rw [Router.route_queued]
    refine moved_routed hbound [.Took flight] ⟨rfl, rfl⟩ ?_
    rw [pending, pending, htaken, hkept, modify_flights]
    split
    · rename_i hhere
      obtain ⟨rfl, rfl⟩ := hhere
      rw [atReader_free hfree, List.nil_append, mail_append]
      rfl
    · rfl
  · have htaken := inFlight_taken endpoint c hfind
    obtain ⟨hmem, rfl, rfl⟩ := find_flight hfind
    cases horigin.symm.trans (hwired.flights flight hmem)
    rw [Flight.deliveries, haccept] at htaken
    refine moved_aside [.Took flight] ⟨rfl, rfl⟩ ?_
    rw [pending, pending, htaken, modify_flights]
    by_cases hhere : flight.target = endpoint
    · subst hhere
      rw [modify_self]
      by_cases hc : flight.connection = c
      · simp [atReader, hc, Frame.deliveries, Batch.deliveries]
      · simp [atReader, hc]
    · rw [modify_ne (Ne.symm hhere)]
      simp [hhere]

theorem moved_fan (hwired : net.Wired) {queue : List Delivery}
    (hbound : (net.nodes endpoint).router.queue name = some queue) (e : EndpointId) (c' : ConnId) :
    Moved endpoint name c net (net.fan e c') := by
  unfold fan
  split
  · rename_i batch hfind
    dsimp only
    rw [Router.routeAll_queued]
    refine moved_routed hbound [] ⟨rfl, rfl⟩ ?_
    obtain ⟨hbefore, hafter⟩ := (hwired.nodes e).only hfind
    rw [pending, pending, modify_flights]
    by_cases hhere : e = endpoint
    · subst hhere
      rw [modify_self]
      by_cases hc : c' = c
      · subst hc
        simp [atReader, hbefore, hafter, mail]
      · simp only [atReader, filter_other (Ne.symm hc) true, hc, and_false, if_false, List.nil_append]
    · rw [modify_ne (Ne.symm hhere)]
      simp [hhere]
  · exact moved_quiet rfl

theorem moved_answer (hwired : net.Wired) (e : EndpointId) (c' : ConnId) (written : Written) :
    Moved endpoint name c net (net.answer e c' written) := by
  unfold answer
  split
  · rename_i batch hfind
    have hpending : (net.modify e fun node =>
        { node with
          batches := node.batches.eraseP (Batch.isAt c' false) ++ [{ batch with answered := true }] }).pending
          endpoint name c = net.pending endpoint name c := by
      obtain ⟨hbefore, hafter⟩ := (hwired.nodes e).only hfind
      obtain ⟨-, hconnection, -⟩ := find_batch hfind
      rw [pending, pending, modify_flights]
      by_cases hhere : e = endpoint
      · subst hhere
        rw [modify_self]
        by_cases hc : c' = c
        · subst hc
          simp [atReader, hbefore, hafter, hconnection, Batch.deliveries]
        · simp [atReader, filter_other (Ne.symm hc) false, hconnection, hc]
      · rw [modify_ne (Ne.symm hhere)]
    dsimp only
    split
    · exact moved_post hpending ..
    · exact moved_quiet hpending
  · exact moved_quiet rfl

/-! ### Everybody else -/

theorem pending_connect (net : Network) (e : EndpointId) (i : Nat) (dialed : Except String Unit) :
    (net.connect e i dialed).pending endpoint name c = net.pending endpoint name c := by
  unfold connect
  split
  · split
    · apply pending_modify
      rfl
    · split
      · rw [pending_join]
        apply pending_modify
        rfl
      · apply pending_modify
        rfl
  · rfl

theorem step_moved (hwired : net.Wired) {queue : List Delivery}
    (hbound : (net.nodes endpoint).router.queue name = some queue) (a : Act) (hlose : ∀ i, a ≠ .Lose i) :
    Moved endpoint name c net (net.step a) := by
  cases a with
  | Upkeep | Bind | DropInbox | Send | OpenMany =>
    simp only [step, send]
    apply moved_quiet
    apply pending_modify
    rfl
  | Receive e name' =>
    apply moved_aside
    · cases ((net.nodes e).router.recv name').1 <;> exact ⟨rfl, rfl⟩
    · symm
      apply pending_modify
      rfl
  | Connect e i dialed => exact moved_quiet (net.pending_connect e i dialed)
  | Write e i written =>
    simp only [step, write]
    split
    · apply moved_post
      apply pending_modify
      rfl
    · exact moved_quiet rfl
  | Drop e i sent =>
    simp only [step, drop]
    split
    · apply moved_quiet
      apply pending_modify
      rfl
    · apply moved_post
      apply pending_modify
      rfl
    · exact moved_quiet rfl
  | Read e c' => exact moved_read hwired hbound e c'
  | Answer e c' written => exact moved_answer hwired e c' written
  | Fan e c' => exact moved_fan hwired hbound e c'
  | Lose i => exact (hlose i rfl).elim
  | Inject e c' bytes =>
    simp only [step]
    split
    · exact moved_opened rfl _
    · exact moved_quiet rfl

theorem lose_sublist (net : Network) (i : Nat) :
    (pending { net with flights := net.flights.eraseIdx i } endpoint name c).Sublist
      (net.pending endpoint name c) := by
  have hflights : (inFlight endpoint c (net.flights.eraseIdx i)).Sublist (inFlight endpoint c net.flights) :=
    ((List.eraseIdx_sublist net.flights i).filter _).flatMap _
  exact (hflights.append_left _).filter _

theorem lose_open (hwired : net.Wired) {i : Nat} (hlawful : net.Lawful (.Lose i))
    (hopen : net.IsOpen endpoint c) :
    pending { net with flights := net.flights.eraseIdx i } endpoint name c = net.pending endpoint name c := by
  have hflights : inFlight endpoint c (net.flights.eraseIdx i) = inFlight endpoint c net.flights := by
    rw [inFlight, Stock.filter_eraseIdx]
    · rfl
    · intro flight hflight
      apply Bool.eq_false_iff.mpr
      intro hat
      simp only [Flight.isAt, Bool.and_eq_true, decide_eq_true_eq] at hat
      obtain ⟨rfl, rfl⟩ := hat
      have hremote := hwired.flights flight (List.mem_of_getElem? hflight)
      obtain ⟨link, hlink, -⟩ := Option.map_eq_some_iff.mp hremote
      exact hlawful flight hflight link hlink (hopen link hlink)
  rw [pending, pending, hflights]

theorem act_open {a : Act} (hopen : (net.act a).IsOpen endpoint c) : net.IsOpen endpoint c := by
  intro link hlink
  obtain ⟨link', hlink', -, hreason⟩ := net.act_grows a endpoint c link hlink
  exact hreason (hopen link' hlink')

/-! ## The runs -/

def arrivals (net : Network) (endpoint : EndpointId) (name : ActorName) (acts : List Act) :
    List (ConnId × Delivery) :=
  (net.trace acts).flatMap (Event.arrival endpoint name)

/-- What is written for `name` on a connection of `endpoint`. -/
def written (net : Network) (endpoint : EndpointId) (name : ActorName) (c : ConnId) (acts : List Act) :
    List Delivery :=
  (net.trace acts).flatMap (Event.opened endpoint name c)

/-- The network is wired, and the inbox lives. -/
def Living (endpoint : EndpointId) (name : ActorName) (net : Network) : Prop :=
  net.Wired ∧ ((net.nodes endpoint).router.queue name).isSome

theorem living_act (h : net.Living endpoint name) {a : Act} (hkept : a ≠ .DropInbox endpoint name) :
    (net.act a).Living endpoint name := by
  obtain ⟨queue, hqueue⟩ := Option.isSome_iff_exists.mp h.2
  obtain ⟨queue', hqueue', -⟩ := net.step_inboxed a hkept queue hqueue
  exact ⟨h.1.act a, Option.isSome_iff_exists.mpr ⟨queue', hqueue'⟩⟩

omit [Postcard] in
theorem kept_along {step : Network → Act → Network} {acts : List Act}
    (hkept : .DropInbox endpoint name ∉ acts) (net : Network) :
    Run.Along step (fun _ a => a ≠ .DropInbox endpoint name) net acts := by
  apply Run.along_of_mem
  rintro _ _ ha rfl
  exact hkept ha

theorem received_arrivals (h : net.Living endpoint name) {acts : List Act}
    (hkept : .DropInbox endpoint name ∉ acts) :
    net.received endpoint name acts ++ (((net.after acts).nodes endpoint).router.queue name).getD [] =
      ((net.nodes endpoint).router.queue name).getD [] ++ (net.arrivals endpoint name acts).map Prod.snd := by
  rw [arrivals, List.map_flatMap]
  refine Run.flow step (fun net => ((net.nodes endpoint).router.queue name).getD [])
    (Event.received endpoint name) (fun event => (event.arrival endpoint name).map Prod.snd) (R := Eq)
    (I := Living endpoint name) (fun _ => rfl) Eq.trans (fun _ _ h => by rw [h])
    (fun net a h hkept => living_act h hkept) (fun net a h hkept => ?_) net acts h (kept_along hkept net)
  obtain ⟨queue, hqueue⟩ := Option.isSome_iff_exists.mp h.2
  obtain ⟨queue', hqueue', hmoved⟩ := net.step_inboxed a hkept queue hqueue
  rw [hqueue, hqueue', Option.getD_some, Option.getD_some, ← List.map_flatMap]
  exact hmoved

omit [Postcard] in
theorem cameOn_flatMap (c : ConnId) (events : List Event) :
    cameOn c (events.flatMap (Event.arrival endpoint name)) =
      events.flatMap fun event => cameOn c (event.arrival endpoint name) := by
  rw [cameOn, List.filter_flatMap, List.map_flatMap]
  rfl

theorem arrivals_sublist (h : net.Living endpoint name) {acts : List Act}
    (hkept : .DropInbox endpoint name ∉ acts) (c : ConnId) :
    (cameOn c (net.arrivals endpoint name acts) ++ (net.after acts).pending endpoint name c).Sublist
      (net.pending endpoint name c ++ net.written endpoint name c acts) := by
  rw [arrivals, cameOn_flatMap]
  refine Run.flow step (pending · endpoint name c) (fun event => cameOn c (event.arrival endpoint name))
    (Event.opened endpoint name c) (R := List.Sublist) (I := Living endpoint name) List.Sublist.refl
    List.Sublist.trans (fun front back h => (h.append_right back).append_left front)
    (fun net a h hkept => living_act h hkept) (fun net a h hkept => ?_) net acts h (kept_along hkept net)
  obtain ⟨queue, hqueue⟩ := Option.isSome_iff_exists.mp h.2
  rw [← cameOn_flatMap]
  by_cases hlose : ∃ i, a = .Lose i
  · obtain ⟨i, rfl⟩ := hlose
    simpa [step, cameOn] using net.lose_sublist i
  · have hmoved : Moved endpoint name c net (net.step a) :=
      step_moved h.1 hqueue a fun i hi => hlose ⟨i, hi⟩
    unfold Moved at hmoved
    rw [hmoved]

theorem arrivals_eq (h : net.Living endpoint name) {acts : List Act} (hkept : .DropInbox endpoint name ∉ acts)
    (hlawful : Run.Along act Lawful net acts) {c : ConnId} (hopen : (net.after acts).IsOpen endpoint c) :
    cameOn c (net.arrivals endpoint name acts) ++ (net.after acts).pending endpoint name c =
      net.pending endpoint name c ++ net.written endpoint name c acts := by
  obtain ⟨-, halong⟩ := Run.along_of_end act (P := (IsOpen · endpoint c)) (fun _ _ => act_open) net acts hopen
  have hok := (Run.along_and act net acts).mpr
    ⟨kept_along hkept net, (Run.along_and act net acts).mpr ⟨hlawful, halong⟩⟩
  rw [arrivals, cameOn_flatMap]
  refine Run.flow step (pending · endpoint name c) (fun event => cameOn c (event.arrival endpoint name))
    (Event.opened endpoint name c) (R := Eq) (I := Living endpoint name) (fun _ => rfl) Eq.trans
    (fun _ _ h => by rw [h]) (fun net a h hok => living_act h hok.1) (fun net a h hok => ?_) net acts h hok
  obtain ⟨queue, hqueue⟩ := Option.isSome_iff_exists.mp h.2
  rw [← cameOn_flatMap]
  by_cases hlose : ∃ i, a = .Lose i
  · obtain ⟨i, rfl⟩ := hlose
    simpa [step, cameOn] using lose_open h.1 hok.2.1 (act_open hok.2.2)
  · exact step_moved h.1 hqueue a fun i hi => hlose ⟨i, hi⟩

/-- From any state that a network reaches, an inbox that lives on hands out what it holds and what arrives,
each once and in order. On each connection, what arrives and what is on its way come in order of what was
on its way and what is written, and nothing of it twice. As long as the connection is not closed, nothing
of it is missing. -/
theorem each_once_in_order (adapters : Finset EndpointId) (before acts : List Act)
    (hlawful : Run.Along act Lawful (start adapters) (before ++ acts)) (endpoint : EndpointId)
    (name : ActorName) (hbound : ((((start adapters).after before).nodes endpoint).router.queue name).isSome)
    (hkept : .DropInbox endpoint name ∉ acts) :
    let net := (start adapters).after before
    let net' := net.after acts
    let arrived := net.arrivals endpoint name acts
    net.received endpoint name acts ++ ((net'.nodes endpoint).router.queue name).getD [] =
        ((net.nodes endpoint).router.queue name).getD [] ++ arrived.map Prod.snd ∧
      ∀ c,
        (cameOn c arrived ++ net'.pending endpoint name c).Sublist
            (net.pending endpoint name c ++ net.written endpoint name c acts) ∧
          (net'.IsOpen endpoint c → cameOn c arrived ++ net'.pending endpoint name c =
            net.pending endpoint name c ++ net.written endpoint name c acts) := by
  intro net net' arrived
  have hwired : net.Wired := Run.invariant_all act (fun net a h => h.act a) _ before (wired_start adapters)
  have hlawful' := ((Run.along_append act _ before acts).mp hlawful).2
  have hliving : net.Living endpoint name := ⟨hwired, hbound⟩
  exact ⟨received_arrivals hliving hkept,
    fun c => ⟨arrivals_sublist hliving hkept c, arrivals_eq hliving hkept hlawful'⟩⟩

end Network

end Kamiroh.Iroh

namespace Kamiroh.Iroh.Network

open Sample

/-- Alice's second connection is still open when Bob has read everything. -/
theorem each_once_in_order_bob :
    let opened := openOf bob.endpoint alice (request 1) bob.name
    let net := @after postcard (start {alice.endpoint, bob.endpoint}) (forgery.take 6)
    cameOn 1 (@arrivals postcard net bob.endpoint bob.name (forgery.drop 6)) = [opened, opened] := by
  intro opened net
  have h := (@each_once_in_order postcard {alice.endpoint, bob.endpoint} (forgery.take 6) (forgery.drop 6)
    (by decide +kernel) bob.endpoint bob.name (by decide +kernel) (by simp [forgery])).2 1
  have hopen : (@after postcard net (forgery.drop 6)).IsOpen bob.endpoint 1 := by
    have hreason : (((@after postcard net (forgery.drop 6)).nodes bob.endpoint).shared.links[1]?).map
        (·.reason) = some none := by decide +kernel
    intro link hlink
    rw [hlink] at hreason
    exact Option.some.inj hreason
  have hall := h.2 hopen
  have hbefore : @pending postcard net bob.endpoint bob.name 1 = [] := by decide +kernel
  have hafter : @pending postcard (@after postcard net (forgery.drop 6)) bob.endpoint bob.name 1 = [] := by
    decide +kernel
  have hwritten : @written postcard net bob.endpoint bob.name 1 (forgery.drop 6) = [opened, opened] := by
    decide +kernel
  rw [hbefore, hafter, hwritten, List.append_nil] at hall
  exact hall

end Kamiroh.Iroh.Network
