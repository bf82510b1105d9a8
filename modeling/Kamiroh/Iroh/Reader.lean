import Kamiroh.Mailboxes

/-!
# The reader of an iroh connection

`Frame`, the router and `spawn_reader` are translated from `kamiroh-adapter-iroh/src/lib.rs`. Postcard
is a parameter. The result says that a batch means the same here as on the in-process network.
-/

namespace Kamiroh.Iroh

/-! ## Frames -/

/-- What crosses the wire. The origin endpoint does not: the connection proves it. -/
inductive Frame
  | Single (fromName toName : ActorName) (message : Message)
  | OpenMany (fromName : ActorName) (toNames : List ActorName) (request : Request)
deriving DecidableEq

/-- The encoder of frames. The texts are its errors. -/
class Postcard where
  toStdvec : Frame → Except String (List UInt8)
  fromBytes : List UInt8 → Except String Frame

/-- It decodes what it encoded. -/
def Postcard.RoundTrips [Postcard] : Prop :=
  ∀ frame bytes, toStdvec frame = .ok bytes → fromBytes bytes = .ok frame

def maxFrameBytes : Nat := 1024 * 1024

/-! ## The router -/

/-- The channel into one inbox, closed once the inbox is dropped. -/
structure Channel where
  queue : List Delivery
  closed : Bool
deriving DecidableEq

structure Router where
  bound : Assoc ActorName Channel

inductive IrohNetError
  | WrongEndpoint
  | NameInUse
deriving DecidableEq

/-- What the reader of a connection does, in order: it writes frames back on that connection, and it
queues deliveries. -/
inductive Act
  | Wrote (bytes : List UInt8)
  | Queued (delivery : Delivery)
deriving DecidableEq

namespace Router

def new : Router := ⟨∅⟩

def bind (router : Router) (endpointId : EndpointId) (address : Address) :
    Except IrohNetError Unit × Router :=
  if address.endpoint ≠ endpointId then (.error .WrongEndpoint, router)
  else
    match router.bound.lookup address.name with
    | some ⟨_, false⟩ => (.error .NameInUse, router)
    | _ => (.ok (), ⟨router.bound.insert address.name ⟨[], false⟩⟩)

/-- The inbox of `name` is dropped. The router keeps the closed channel. -/
def dropInbox (router : Router) (name : ActorName) : Router :=
  ⟨router.bound.modify name fun channel => { channel with closed := true }⟩

/-- The queue of the actor that is bound to `name`. -/
def queue (router : Router) (name : ActorName) : Option (List Delivery) :=
  (router.bound.lookup name).bind fun channel => if channel.closed then none else some channel.queue

/-- Sending to a closed channel fails, and the reader ignores that. -/
def route (router : Router) (delivery : Delivery) : Router × List Act :=
  match router.bound.lookup delivery.target.name with
  | some channel =>
    if channel.closed then (router, [])
    else
      let channel := { channel with queue := channel.queue ++ [delivery] }
      (⟨router.bound.insert delivery.target.name channel⟩, [.Queued delivery])
  | none => (router, [])

def routeAll (router : Router) : List Delivery → Router × List Act
  | [] => (router, [])
  | delivery :: deliveries =>
    let routed := router.route delivery
    let rest := routed.1.routeAll deliveries
    (rest.1, routed.2 ++ rest.2)

end Router

/-! ## The reader -/

section

variable [Postcard]

/-- Act on one frame. `origin` is the authenticated remote key of the connection. The receipt of a batch
is written before the router is locked, and whether that succeeds is ignored. -/
def handle (endpointId : EndpointId) (router : Router) (origin : EndpointId) :
    Frame → Router × List Act
  | .Single fromName toName message =>
    router.route ⟨⟨origin, fromName⟩, ⟨endpointId, toName⟩, message⟩
  | .OpenMany fromName toNames request =>
    let receipt := Frame.Single (batchReceiptSender endpointId).name fromName (.Ack ⟨request.id⟩)
    let wrote : List Act :=
      match Postcard.toStdvec receipt with
      | .ok bytes => [.Wrote bytes]
      | .error _ => []
    let routed := router.routeAll <| toNames.map fun name =>
      ⟨⟨origin, fromName⟩, ⟨endpointId, name⟩, .Turn (.Open request)⟩
    (routed.1, wrote ++ routed.2)

/-- Read one stream. Too long or malformed ones are dropped. -/
def read (endpointId : EndpointId) (router : Router) (origin : EndpointId) (stream : List UInt8) :
    Router × List Act :=
  if maxFrameBytes < stream.length then (router, [])
  else
    match Postcard.fromBytes stream with
    | .ok frame => handle endpointId router origin frame
    | .error _ => (router, [])

/-- What a reader meets: the next stream of its connection, or whatever others do to the router. -/
inductive Turnout
  | Stream (bytes : List UInt8)
  | Elsewhere (router : Router → Router)

def next (endpointId origin : EndpointId) (router : Router) : Turnout → Router × List Act
  | .Stream bytes => read endpointId router origin bytes
  | .Elsewhere others => (others router, [])

def acts (endpointId origin : EndpointId) (router : Router) (turnouts : List Turnout) : List Act :=
  Run.outputs (next endpointId origin) router turnouts

end

/-! ## Routing -/

namespace Router

theorem route_queue (router : Router) (delivery : Delivery) (name : ActorName) :
    (router.route delivery).1.queue name =
      (router.queue name).map fun queue =>
        if delivery.target.name = name then queue ++ [delivery] else queue := by
  unfold route queue
  cases hbound : router.bound.lookup delivery.target.name with
  | none =>
    by_cases hname : delivery.target.name = name
    · subst hname
      simp [hbound]
    · simp [hname]
  | some channel =>
    obtain ⟨queue, _ | _⟩ := channel
    · by_cases hname : delivery.target.name = name
      · subst hname
        simp [hbound]
      · simp [hname, AList.lookup_insert_ne (Ne.symm hname)]
    · by_cases hname : delivery.target.name = name
      · subst hname
        simp [hbound]
      · simp [hname]

theorem route_acts (router : Router) (delivery : Delivery) :
    (router.route delivery).2 =
      if (router.queue delivery.target.name).isSome then [.Queued delivery] else [] := by
  unfold route queue
  cases hbound : router.bound.lookup delivery.target.name with
  | none => rfl
  | some channel => obtain ⟨queue, _ | _⟩ := channel <;> rfl

theorem routeAll_queue (router : Router) (deliveries : List Delivery) (name : ActorName) :
    (router.routeAll deliveries).1.queue name =
      (router.queue name).map (· ++ deliveries.filter (·.target.name = name)) := by
  induction deliveries generalizing router with
  | nil => simp [routeAll]
  | cons delivery deliveries ih =>
    rw [routeAll, ih, route_queue, Option.map_map]
    refine Option.map_congr fun queue _ => ?_
    by_cases hname : delivery.target.name = name <;> simp [hname]

theorem routeAll_acts (router : Router) (deliveries : List Delivery) :
    (router.routeAll deliveries).2 =
      (deliveries.filter fun delivery => (router.queue delivery.target.name).isSome).map .Queued := by
  induction deliveries generalizing router with
  | nil => rfl
  | cons delivery deliveries ih =>
    rw [routeAll, ih, route_acts]
    simp only [route_queue, Option.isSome_map]
    cases hbound : (router.queue delivery.target.name).isSome <;> simp [hbound]

end Router

/-! ## Who a routed delivery is from -/

/-- The delivery is from the endpoint `origin`, and for the endpoint `endpointId`. -/
def Proven (endpointId origin : EndpointId) (act : Act) : Prop :=
  ∀ delivery, act = .Queued delivery →
    delivery.origin.endpoint = origin ∧ delivery.target.endpoint = endpointId

theorem route_proven {endpointId origin : EndpointId} (router : Router) {delivery : Delivery}
    (h : delivery.origin.endpoint = origin ∧ delivery.target.endpoint = endpointId) :
    ∀ act ∈ (router.route delivery).2, Proven endpointId origin act := by
  rw [Router.route_acts]
  split
  · rintro act hact _ rfl
    cases List.mem_singleton.mp hact
    exact h
  · exact fun act hact => (List.not_mem_nil hact).elim

theorem handle_proven [Postcard] (endpointId : EndpointId) (router : Router) (origin : EndpointId)
    (frame : Frame) : ∀ act ∈ (handle endpointId router origin frame).2, Proven endpointId origin act := by
  cases frame with
  | Single fromName toName message => exact route_proven router ⟨rfl, rfl⟩
  | OpenMany fromName toNames request =>
    rintro act hact delivery rfl
    rcases List.mem_append.mp hact with hwrote | hqueued
    · split at hwrote <;> simp at hwrote
    · rw [Router.routeAll_acts] at hqueued
      obtain ⟨delivery', hmem, hsame⟩ := List.mem_map.mp hqueued
      cases hsame
      obtain ⟨name, -, rfl⟩ := List.mem_map.mp (List.mem_filter.mp hmem).1
      exact ⟨rfl, rfl⟩

theorem next_proven [Postcard] (endpointId origin : EndpointId) (router : Router) (turnout : Turnout) :
    ∀ act ∈ (next endpointId origin router turnout).2, Proven endpointId origin act := by
  cases turnout with
  | Elsewhere others => exact fun act hact => (List.not_mem_nil hact).elim
  | Stream bytes =>
    simp only [next, read]
    split
    · exact fun act hact => (List.not_mem_nil hact).elim
    · split
      · exact handle_proven endpointId router origin _
      · exact fun act hact => (List.not_mem_nil hact).elim

theorem acts_proven [Postcard] (endpointId origin : EndpointId) (turnouts : List Turnout)
    (router : Router) :
    ∀ act ∈ acts endpointId origin router turnouts, Proven endpointId origin act := by
  induction turnouts generalizing router with
  | nil => exact fun act hact => (List.not_mem_nil hact).elim
  | cons turnout turnouts ih =>
    intro act hact
    rcases List.mem_append.mp hact with hnow | hlater
    · exact next_proven endpointId origin router turnout act hnow
    · exact ih _ act hlater

end Kamiroh.Iroh

/-! ## The in-process network -/

namespace Kamiroh.Shared

def queueAt (net : Shared) (address : Address) : Option (List Delivery) :=
  (net.mailboxes.lookup address).map (·.queue)

theorem pushAll_queueAt (net : Shared) (deliveries : List Delivery) (address : Address) :
    (net.pushAll deliveries).1.queueAt address =
      (net.queueAt address).map (· ++ addressed address deliveries) := by
  simp only [queueAt, pushAll_lookup, Option.map_map]
  rfl

theorem push_unbound (net : Shared) (delivery : Delivery)
    (h : (net.queueAt delivery.target).isSome = false) : (net.push delivery).1 = net := by
  cases hlookup : net.mailboxes.lookup delivery.target with
  | none => simp only [push, hlookup]
  | some mailbox => simp [queueAt, hlookup] at h

theorem pushAll_bound (net : Shared) (deliveries : List Delivery) :
    (net.pushAll deliveries).1 =
      (net.pushAll (deliveries.filter fun delivery => (net.queueAt delivery.target).isSome)).1 := by
  induction deliveries generalizing net with
  | nil => rfl
  | cons delivery deliveries ih =>
    have hkept : ∀ address, ((net.push delivery).1.queueAt address).isSome =
        (net.queueAt address).isSome := by
      intro address
      simp [queueAt, push_lookup]
    rw [pushAll, ih]
    simp only [hkept]
    cases hbound : (net.queueAt delivery.target).isSome with
    | true => simp [hbound, pushAll]
    | false => simp [hbound, push_unbound net delivery hbound]

end Kamiroh.Shared

/-! ## The same batch on both -/

namespace Kamiroh.Iroh

open Shared

/-- The endpoint has the same roster and the same queues on both. -/
def Mirrors (endpoint : EndpointId) (router : Router) (net : Shared) : Prop :=
  ∀ name, router.queue name = net.queueAt ⟨endpoint, name⟩

/-- The receipt of a batch, as the sender's endpoint delivers it. -/
def receiptOf (endpoint : EndpointId) (origin : Address) (request : Request) : Delivery :=
  ⟨batchReceiptSender endpoint, origin, .Ack ⟨request.id⟩⟩

def openOf (endpoint : EndpointId) (origin : Address) (request : Request) (name : ActorName) : Delivery :=
  ⟨origin, ⟨endpoint, name⟩, .Turn (.Open request)⟩

section

variable {endpoint : EndpointId} {router : Router} {net : Shared} {origin : Address}

theorem openMany_live (hmirrors : Mirrors endpoint router net)
    (hlive : ∃ name, (router.queue name).isSome = true)
    (hline : (origin.endpoint, endpoint) ∉ net.partitions) (toNames : List ActorName)
    (request : Request) :
    net.openMany origin endpoint toNames request =
      (.ok (), net.pushAll
        (receiptOf endpoint origin request :: toNames.map (openOf endpoint origin request))) := by
  obtain ⟨name, hname⟩ := hlive
  rw [hmirrors name, queueAt, Option.isSome_map] at hname
  have hthere : ¬ (net.mailboxes.keys.all fun address => address.endpoint ≠ endpoint) = true := by
    rw [List.all_eq_true]
    intro hall
    have hkey : (⟨endpoint, name⟩ : Address) ∈ net.mailboxes.keys :=
      AList.mem_keys.mp (AList.lookup_isSome.mp hname)
    simpa using hall _ hkey
  unfold openMany
  rw [if_neg hthere, if_neg hline]
  rfl

theorem opens_bound (toNames : List ActorName) (request : Request) (keep : Address → Bool)
    (hkeep : ∀ name, keep ⟨endpoint, name⟩ = (router.queue name).isSome) :
    ((toNames.map (openOf endpoint origin request)).filter fun delivery => keep delivery.target) =
      (toNames.filter fun name => (router.queue name).isSome).map (openOf endpoint origin request) := by
  rw [List.filter_map]
  congr 2
  funext name
  exact hkeep name

theorem opens_addressed (toNames : List ActorName) (request : Request) {name : ActorName}
    (hbound : (router.queue name).isSome = true) :
    ((toNames.map (openOf endpoint origin request)).filter (·.target.name = name)) =
      addressed ⟨endpoint, name⟩ ((toNames.filter fun name => (router.queue name).isSome).map
        (openOf endpoint origin request)) := by
  rw [addressed, List.filter_map, List.filter_map, List.filter_filter]
  refine congrArg _ (List.filter_congr fun name' _ => ?_)
  by_cases hname : name' = name
  · subst hname
    simp [openOf, hbound]
  · simp [openOf, hname]

/-- The frame that the reader writes back for a batch. -/
def receiptFrame (origin : Address) (request : Request) : Frame :=
  .Single batchReceiptName origin.name (.Ack ⟨request.id⟩)

theorem read_batch [Postcard] (hpostcard : Postcard.RoundTrips) (toNames : List ActorName)
    (request : Request) {stream receipt : List UInt8}
    (hstream : Postcard.toStdvec (.OpenMany origin.name toNames request) = .ok stream)
    (hfits : stream.length ≤ maxFrameBytes)
    (hreceipt : Postcard.toStdvec (receiptFrame origin request) = .ok receipt) :
    read endpoint router origin.endpoint stream =
      ((router.routeAll (toNames.map (openOf endpoint origin request))).1,
        .Wrote receipt :: (router.routeAll (toNames.map (openOf endpoint origin request))).2) := by
  have hwrote : Postcard.toStdvec (.Single (batchReceiptSender endpoint).name origin.name
      (.Ack ⟨request.id⟩)) = .ok receipt := hreceipt
  simp only [read, if_neg (Nat.not_lt.mpr hfits), hpostcard _ _ hstream, handle, hwrote]
  rfl

theorem read_receipt [Postcard] (hpostcard : Postcard.RoundTrips) (request : Request)
    {receipt : List UInt8}
    (hreceipt : Postcard.toStdvec (receiptFrame origin request) = .ok receipt)
    (hfits : receipt.length ≤ maxFrameBytes) (there : Router) :
    read origin.endpoint there endpoint receipt = there.route (receiptOf endpoint origin request) := by
  simp only [read, if_neg (Nat.not_lt.mpr hfits), hpostcard _ _ hreceipt, receiptFrame, handle]
  rfl

/-- A batch means the same on both. The receipt comes first, one and for whatever names. What the reader
queues, in its order, is what the in-process network pushes into the same inboxes, and the names that
are not bound change nothing on either. Read at the sender's endpoint, the receipt is the delivery
that the in-process network pushes. And whatever a reader meets, it routes only what is from the
authenticated remote endpoint and for its own.

The bound on the stream says that the frame comes to the reader's `OpenMany` branch, and the bound on the
receipt that the sender's own reader takes it. Longer streams are dropped unread. -/
theorem batch_agrees [Postcard] (hpostcard : Postcard.RoundTrips)
    (hmirrors : Mirrors endpoint router net) (hlive : ∃ name, (router.queue name).isSome = true)
    (hline : (origin.endpoint, endpoint) ∉ net.partitions) (toNames : List ActorName)
    (request : Request) {stream receipt : List UInt8}
    (hstream : Postcard.toStdvec (.OpenMany origin.name toNames request) = .ok stream)
    (hfits : stream.length ≤ maxFrameBytes)
    (hreceipt : Postcard.toStdvec (receiptFrame origin request) = .ok receipt) :
    (∃ queued,
      queued = (toNames.filter fun name => (router.queue name).isSome).map
        (openOf endpoint origin request) ∧
      (read endpoint router origin.endpoint stream).2 = .Wrote receipt :: queued.map .Queued ∧
      (net.openMany origin endpoint toNames request).1 = .ok () ∧
      (net.openMany origin endpoint toNames request).2.1 =
        (net.pushAll (receiptOf endpoint origin request :: queued)).1 ∧
      (∀ name, (read endpoint router origin.endpoint stream).1.queue name =
        (router.queue name).map (· ++ addressed ⟨endpoint, name⟩ queued)) ∧
      (∀ address, (net.openMany origin endpoint toNames request).2.1.queueAt address =
        (net.queueAt address).map
          (· ++ addressed address (receiptOf endpoint origin request :: queued)))) ∧
    (receipt.length ≤ maxFrameBytes → ∀ there,
      read origin.endpoint there endpoint receipt =
        there.route (receiptOf endpoint origin request)) ∧
    ∀ endpointId origin router turnouts, ∀ act ∈ acts endpointId origin router turnouts,
      Proven endpointId origin act := by
  refine ⟨?_, read_receipt hpostcard request hreceipt,
    fun endpointId origin router turnouts => acts_proven endpointId origin turnouts router⟩
  let opens := toNames.map (openOf endpoint origin request)
  let queued := (toNames.filter fun name => (router.queue name).isSome).map
    (openOf endpoint origin request)
  have hread : read endpoint router origin.endpoint stream = _ :=
    read_batch hpostcard toNames request hstream hfits hreceipt
  have hrouted : (router.routeAll opens).2 = queued.map .Queued := by
    rw [Router.routeAll_acts]
    exact congrArg _ (opens_bound toNames request (fun target => (router.queue target.name).isSome)
      fun _ => rfl)
  have hpushed : (net.pushAll (receiptOf endpoint origin request :: opens)).1 =
      (net.pushAll (receiptOf endpoint origin request :: queued)).1 := by
    rw [pushAll, pushAll, pushAll_bound]
    refine congrArg (fun ds => (pushAll _ ds).1) (opens_bound toNames request
      (fun target => ((net.push (receiptOf endpoint origin request)).1.queueAt target).isSome) ?_)
    intro name
    rw [hmirrors name]
    simp [queueAt, push_lookup]
  have hsent := openMany_live hmirrors hlive hline toNames request
  refine ⟨queued, rfl, ?_, ?_, ?_, fun name => ?_, fun address => ?_⟩
  · rw [hread, ← hrouted]
  · rw [hsent]
  · rw [hsent]
    exact hpushed
  · rw [hread]
    refine (router.routeAll_queue opens name).trans ?_
    cases hbound : router.queue name with
    | none => rfl
    | some queue =>
      have hopens : (opens.filter (·.target.name = name)) = addressed ⟨endpoint, name⟩ queued :=
        opens_addressed toNames request (by rw [hbound]; rfl)
      exact congrArg (fun more => some (queue ++ more)) hopens
  · rw [hsent, ← pushAll_queueAt]
    exact congrArg (queueAt · address) hpushed

end

end Kamiroh.Iroh

namespace Kamiroh.Sample

open Iroh Shared

/-- Alice's batch for Bob, for Dave, who is gone, and for Bob again. -/
def batch : Frame := .OpenMany alice.name [bob.name, dave.name, bob.name] (request 1)

/-- As postcard writes it: the variant, the name, the count and the names, the id, the body. -/
def batchBytes : List UInt8 :=
  [1, 5, 97, 108, 105, 99, 101, 3, 3, 98, 111, 98, 4, 100, 97, 118, 101, 3, 98, 111, 98,
    1, 1, 1, 1, 1, 1, 1, 1, 1, 1, 1, 1, 1, 1, 1, 1, 1, 1]

/-- The variant, the mailroom, the name, the variant of an ack, the id. -/
def receiptBytes : List UInt8 :=
  [0, 8, 109, 97, 105, 108, 114, 111, 111, 109, 5, 97, 108, 105, 99, 101, 1,
    1, 1, 1, 1, 1, 1, 1, 1, 1, 1, 1, 1, 1, 1, 1, 1]

/-- Postcard, as far as these two frames go. -/
@[reducible] def postcard : Postcard where
  toStdvec frame :=
    if frame = batch then .ok batchBytes
    else if frame = receiptFrame alice (request 1) then .ok receiptBytes
    else .error "not in the sample"
  fromBytes bytes :=
    if bytes = batchBytes then .ok batch
    else if bytes = receiptBytes then .ok (receiptFrame alice (request 1))
    else .error "not in the sample"

theorem postcard_roundTrips : @Postcard.RoundTrips postcard := by
  intro frame bytes h
  unfold Postcard.toStdvec Postcard.fromBytes at *
  dsimp only [postcard] at h ⊢
  split at h
  · rename_i hframe
    cases h
    rw [if_pos rfl, hframe]
  · split at h
    · rename_i hframe
      cases h
      rw [if_neg (by decide), if_pos rfl, hframe]
    · cases h

/-- Dave was bound once. -/
def bobsRouter : Router :=
  let bound := (Router.new.bind bob.endpoint dave).2
  ((bound.dropInbox dave.name).bind bob.endpoint bob).2

def bobsNet : Shared := ((Shared.new.register alice).2.register bob).2

theorem bobsRouter_mirrors : Mirrors bob.endpoint bobsRouter bobsNet := by
  intro name
  by_cases hbob : name = bob.name
  · subst hbob
    decide +kernel
  · by_cases hdave : name = dave.name
    · subst hdave
      decide +kernel
    · have hrouter : name ∉ bobsRouter.bound := by
        rw [AList.mem_keys, show bobsRouter.bound.keys = [bob.name, dave.name] by decide +kernel,
          List.mem_pair]
        exact not_or.mpr ⟨hbob, hdave⟩
      have hnet : (⟨bob.endpoint, name⟩ : Address) ∉ bobsNet.mailboxes := by
        rw [AList.mem_keys, show bobsNet.mailboxes.keys = [bob, alice] by decide +kernel,
          List.mem_pair]
        refine not_or.mpr ⟨fun h => hbob (congrArg Address.name h), fun h => ?_⟩
        have hne : bob.endpoint ≠ alice.endpoint := by decide
        exact hne (congrArg (·.endpoint) h)
      rw [Router.queue, queueAt, AList.lookup_eq_none.mpr hrouter, AList.lookup_eq_none.mpr hnet]
      rfl

end Kamiroh.Sample

namespace Kamiroh.Iroh

open Sample Shared

theorem batch_agrees_bob :
    ∃ queued, queued = List.replicate 2 (openOf bob.endpoint alice (request 1) bob.name) ∧
      (@read postcard bob.endpoint bobsRouter alice.endpoint batchBytes).2 =
        .Wrote receiptBytes :: queued.map .Queued ∧
      (bobsNet.openMany alice bob.endpoint [bob.name, dave.name, bob.name] (request 1)).2.1 =
        (bobsNet.pushAll (receiptOf bob.endpoint alice (request 1) :: queued)).1 := by
  obtain ⟨⟨queued, hqueued, hread, -, hsent, -⟩, -⟩ :=
    @batch_agrees bob.endpoint bobsRouter bobsNet alice postcard postcard_roundTrips
      bobsRouter_mirrors ⟨bob.name, by decide +kernel⟩ (by decide)
      [bob.name, dave.name, bob.name] (request 1) batchBytes receiptBytes
      (by decide +kernel) (by decide +kernel) (by decide +kernel)
  refine ⟨queued, ?_, hread, hsent⟩
  rw [hqueued]
  decide +kernel

end Kamiroh.Iroh
