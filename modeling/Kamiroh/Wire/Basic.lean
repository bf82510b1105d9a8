import Kamiroh.Mailboxes

/-!
# The network with its history

`Wire` is `Shared` with what a run leaves no trace of: which delivery is which, which registration a
mailbox belongs to, which inboxes are not dropped yet, and what became of every delivery. Its
operations are those of `Shared` step by step, and `net` forgets the rest, see `net_act`. That the
history is true is `history_after`.
-/

namespace Kamiroh

/-- A delivery with its place among the accepted ones. `receipt` marks the receipt of a batch. -/
structure Parcel where
  delivery : Delivery
  stamp : Nat
  receipt : Bool
deriving DecidableEq

def Parcel.target (parcel : Parcel) : Address := parcel.delivery.target

def Parcel.origin (parcel : Parcel) : EndpointId := parcel.delivery.origin.endpoint

/-- A mailbox and the registration that created it. -/
structure Box where
  owner : Nat
  queue : List Parcel
  waker : Option Waker
deriving DecidableEq

def Box.mailbox (box : Box) : Mailbox := ⟨box.queue.map (·.delivery), box.waker⟩

/-- An inbox that is not dropped yet, and the registration that returned it. -/
structure Handle where
  id : Nat
  address : Address
deriving DecidableEq

def Handle.inbox (handle : Handle) : MemoryInbox := ⟨handle.address⟩

/-- A `kill_endpoint`, with how many deliveries and registrations were there before it. -/
structure Kill where
  endpoint : EndpointId
  accepted : Nat
  registered : Nat
deriving DecidableEq

/-- A delivery that was put into a mailbox, and whether its origin's endpoint had a mailbox then. -/
structure Placement where
  parcel : Parcel
  alive : Bool
deriving DecidableEq

/-- The last seven fields are history. A delivery without a mailbox is `unplaced` when it should be put
into one, and `removed` when it lay in one that was taken away. -/
structure Wire where
  boxes : Assoc Address Box
  partitions : Finset (EndpointId × EndpointId)
  held : List Parcel
  deathWatchers : List DeathQueue
  handles : List Handle
  registered : Nat
  accepted : List Parcel
  received : List (Handle × Parcel)
  unplaced : List Parcel
  removed : List Parcel
  kills : List Kill
  placements : List Placement

namespace Wire

def new : Wire := ⟨∅, ∅, [], [], [], 0, [], [], [], [], [], []⟩

/-- The network without its history. -/
def net (w : Wire) : Shared :=
  ⟨w.boxes.mapValues Box.mailbox, w.partitions, w.held.map (·.delivery), w.deathWatchers⟩

/-- The endpoint has a mailbox. -/
def lives (w : Wire) (endpoint : EndpointId) : Bool :=
  !w.boxes.keys.all fun address => address.endpoint ≠ endpoint

def handle (w : Wire) (id : Nat) : Option Handle := w.handles.find? fun handle => handle.id = id

/-! ## Operations -/

def register (w : Wire) (address : Address) : Except RegisterError Handle × Wire :=
  match w.boxes.lookup address with
  | some _ => (.error .AddressInUse, w)
  | none =>
    (.ok ⟨w.registered, address⟩,
      { w with
        boxes := w.boxes.insert address ⟨w.registered, [], none⟩
        handles := w.handles ++ [⟨w.registered, address⟩]
        registered := w.registered + 1 })

def drop (w : Wire) (handle : Handle) : Wire :=
  { w with
    boxes := w.boxes.erase handle.address
    handles := w.handles.erase handle
    removed := w.removed ++ w.boxes.heldAt (·.queue) handle.address }

def place (w : Wire) (parcel : Parcel) : Wire :=
  match w.boxes.lookup parcel.target with
  | some box =>
    { w with
      boxes := w.boxes.insert parcel.target { box with queue := box.queue ++ [parcel], waker := none }
      placements := w.placements ++ [⟨parcel, w.lives parcel.origin⟩] }
  | none => { w with unplaced := w.unplaced ++ [parcel] }

def placeAll (w : Wire) (parcels : List Parcel) : Wire := parcels.foldl place w

def send (w : Wire) (origin target : Address) (message : Message) :
    Except MemoryTransportError Unit × Wire :=
  let parcel : Parcel := ⟨⟨origin, target, message⟩, w.accepted.length, false⟩
  let taken := { w with accepted := w.accepted ++ [parcel] }
  if (origin.endpoint, target.endpoint) ∈ w.partitions then
    (.ok (), { taken with held := w.held ++ [parcel] })
  else
    match w.boxes.lookup target with
    | some _ => (.ok (), taken.place parcel)
    | none => (.error .UnknownAddress, w)

/-- The parcels of a batch, the receipt first. -/
def batch (first : Nat) (origin : Address) (toEndpoint : EndpointId) (toNames : List ActorName)
    (request : Request) : List Parcel :=
  ⟨⟨batchReceiptSender toEndpoint, origin, .Ack ⟨request.id⟩⟩, first, true⟩ ::
    (toNames.zipIdx (first + 1)).map fun name =>
      ⟨⟨origin, ⟨toEndpoint, name.1⟩, .Turn (.Open request)⟩, name.2, false⟩

def openMany (w : Wire) (origin : Address) (toEndpoint : EndpointId) (toNames : List ActorName)
    (request : Request) : Except MemoryTransportError Unit × Wire :=
  if w.boxes.keys.all fun address => address.endpoint ≠ toEndpoint then (.error .UnknownAddress, w)
  else
    let parcels := batch w.accepted.length origin toEndpoint toNames request
    let taken := { w with accepted := w.accepted ++ parcels }
    if (origin.endpoint, toEndpoint) ∈ w.partitions then
      (.ok (), { taken with held := w.held ++ parcels })
    else (.ok (), taken.placeAll parcels)

def pollNext (w : Wire) (handle : Handle) (waker : Waker) : Poll (Option Parcel) × Wire :=
  match w.boxes.lookup handle.address with
  | none => (.Ready none, w)
  | some box =>
    match box.queue with
    | parcel :: queue =>
      (.Ready (some parcel),
        { w with
          boxes := w.boxes.insert handle.address { box with queue }
          received := w.received ++ [(handle, parcel)] })
    | [] => (.Pending, { w with boxes := w.boxes.insert handle.address { box with waker := some waker } })

def partition (w : Wire) (a b : EndpointId) : Wire :=
  { w with partitions := insert (b, a) (insert (a, b) w.partitions) }

def between (a b : EndpointId) (parcel : Parcel) : Bool := Shared.between a b parcel.delivery

def heal (w : Wire) (a b : EndpointId) : Wire :=
  { w with
    partitions := (w.partitions.erase (a, b)).erase (b, a)
    held := w.held.filter fun parcel => !between a b parcel }.placeAll (w.held.filter (between a b))

def kill (w : Wire) (endpoint : EndpointId) : Wire :=
  let doomed := w.boxes.keysWhere fun address _ => address.endpoint = endpoint
  { w with
    boxes := w.boxes.eraseAll doomed
    removed := w.removed ++ doomed.flatMap (w.boxes.heldAt (·.queue))
    kills := w.kills ++ [⟨endpoint, w.accepted.length, w.registered⟩] }

/-! ## Runs -/

/-- One critical section. An inbox is named by its registration. -/
inductive Act
  | Register (address : Address)
  | Drop (id : Nat)
  | Send (origin target : Address) (message : Message)
  | OpenMany (origin : Address) (toEndpoint : EndpointId) (toNames : List ActorName)
      (request : Request)
  | Partition (a b : EndpointId)
  | Heal (a b : EndpointId)
  | DeathWatch
  | Kill (endpoint : EndpointId)
  | PushDeath (endpoint : EndpointId) (watch : WatchId)
  | PollNext (id : Nat) (waker : Waker)
  | PollDeath (watch : WatchId) (waker : Waker)

def act (w : Wire) : Act → Wire
  | .Register address => (w.register address).2
  | .Drop id =>
    match w.handle id with
    | some handle => w.drop handle
    | none => w
  | .Send origin target message => (w.send origin target message).2
  | .OpenMany origin toEndpoint toNames request => (w.openMany origin toEndpoint toNames request).2
  | .Partition a b => w.partition a b
  | .Heal a b => w.heal a b
  | .DeathWatch => { w with deathWatchers := w.net.deathWatch.2.deathWatchers }
  | .Kill endpoint => w.kill endpoint
  | .PushDeath endpoint watch =>
    { w with deathWatchers := (w.net.pushDeath endpoint watch).1.deathWatchers }
  | .PollNext id waker =>
    match w.handle id with
    | some handle => (w.pollNext handle waker).2
    | none => w
  | .PollDeath watch waker =>
    { w with deathWatchers := (w.net.pollDeath watch waker).2.deathWatchers }

def after (w : Wire) (acts : List Act) : Wire := Run.after act w acts

/-! ## Without the history -/

@[simp] theorem lookup_net (w : Wire) (address : Address) :
    w.net.mailboxes.lookup address = (w.boxes.lookup address).map Box.mailbox :=
  Assoc.lookup_mapValues ..

theorem net_register (w : Wire) (address : Address) :
    (w.register address).1.map Handle.inbox = (w.net.register address).1 ∧
      (w.register address).2.net = (w.net.register address).2 := by
  unfold register Shared.register
  rw [lookup_net]
  cases w.boxes.lookup address with
  | some box => exact ⟨rfl, rfl⟩
  | none =>
    refine ⟨rfl, ?_⟩
    simp only [net, Assoc.mapValues_insert]
    rfl

theorem net_drop (w : Wire) (handle : Handle) :
    (w.drop handle).net = w.net.dropInbox handle.inbox := by
  simp only [drop, net, Assoc.mapValues_erase]
  rfl

theorem net_place (w : Wire) (parcel : Parcel) :
    (w.place parcel).net = (w.net.push parcel.delivery).1 := by
  have hlookup : w.net.mailboxes.lookup parcel.delivery.target =
      (w.boxes.lookup parcel.target).map Box.mailbox := w.lookup_net parcel.target
  unfold place Shared.push
  rw [hlookup]
  cases w.boxes.lookup parcel.target with
  | none => rfl
  | some box =>
    simp only [net, Assoc.mapValues_insert, Box.mailbox, List.map_append]
    rfl

theorem net_placeAll (w : Wire) (parcels : List Parcel) :
    (w.placeAll parcels).net = (w.net.pushAll (parcels.map (·.delivery))).1 := by
  induction parcels generalizing w with
  | nil => rfl
  | cons parcel parcels ih =>
    rw [List.map_cons, Shared.pushAll, ← net_place]
    exact ih (w.place parcel)

theorem net_send (w : Wire) (origin target : Address) (message : Message) :
    (w.send origin target message).1 = (w.net.send origin target message).1 ∧
      (w.send origin target message).2.net = (w.net.send origin target message).2.1 := by
  unfold send Shared.send
  rw [lookup_net]
  by_cases hpartition : (origin.endpoint, target.endpoint) ∈ w.partitions
  · rw [if_pos hpartition]
    have hnet : (origin.endpoint, target.endpoint) ∈ w.net.partitions := hpartition
    rw [if_pos hnet]
    exact ⟨rfl, by simp [net]⟩
  · rw [if_neg hpartition]
    have hnet : (origin.endpoint, target.endpoint) ∉ w.net.partitions := hpartition
    rw [if_neg hnet]
    cases w.boxes.lookup target with
    | none => exact ⟨rfl, rfl⟩
    | some box => exact ⟨rfl, net_place ..⟩

theorem batch_delivery (first : Nat) (origin : Address) (toEndpoint : EndpointId)
    (toNames : List ActorName) (request : Request) :
    (batch first origin toEndpoint toNames request).map (·.delivery) =
      ⟨batchReceiptSender toEndpoint, origin, .Ack ⟨request.id⟩⟩ ::
        toNames.map fun name => ⟨origin, ⟨toEndpoint, name⟩, .Turn (.Open request)⟩ := by
  have hnames : toNames = (toNames.zipIdx (first + 1)).map (·.1) := by simp
  conv_rhs => rw [hnames]
  simp only [batch, List.map_cons, List.map_map, Function.comp_def]

theorem net_openMany (w : Wire) (origin : Address) (toEndpoint : EndpointId)
    (toNames : List ActorName) (request : Request) :
    (w.openMany origin toEndpoint toNames request).1 =
        (w.net.openMany origin toEndpoint toNames request).1 ∧
      (w.openMany origin toEndpoint toNames request).2.net =
        (w.net.openMany origin toEndpoint toNames request).2.1 := by
  have hkeys : w.net.mailboxes.keys = w.boxes.keys := Assoc.keys_mapValues ..
  unfold openMany Shared.openMany
  rw [hkeys]
  by_cases hdead : (w.boxes.keys.all fun address => address.endpoint ≠ toEndpoint) = true
  · rw [if_pos hdead, if_pos hdead]
    exact ⟨rfl, rfl⟩
  · rw [if_neg hdead, if_neg hdead]
    by_cases hpartition : (origin.endpoint, toEndpoint) ∈ w.partitions
    · rw [if_pos hpartition]
      have hnet : (origin.endpoint, toEndpoint) ∈ w.net.partitions := hpartition
      rw [if_pos hnet]
      refine ⟨rfl, ?_⟩
      simp only [net, List.map_append, batch_delivery]
    · rw [if_neg hpartition]
      have hnet : (origin.endpoint, toEndpoint) ∉ w.net.partitions := hpartition
      rw [if_neg hnet]
      refine ⟨rfl, ?_⟩
      rw [net_placeAll, batch_delivery]
      rfl

theorem net_pollNext (w : Wire) (handle : Handle) (waker : Waker) :
    (w.net.pollNext handle.inbox waker).1 =
        (match (w.pollNext handle waker).1 with
        | .Ready parcel => .Ready (parcel.map (·.delivery))
        | .Pending => .Pending) ∧
      (w.pollNext handle waker).2.net = (w.net.pollNext handle.inbox waker).2 := by
  have hlookup : w.net.mailboxes.lookup handle.inbox.address =
      (w.boxes.lookup handle.address).map Box.mailbox := w.lookup_net handle.address
  unfold pollNext Shared.pollNext
  rw [hlookup]
  cases w.boxes.lookup handle.address with
  | none => exact ⟨rfl, rfl⟩
  | some box =>
    obtain ⟨owner, queue, mine⟩ := box
    cases queue with
    | nil =>
      refine ⟨rfl, ?_⟩
      simp only [net, Assoc.mapValues_insert]
      rfl
    | cons parcel queue =>
      refine ⟨rfl, ?_⟩
      simp only [net, Assoc.mapValues_insert]
      rfl

theorem net_heal (w : Wire) (a b : EndpointId) : (w.heal a b).net = (w.net.heal a b).1 := by
  rw [heal, net_placeAll, Shared.heal]
  simp only [net, List.filter_map]
  rfl

theorem net_kill (w : Wire) (endpoint : EndpointId) :
    (w.kill endpoint).net = (w.net.killMailboxes endpoint).1 := by
  have hdoomed : (w.net.mailboxes.keysWhere fun address _ => address.endpoint = endpoint) =
      w.boxes.keysWhere fun address _ => address.endpoint = endpoint :=
    Assoc.keysWhere_mapValues ..
  rw [Shared.killMailboxes, hdoomed]
  simp only [kill, net, Assoc.mapValues_eraseAll]
  rfl

/-- The operation of the source that the act is. An inbox that is dropped performs none. -/
def op (w : Wire) : Act → Option Shared.Op
  | .Register address => some (.Register address)
  | .Drop id => (w.handle id).map fun handle => .Drop handle.inbox
  | .Send origin target message => some (.Send origin target message)
  | .OpenMany origin toEndpoint toNames request => some (.OpenMany origin toEndpoint toNames request)
  | .Partition a b => some (.Partition a b)
  | .Heal a b => some (.Heal a b)
  | .DeathWatch => some .DeathWatch
  | .Kill endpoint => some (.KillMailboxes endpoint)
  | .PushDeath endpoint watch => some (.PushDeath endpoint watch)
  | .PollNext id waker => (w.handle id).map fun handle => .PollNext handle.inbox waker
  | .PollDeath watch waker => some (.PollDeath watch waker)

theorem net_act (w : Wire) (a : Act) : (w.act a).net = (w.op a).elim w.net w.net.run := by
  cases a with
  | Register address => exact (w.net_register address).2
  | Drop id =>
    simp only [act, op]
    cases w.handle id with
    | none => rfl
    | some handle => exact w.net_drop handle
  | Send origin target message => exact (w.net_send origin target message).2
  | OpenMany origin toEndpoint toNames request =>
    exact (w.net_openMany origin toEndpoint toNames request).2
  | Partition a b => rfl
  | Heal a b => exact w.net_heal a b
  | DeathWatch => rfl
  | Kill endpoint => exact w.net_kill endpoint
  | PushDeath endpoint watch =>
    simp only [act, op, Option.elim_some, Shared.run, Shared.pushDeath]
    split <;> rfl
  | PollNext id waker =>
    simp only [act, op]
    cases w.handle id with
    | none => rfl
    | some handle => exact (w.net_pollNext handle waker).2
  | PollDeath watch waker =>
    simp only [act, op, Option.elim_some, Shared.run, Shared.pollDeath]
    split
    · split <;> rfl
    · rfl

def ops (w : Wire) (acts : List Act) : List Shared.Op :=
  Run.outputs (fun w a => (w.act a, (w.op a).toList)) w acts

/-- A run with its history is a run of the network. -/
theorem net_after (w : Wire) (acts : List Act) :
    (w.after acts).net = Run.after Shared.run w.net (w.ops acts) := by
  induction acts generalizing w with
  | nil => rfl
  | cons a acts ih =>
    rw [ops, Run.outputs, Run.after_append]
    refine (ih (w.act a)).trans ?_
    rw [net_act]
    cases w.op a <;> rfl

end Wire

end Kamiroh
