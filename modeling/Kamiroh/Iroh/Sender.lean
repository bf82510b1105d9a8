import Kamiroh.Iroh.Connections
import Kamiroh.Iroh.Reader

/-!
# The sender of an iroh endpoint

`send`, `open_many`, `send_encoded` and `send_frame` are translated from
`kamiroh-adapter-iroh/src/lib.rs`. Only the reader knows the limit on a frame, and what it thinks of
a frame comes back as a stop of the stream, which the sender does not look at.
-/

namespace Kamiroh.Iroh

/-! ## One frame on one connection -/

/-- The `IrohTransportError` of a send. `Connection` holds those of `connectionTo`. -/
inductive SendError
  | NotOurEndpoint
  | Encode (text : String)
  | Stream (text : String)
  | Connection (error : IrohTransportError)
deriving DecidableEq

/-- How the calls on a stream end. `stopped` is the code of a stop by the peer, or that it took all. -/
structure UniStream where
  openUni : Except String Unit
  writeAll : Except String Unit
  finish : Except String Unit
  stopped : Except String (Option Nat)

def sendFrame (stream : UniStream) : Except SendError Unit :=
  match stream.openUni with
  | .error text => .error (.Stream text)
  | .ok () =>
    match stream.writeAll with
    | .error text => .error (.Stream text)
    | .ok () =>
      match stream.finish with
      | .error text => .error (.Stream text)
      | .ok () =>
        let _ := stream.stopped
        .ok ()

/-! ## Two attempts -/

/-- What an attempt meets: how its dial ends, if it dials, and its stream. -/
structure Attempt where
  dialed : Except String Unit
  stream : UniStream

/-- An attempt on which every call succeeds, whatever the peer then does with the stream. -/
def Attempt.smooth (stopped : Except String (Option Nat)) : Attempt :=
  ⟨.ok (), ⟨.ok (), .ok (), .ok (), stopped⟩⟩

/-- The bytes of `streams` went out to the last one, each on its connection. -/
structure Sending where
  result : Except SendError Unit
  shared : IrohShared
  streams : List (ConnId × List UInt8)

namespace IrohTransport

variable [Postcard]

/-- The second attempt has a fresh connection. -/
def sendEncoded (shared : IrohShared) (toEndpoint : EndpointId) (frame : Frame)
    (first second : Attempt) : Sending :=
  match Postcard.toStdvec frame with
  | .error text => ⟨.error (.Encode text), shared, []⟩
  | .ok bytes =>
    match shared.connectionTo toEndpoint false first.dialed with
    | (.error error, shared) => ⟨.error (.Connection error), shared, []⟩
    | (.ok connection, shared) =>
      match sendFrame first.stream with
      | .ok () => ⟨.ok (), shared, [(connection, bytes)]⟩
      | .error _ =>
        match shared.connectionTo toEndpoint true second.dialed with
        | (.error error, shared) => ⟨.error (.Connection error), shared, []⟩
        | (.ok connection, shared) =>
          match sendFrame second.stream with
          | .ok () => ⟨.ok (), shared, [(connection, bytes)]⟩
          | .error error => ⟨.error error, shared, []⟩

/-- `endpointId` is the endpoint of the sender. -/
def send (endpointId : EndpointId) (shared : IrohShared) (origin target : Address) (message : Message)
    (first second : Attempt) : Sending :=
  if origin.endpoint ≠ endpointId then ⟨.error .NotOurEndpoint, shared, []⟩
  else sendEncoded shared target.endpoint (.Single origin.name target.name message) first second

def openMany (endpointId : EndpointId) (shared : IrohShared) (origin : Address)
    (toEndpoint : EndpointId) (toNames : List ActorName) (request : Request)
    (first second : Attempt) : Sending :=
  if origin.endpoint ≠ endpointId then ⟨.error .NotOurEndpoint, shared, []⟩
  else sendEncoded shared toEndpoint (.OpenMany origin.name toNames request) first second

theorem sendEncoded_ok {shared : IrohShared} {toEndpoint : EndpointId} {frame : Frame}
    {first second : Attempt} (h : (sendEncoded shared toEndpoint frame first second).result = .ok ()) :
    ∃ connection bytes, Postcard.toStdvec frame = .ok bytes ∧
      (sendEncoded shared toEndpoint frame first second).streams = [(connection, bytes)] := by
  unfold sendEncoded at h ⊢
  split
  · rename_i hencode
    simp [hencode] at h
  · rename_i bytes hencode
    simp only [hencode] at h
    split
    · rename_i hconnection
      simp [hconnection] at h
    · rename_i connection shared hconnection
      simp only [hconnection] at h
      split
      · exact ⟨connection, bytes, hencode, rfl⟩
      · rename_i hframe
        simp only [hframe] at h
        split
        · rename_i hconnection
          simp [hconnection] at h
        · rename_i connection shared hconnection
          simp only [hconnection] at h
          split
          · exact ⟨connection, bytes, hencode, rfl⟩
          · rename_i hframe
            simp [hframe] at h

theorem sendEncoded_smooth {shared : IrohShared} {toEndpoint : EndpointId} {frame : Frame}
    {bytes : List UInt8} (hencode : Postcard.toStdvec frame = .ok bytes) {connection : ConnId}
    (hcached : shared.connections.lookup toEndpoint = some connection)
    (stopped : Except String (Option Nat)) (second : Attempt) :
    sendEncoded shared toEndpoint frame (.smooth stopped) second =
      ⟨.ok (), shared, [(connection, bytes)]⟩ := by
  unfold sendEncoded
  simp only [hencode, IrohShared.connectionTo, Bool.false_eq_true, if_false, hcached]
  rfl

end IrohTransport

/-! ## The reader at the other end -/

/-- The delivery that the reader queues. -/
def Act.delivery : Act → Option Delivery
  | .Queued delivery => some delivery
  | .Wrote _ => none

section

variable [Postcard]

/-- The frame of a stream that the reader does not drop. -/
def accept (stream : List UInt8) : Option Frame :=
  if maxFrameBytes < stream.length then none
  else
    match Postcard.fromBytes stream with
    | .ok frame => some frame
    | .error _ => none

theorem read_eq (endpointId : EndpointId) (router : Router) (origin : EndpointId) (stream : List UInt8) :
    read endpointId router origin stream =
      match accept stream with
      | some frame => handle endpointId router origin frame
      | none => (router, []) := by
  unfold read accept
  split
  · rfl
  · split <;> simp_all

/-- What a frame from `origin` asks the reader to deliver. -/
def Frame.deliveries (endpointId origin : EndpointId) : Frame → List Delivery
  | Single fromName toName message => [⟨⟨origin, fromName⟩, ⟨endpointId, toName⟩, message⟩]
  | OpenMany fromName toNames request =>
    toNames.map (openOf endpointId ⟨origin, fromName⟩ request)

/-- The reader accepts the stream, decodes the frame from it, and puts the deliveries to bound names into
their inboxes. -/
structure Reads (endpointId origin : EndpointId) (stream : List UInt8) (frame : Frame)
    (deliveries : List Delivery) : Prop where
  accepted : accept stream = some frame
  queued : ∀ router, (read endpointId router origin stream).2.filterMap Act.delivery =
    deliveries.filter fun delivery => (router.queue delivery.target.name).isSome
  inboxes : ∀ router name, (read endpointId router origin stream).1.queue name =
    (router.queue name).map (· ++ deliveries.filter (·.target.name = name))

theorem accept_of_fits (hpostcard : Postcard.RoundTrips) {frame : Frame} {bytes : List UInt8}
    (hencode : Postcard.toStdvec frame = .ok bytes) (hfits : bytes.length ≤ maxFrameBytes) :
    accept bytes = some frame := by
  unfold accept
  rw [if_neg (Nat.not_lt.mpr hfits), hpostcard frame bytes hencode]

theorem fits_of_accept {stream : List UInt8} {frame : Frame} (h : accept stream = some frame) :
    stream.length ≤ maxFrameBytes := by
  unfold accept at h
  split at h
  · cases h
  · omega

theorem handle_deliveries (endpointId : EndpointId) (router : Router) (origin : EndpointId)
    (frame : Frame) :
    (handle endpointId router origin frame).2.filterMap Act.delivery =
        ((frame.deliveries endpointId origin).filter fun delivery =>
          (router.queue delivery.target.name).isSome) ∧
      ∀ name, (handle endpointId router origin frame).1.queue name =
        (router.queue name).map
          (· ++ (frame.deliveries endpointId origin).filter (·.target.name = name)) := by
  cases frame with
  | Single fromName toName message =>
    refine ⟨?_, fun name => ?_⟩
    · simp only [handle, Router.route_acts, Frame.deliveries]
      cases hbound : (router.queue toName).isSome <;> simp [hbound, Act.delivery]
    · simp only [handle, Router.route_queue, Frame.deliveries]
      refine Option.map_congr fun queue _ => ?_
      by_cases hname : toName = name <;> simp [hname]
  | OpenMany fromName toNames request =>
    refine ⟨?_, fun name => Router.routeAll_queue router _ name⟩
    have hqueued (deliveries : List Delivery) :
        (deliveries.map Act.Queued).filterMap Act.delivery = deliveries := by
      rw [List.filterMap_map]
      exact List.filterMap_some
    -- The receipt is no delivery.
    simp only [handle, Router.routeAll_acts, List.filterMap_append, hqueued]
    split <;> rfl

theorem reads_of_accept {endpointId origin : EndpointId} {stream : List UInt8} {frame : Frame}
    (h : accept stream = some frame) :
    Reads endpointId origin stream frame (frame.deliveries endpointId origin) := by
  refine ⟨h, fun router => ?_, fun router => ?_⟩
  · rw [read_eq, h]
    exact (handle_deliveries endpointId router origin frame).1
  · rw [read_eq, h]
    exact (handle_deliveries endpointId router origin frame).2

/-! ## What the sender accepts -/

/-- A send that returned `Ok` has put one stream on the wire, and the peer's reader takes the frame and
its deliveries from it. -/
def Faithful (sending : Sending) (endpointId origin : EndpointId) (frame : Frame)
    (deliveries : List Delivery) : Prop :=
  sending.result = .ok () → ∃ connection bytes, sending.streams = [(connection, bytes)] ∧
    Reads endpointId origin bytes frame deliveries

theorem faithful_of_fits (hpostcard : Postcard.RoundTrips) {toEndpoint origin : EndpointId}
    {frame : Frame} (hfits : ∀ bytes, Postcard.toStdvec frame = .ok bytes → bytes.length ≤ maxFrameBytes)
    (shared : IrohShared) (first second : Attempt) :
    Faithful (IrohTransport.sendEncoded shared toEndpoint frame first second) toEndpoint origin frame
      (frame.deliveries toEndpoint origin) := by
  intro hok
  obtain ⟨connection, bytes, hencode, hstreams⟩ := IrohTransport.sendEncoded_ok hok
  exact ⟨connection, bytes, hstreams, reads_of_accept (accept_of_fits hpostcard hencode (hfits bytes hencode))⟩

/-- A healthy connection to `peer` in the cache. -/
def connectedTo (peer : EndpointId) : IrohShared :=
  { IrohShared.new with
    peers := {peer}
    connections := (∅ : Assoc EndpointId ConnId).insert peer 0
    links := [⟨peer, none, .Watched⟩] }

theorem fits_of_faithful {toEndpoint origin : EndpointId} {frame : Frame} {deliveries : List Delivery}
    {bytes : List UInt8} (hencode : Postcard.toStdvec frame = .ok bytes)
    (h : Faithful (IrohTransport.sendEncoded (connectedTo toEndpoint) toEndpoint frame
      (.smooth (.ok none)) (.smooth (.ok none))) toEndpoint origin frame deliveries) :
    bytes.length ≤ maxFrameBytes := by
  have hcached : (connectedTo toEndpoint).connections.lookup toEndpoint = some 0 := AList.lookup_insert _
  rw [IrohTransport.sendEncoded_smooth hencode hcached (.ok none) (.smooth (.ok none))] at h
  obtain ⟨connection, bytes', hstreams, hreads⟩ := h rfl
  cases hstreams
  exact fits_of_accept hreads.accepted

theorem faithful_iff (hpostcard : Postcard.RoundTrips) {endpointId toEndpoint origin : EndpointId}
    {frame : Frame} {deliveries : List Delivery}
    (hdeliveries : origin = endpointId → deliveries = frame.deliveries toEndpoint endpointId) :
    (∀ shared first second,
      Faithful
        (if origin ≠ endpointId then ⟨.error .NotOurEndpoint, shared, []⟩
          else IrohTransport.sendEncoded shared toEndpoint frame first second)
        toEndpoint endpointId frame deliveries) ↔
      (origin = endpointId → ∀ bytes, Postcard.toStdvec frame = .ok bytes →
        bytes.length ≤ maxFrameBytes) := by
  by_cases hours : origin = endpointId
  · rw [hdeliveries hours]
    simp only [ne_eq, hours, not_true, if_false, true_implies]
    exact ⟨fun h bytes hencode => fits_of_faithful hencode (h _ _ _), faithful_of_fits hpostcard⟩
  · simp only [ne_eq, hours, not_false_eq_true, if_true, false_implies, iff_true]
    exact fun shared first second hok => by cases hok

/-- The reader reads what the sender accepts, exactly for the frames that are encoded in no more than
`maxFrameBytes` bytes. -/
theorem accepts_what_is_read (hpostcard : Postcard.RoundTrips) (endpointId : EndpointId) :
    (∀ origin target message,
      (∀ shared first second,
        Faithful (IrohTransport.send endpointId shared origin target message first second)
          target.endpoint endpointId (.Single origin.name target.name message)
          [⟨origin, target, message⟩]) ↔
      (origin.endpoint = endpointId → ∀ bytes,
        Postcard.toStdvec (.Single origin.name target.name message) = .ok bytes →
        bytes.length ≤ maxFrameBytes)) ∧
    ∀ origin toEndpoint toNames request,
      (∀ shared first second,
        Faithful (IrohTransport.openMany endpointId shared origin toEndpoint toNames request first second)
          toEndpoint endpointId (.OpenMany origin.name toNames request)
          (toNames.map (openOf toEndpoint origin request))) ↔
      (origin.endpoint = endpointId → ∀ bytes,
        Postcard.toStdvec (.OpenMany origin.name toNames request) = .ok bytes →
        bytes.length ≤ maxFrameBytes) := by
  refine ⟨fun origin target message => faithful_iff hpostcard ?_,
    fun origin toEndpoint toNames request => faithful_iff hpostcard ?_⟩
  · rintro rfl
    rfl
  · rintro rfl
    rfl

end

end Kamiroh.Iroh

namespace Kamiroh.Sample

open Iroh

def cached : IrohShared := connectedTo bob.endpoint

def healthy : Attempt := .smooth (.ok none)

/-- A request with a body of one mebibyte. -/
def bulky : Message := .Request ⟨(request 1).id, List.replicate maxFrameBytes 0⟩

/-- As postcard writes it: the variant, the names, the variant of a request, the id, the length of the
body and the body. -/
def bulkyBytes : List UInt8 :=
  [0, 5, 97, 108, 105, 99, 101, 3, 98, 111, 98, 0, 1, 1, 1, 1, 1, 1, 1, 1, 1, 1, 1, 1, 1, 1, 1, 1,
    128, 128, 64] ++ List.replicate maxFrameBytes 0

/-- Postcard, as far as this frame goes. -/
@[reducible] def bulkyPostcard : Postcard where
  toStdvec frame :=
    if frame = .Single alice.name bob.name bulky then .ok bulkyBytes else .error "not in the sample"
  fromBytes bytes :=
    if bytes = bulkyBytes then .ok (.Single alice.name bob.name bulky) else .error "not in the sample"

theorem bulkyPostcard_roundTrips : @Postcard.RoundTrips bulkyPostcard := by
  intro frame bytes h
  unfold Postcard.toStdvec Postcard.fromBytes at *
  dsimp only [bulkyPostcard] at h ⊢
  split at h
  · rename_i hframe
    cases h
    rw [if_pos rfl, hframe]
  · cases h

theorem bulkyBytes_length : bulkyBytes.length = maxFrameBytes + 31 := by
  rw [bulkyBytes, List.length_append, List.length_replicate, Nat.add_comm]
  rfl

end Kamiroh.Sample

namespace Kamiroh.Iroh

open Sample

/-- Alice's batch fits. -/
theorem accepts_what_is_read_batch :
    @Faithful postcard
      (@IrohTransport.openMany postcard alice.endpoint cached alice bob.endpoint
        [bob.name, dave.name, bob.name] (request 1) healthy healthy)
      bob.endpoint alice.endpoint batch
      ([bob.name, dave.name, bob.name].map (openOf bob.endpoint alice (request 1))) := by
  refine ((@accepts_what_is_read postcard postcard_roundTrips alice.endpoint).2 alice bob.endpoint
    [bob.name, dave.name, bob.name] (request 1)).mpr (fun _ bytes hencode => ?_) cached healthy healthy
  have hbytes : (@Postcard.toStdvec postcard batch) = .ok batchBytes := by decide +kernel
  cases hbytes.symm.trans hencode
  decide

/-- Alice sends the bulky request over a healthy connection. Bob is bound, his reader drops the stream and
stops it, and Alice has her `Ok`. -/
theorem send_bulky_dropped :
    @Postcard.RoundTrips bulkyPostcard ∧
      (@IrohTransport.send bulkyPostcard alice.endpoint cached alice bob bulky
        (.smooth (.ok (some 0))) healthy).result = .ok () ∧
      (@IrohTransport.send bulkyPostcard alice.endpoint cached alice bob bulky
        (.smooth (.ok (some 0))) healthy).streams = [(0, bulkyBytes)] ∧
      (bobsRouter.queue bob.name).isSome = true ∧
      @read bulkyPostcard bob.endpoint bobsRouter alice.endpoint bulkyBytes = (bobsRouter, []) := by
  have hencode : @Postcard.toStdvec bulkyPostcard (.Single alice.name bob.name bulky) = .ok bulkyBytes :=
    if_pos rfl
  have hsent := @IrohTransport.sendEncoded_smooth bulkyPostcard cached bob.endpoint
    (.Single alice.name bob.name bulky) bulkyBytes hencode 0 (AList.lookup_insert _) (.ok (some 0)) healthy
  have hsend : @IrohTransport.send bulkyPostcard alice.endpoint cached alice bob bulky
      (.smooth (.ok (some 0))) healthy = ⟨.ok (), cached, [(0, bulkyBytes)]⟩ := by
    unfold IrohTransport.send
    rw [if_neg (not_not.mpr rfl)]
    exact hsent
  have hlong : maxFrameBytes < bulkyBytes.length := by
    rw [bulkyBytes_length]
    omega
  rw [hsend]
  refine ⟨bulkyPostcard_roundTrips, rfl, rfl, by decide +kernel, ?_⟩
  unfold read
  rw [if_pos hlong]

end Kamiroh.Iroh
