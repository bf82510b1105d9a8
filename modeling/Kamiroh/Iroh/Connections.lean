import Kamiroh.Memory
import Kamiroh.Run

/-!
# The connections of an iroh endpoint

`connection_to`, `accept_loop`, `close_connection` and `watch_connection` are translated from
`kamiroh-adapter-iroh/src/lib.rs`. Iroh itself is what it promises: a connection has a stable id, and
`closed()` resolves once, after the connection has closed.
-/

namespace Kamiroh.Iroh

/-- The `stable_id` of a connection: its place among all that the endpoint ever had. -/
abbrev ConnId := Nat

inductive PeerClose
  | ApplicationClosed
  | TimedOut
  | Reset
deriving DecidableEq

inductive ConnectionError
  | LocallyClosed
  | ByPeer (cause : PeerClose)
deriving DecidableEq

/-- An accepted connection waits for the lock of the cache, a watched one for its close. A connection
whose watcher has run is `Done`. -/
inductive Stage
  | Accepted
  | Watched
  | Done
deriving DecidableEq

/-- One connection. It is open while it has no reason for its close. -/
structure Link where
  remote : EndpointId
  reason : Option ConnectionError
  stage : Stage
deriving DecidableEq

/-- The peer has closed it, and its watcher has not run. -/
def Link.stale (link : Link) (peer : EndpointId) : Bool :=
  link.remote = peer && link.stage = .Watched && link.reason.any (· ≠ .LocallyClosed)

def Link.close (link : Link) (reason : ConnectionError) : Link :=
  match link.reason with
  | none => { link with reason := some reason }
  | some _ => link

/-- `connections` is the cache. `removed` holds the connections that `close_connection` took out of it
and has not closed yet. -/
structure IrohShared where
  peers : Finset EndpointId
  connections : Assoc EndpointId ConnId
  deathWatchers : List DeathQueue
  links : List Link
  removed : List ConnId

inductive IrohTransportError
  | UnknownPeer
  | Connect (text : String)
deriving DecidableEq

namespace IrohShared

def new : IrohShared := ⟨∅, ∅, [], [], []⟩

def addPeer (shared : IrohShared) (peer : EndpointId) : IrohShared :=
  { shared with peers := insert peer shared.peers }

def deathWatch (shared : IrohShared) : IrohShared :=
  { shared with deathWatchers := shared.deathWatchers ++ [default] }

/-- Report `endpoint` dead to every outstanding watch. -/
def reportDeath (shared : IrohShared) (endpoint : EndpointId) : IrohShared × List Waker :=
  ({ shared with
      deathWatchers := shared.deathWatchers.map fun watcher => ⟨watcher.queue ++ [endpoint], none⟩ },
    shared.deathWatchers.filterMap (·.waker))

/-! ## Connections come -/

/-- The handshake of an incoming connection is over. -/
def established (shared : IrohShared) (remote : EndpointId) : IrohShared :=
  { shared with links := shared.links ++ [⟨remote, none, .Accepted⟩] }

def watched (shared : IrohShared) (c : ConnId) : IrohShared :=
  { shared with links := shared.links.modify c fun link => { link with stage := .Watched } }

/-- The task of an accepted connection gets the lock. -/
def accepted (shared : IrohShared) (c : ConnId) : IrohShared :=
  match shared.links[c]? with
  | some link =>
    if link.stage = .Accepted then
      { shared with connections := shared.connections.insert link.remote c }.watched c
    else shared
  | none => shared

/-- The second half of `connectionTo`. `dialed` is how the dial ends. -/
def dial (shared : IrohShared) (peer : EndpointId) (dialed : Except String Unit) :
    Except IrohTransportError ConnId × IrohShared :=
  if peer ∉ shared.peers then (.error .UnknownPeer, shared)
  else
    match dialed with
    | .error text => (.error (.Connect text), shared)
    | .ok () =>
      (.ok shared.links.length,
        { shared with
          connections := shared.connections.insert peer shared.links.length
          links := shared.links ++ [⟨peer, none, .Watched⟩] })

/-- The lock is held over the dial. -/
def connectionTo (shared : IrohShared) (peer : EndpointId) (forceFresh : Bool)
    (dialed : Except String Unit) : Except IrohTransportError ConnId × IrohShared :=
  if forceFresh then shared.dial peer dialed
  else
    match shared.connections.lookup peer with
    | some existing => (.ok existing, shared)
    | none => shared.dial peer dialed

/-! ## Connections go -/

def close (shared : IrohShared) (c : ConnId) (reason : ConnectionError) : IrohShared :=
  { shared with links := shared.links.modify c (·.close reason) }

/-- `close_connection` up to where it gives the lock back. -/
def closeConnection (shared : IrohShared) (peer : EndpointId) : Bool × IrohShared :=
  match shared.connections.lookup peer with
  | some c =>
    (true,
      { shared with
        connections := shared.connections.erase peer
        removed := c :: shared.removed })
  | none => (false, shared)

/-- The rest of `close_connection`. -/
def hungUp (shared : IrohShared) (c : ConnId) : IrohShared :=
  if c ∈ shared.removed then
    { shared with removed := shared.removed.erase c }.close c .LocallyClosed
  else shared

/-- The task of `watch_connection`, once its connection has closed and it has the lock. It returns the
endpoint that it reported dead. -/
def watchConnection (shared : IrohShared) (c : ConnId) : Option EndpointId × IrohShared :=
  match shared.links[c]? with
  | some ⟨origin, some reason, .Watched⟩ =>
    let (superseded, connections) :=
      match shared.connections.lookup origin with
      | some cached =>
        if cached = c then (false, shared.connections.erase origin) else (true, shared.connections)
      | none => (false, shared.connections)
    let ended : IrohShared :=
      { shared with
        connections
        links := shared.links.modify c fun link => { link with stage := .Done } }
    if !superseded && reason ≠ .LocallyClosed then (some origin, (ended.reportDeath origin).1)
    else (none, ended)
  | _ => (none, shared)

/-! ## Runs -/

inductive Act
  | AddPeer (peer : EndpointId)
  | DeathWatch
  | Established (remote : EndpointId)
  | Accepted (c : ConnId)
  | ConnectionTo (peer : EndpointId) (forceFresh : Bool) (dialed : Except String Unit)
  | CloseConnection (peer : EndpointId)
  | HungUp (c : ConnId)
  | PeerCloses (c : ConnId) (cause : PeerClose)
  | WatchConnection (c : ConnId)

def act (shared : IrohShared) : Act → IrohShared
  | .AddPeer peer => shared.addPeer peer
  | .DeathWatch => shared.deathWatch
  | .Established remote => shared.established remote
  | .Accepted c => shared.accepted c
  | .ConnectionTo peer forceFresh dialed => (shared.connectionTo peer forceFresh dialed).2
  | .CloseConnection peer => (shared.closeConnection peer).2
  | .HungUp c => shared.hungUp c
  | .PeerCloses c cause => shared.close c (.ByPeer cause)
  | .WatchConnection c => (shared.watchConnection c).2

def after (shared : IrohShared) (acts : List Act) : IrohShared := Run.after act shared acts

/-! ## What an endpoint holds -/

/-- The connections of which `p` holds. -/
def select (shared : IrohShared) (p : Link → Bool) : List ConnId :=
  (List.range shared.links.length).filter fun c => shared.links[c]?.any p

/-- The open connections to a peer. -/
def held (shared : IrohShared) (peer : EndpointId) : List ConnId :=
  shared.select fun link => link.remote = peer && link.reason.isNone

/-- The connections that the peer has closed and whose watchers have not run. -/
def stale (shared : IrohShared) (peer : EndpointId) : List ConnId :=
  shared.select (Link.stale · peer)

/-- Those of them that the cache does not hide behind another connection. -/
def exposed (shared : IrohShared) (peer : EndpointId) : List ConnId :=
  (shared.stale peer).filter fun c => shared.connections.lookup peer ∈ [none, some c]

/-- A peer is accepted, cached, dialed and closed in an order that no watcher gets wrong. -/
def orderly (shared : IrohShared) : Act → Bool
  -- No watcher is about to report the peer that is connected now.
  | .Established remote => (shared.exposed remote).isEmpty
  -- A connection that has closed again does not replace an open one in the cache.
  | .Accepted c =>
    shared.links[c]?.all fun link =>
      link.stage ≠ .Accepted || link.reason.isNone || (shared.held link.remote).isEmpty
  -- No watcher that the cached connection held back is let loose.
  | .CloseConnection peer => (shared.held peer).isEmpty || (shared.stale peer).isEmpty
  -- The connection that the peer closes is its last one, or not the cached one.
  | .PeerCloses c _ =>
    shared.links[c]?.all fun link =>
      link.reason.isSome || link.stage ≠ .Watched || ((shared.held link.remote).erase c).isEmpty ||
        (shared.connections.lookup link.remote).any (· ≠ c)
  | .AddPeer _ | .DeathWatch | .ConnectionTo .. | .HungUp _ | .WatchConnection _ => true

variable {shared : IrohShared}

theorem mem_select {p : Link → Bool} {c : ConnId} :
    c ∈ shared.select p ↔ ∃ link, shared.links[c]? = some link ∧ p link = true := by
  simp only [select, List.mem_filter, List.mem_range, Option.any_eq_true]
  exact ⟨fun h => h.2, fun ⟨link, hlink, hp⟩ =>
    ⟨(List.getElem?_eq_some_iff.mp hlink).1, link, hlink, hp⟩⟩

theorem mem_held {peer : EndpointId} {c : ConnId} :
    c ∈ shared.held peer ↔
      ∃ link, shared.links[c]? = some link ∧ link.remote = peer ∧ link.reason = none := by
  simp [held, mem_select]

theorem mem_stale {peer : EndpointId} {c : ConnId} :
    c ∈ shared.stale peer ↔ ∃ link, shared.links[c]? = some link ∧ link.remote = peer ∧
      link.stage = .Watched ∧ ∃ cause, link.reason = some (.ByPeer cause) := by
  simp only [stale, mem_select, Link.stale, Bool.and_eq_true, decide_eq_true_eq, Option.any_eq_true,
    and_assoc]
  refine exists_congr fun link => and_congr_right fun _ => and_congr_right fun _ =>
    and_congr_right fun _ => ⟨?_, ?_⟩
  · rintro ⟨_ | cause, hreason, hne⟩
    · exact absurd rfl hne
    · exact ⟨cause, hreason⟩
  · rintro ⟨cause, hreason⟩
    exact ⟨_, hreason, nofun⟩

theorem mem_exposed {peer : EndpointId} {c : ConnId} :
    c ∈ shared.exposed peer ↔ c ∈ shared.stale peer ∧
      (shared.connections.lookup peer = none ∨ shared.connections.lookup peer = some c) := by
  simp [exposed]

/-- The cases of a watcher: its connection is open or it has run before, or it runs. -/
inductive Watches (shared : IrohShared) (c : ConnId) : Option EndpointId × IrohShared → Prop
  | idle (h : ∀ link, shared.links[c]? = some link → link.reason = none ∨ link.stage ≠ .Watched) :
      Watches shared c (none, shared)
  | ran (link : Link) (hlink : shared.links[c]? = some link) (hstage : link.stage = .Watched)
      (reason : ConnectionError) (hreason : link.reason = some reason) (reported : Option EndpointId)
      (hreported : ∀ peer, reported = some peer ↔ peer = link.remote ∧ reason ≠ .LocallyClosed ∧
        (shared.connections.lookup peer = none ∨ shared.connections.lookup peer = some c))
      (connections : Assoc EndpointId ConnId)
      (hconnections : connections = shared.connections ∨
        shared.connections.lookup link.remote = some c ∧
          connections = shared.connections.erase link.remote)
      (deathWatchers : List DeathQueue) :
      Watches shared c
        (reported,
          { shared with
            connections, deathWatchers
            links := shared.links.modify c fun link => { link with stage := .Done } })

theorem watchConnection_watches (shared : IrohShared) (c : ConnId) :
    Watches shared c (shared.watchConnection c) := by
  unfold watchConnection
  split
  · rename_i origin reason hlink
    let heeded := reason ≠ .LocallyClosed ∧ (shared.connections.lookup origin = none ∨
      shared.connections.lookup origin = some c)
    have hsome (h : heeded) (peer : EndpointId) : some origin = some peer ↔
        peer = origin ∧ reason ≠ .LocallyClosed ∧ (shared.connections.lookup peer = none ∨
          shared.connections.lookup peer = some c) := by
      constructor
      · rintro ⟨⟩
        exact ⟨rfl, h⟩
      · rintro ⟨rfl, -⟩
        rfl
    have hnone (h : ¬ heeded) (peer : EndpointId) : none = some peer ↔
        peer = origin ∧ reason ≠ .LocallyClosed ∧ (shared.connections.lookup peer = none ∨
          shared.connections.lookup peer = some c) := by
      refine ⟨nofun, ?_⟩
      rintro ⟨rfl, hheeded⟩
      exact absurd hheeded h
    cases hcached : shared.connections.lookup origin with
    | none =>
      simp only [Bool.not_false, Bool.true_and, decide_eq_true_eq]
      split
      · rename_i hne
        exact .ran _ hlink rfl reason rfl (some origin) (hsome ⟨hne, Or.inl hcached⟩) _ (Or.inl rfl) _
      · rename_i hlocal
        exact .ran _ hlink rfl reason rfl none (hnone fun h => hlocal h.1) _ (Or.inl rfl) _
    | some cached =>
      by_cases hsame : cached = c
      · subst hsame
        simp only [if_true, Bool.not_false, Bool.true_and, decide_eq_true_eq]
        split
        · rename_i hne
          exact .ran _ hlink rfl reason rfl (some origin) (hsome ⟨hne, Or.inr hcached⟩) _
            (Or.inr ⟨hcached, rfl⟩) _
        · rename_i hlocal
          exact .ran _ hlink rfl reason rfl none (hnone fun h => hlocal h.1) _
            (Or.inr ⟨hcached, rfl⟩) _
      · simp only [if_neg hsame, Bool.not_true, Bool.false_and, Bool.false_eq_true, if_false]
        refine .ran _ hlink rfl reason rfl none (hnone fun h => ?_) _ (Or.inl rfl) _
        rcases h.2 with hnil | hother
        · rw [hcached] at hnil
          cases hnil
        · rw [hcached] at hother
          exact hsame (Option.some.inj hother)
  · rename_i hidle
    refine .idle fun link hlink => ?_
    obtain ⟨remote, reason, stage⟩ := link
    cases reason with
    | none => exact Or.inl rfl
    | some reason => exact Or.inr fun hstage => hidle remote reason (by rw [hlink, ← hstage])

/-- A watcher reports exactly the peers of exposed connections. -/
theorem watchConnection_reports {peer : EndpointId} {c : ConnId} :
    (shared.watchConnection c).1 = some peer ↔ c ∈ shared.exposed peer := by
  rw [mem_exposed, mem_stale]
  have hwatches := shared.watchConnection_watches c
  generalize shared.watchConnection c = ran at hwatches
  rcases hwatches with ⟨hidle⟩ | ⟨link, hlink, hstage, reason, hreason, reported, hreported, _, -, _⟩
  · refine ⟨nofun, ?_⟩
    rintro ⟨⟨link, hlink, -, hstage, cause, hreason⟩, -⟩
    rcases hidle link hlink with hnone | hne
    · rw [hnone] at hreason
      cases hreason
    · exact absurd hstage hne
  · rw [hreported peer]
    constructor
    · rintro ⟨rfl, hne, hcached⟩
      cases reason with
      | LocallyClosed => exact absurd rfl hne
      | ByPeer cause => exact ⟨⟨link, hlink, rfl, hstage, cause, hreason⟩, hcached⟩
    · rintro ⟨⟨link', hlink', hremote, -, cause, hcause⟩, hcached⟩
      cases hlink.symm.trans hlink'
      refine ⟨hremote.symm, fun hlocal => ?_, hcached⟩
      rw [hreason, hlocal] at hcause
      cases hcause

/-- No watcher that may run now reports a peer that is connected. -/
def Sound (shared : IrohShared) : Prop :=
  ∀ peer, ∀ c ∈ shared.exposed peer, ∀ o, o ∉ shared.held peer

theorem sound_iff : shared.Sound ↔
    ∀ c peer, (shared.watchConnection c).1 = some peer → shared.held peer = [] := by
  simp only [Sound, watchConnection_reports, List.eq_nil_iff_forall_not_mem]
  exact ⟨fun h c peer => h peer c, fun h peer c => h c peer⟩

end IrohShared

end Kamiroh.Iroh
