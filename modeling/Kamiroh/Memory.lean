import Kamiroh.Assoc
import Kamiroh.Ports

/-!
# The in-process network

`Shared` is translated from `kamiroh-adapter-memory/src/lib.rs`. Each critical section of the source
is one operation, and returns the wakers that it took.
-/

namespace Kamiroh

structure Mailbox where
  queue : List Delivery
  waker : Option Waker
deriving DecidableEq

instance : Inhabited Mailbox := ⟨⟨[], none⟩⟩

structure DeathQueue where
  queue : List EndpointId
  waker : Option Waker
deriving DecidableEq

instance : Inhabited DeathQueue := ⟨⟨[], none⟩⟩

/-- What all handles of one network share. `partitions` holds both orientations of a pair, `held` the
deliveries between them in send order. -/
structure Shared where
  mailboxes : Assoc Address Mailbox
  partitions : Finset (EndpointId × EndpointId)
  held : List Delivery
  deathWatchers : List DeathQueue

inductive RegisterError
  | AddressInUse
deriving DecidableEq

def RegisterError.display : RegisterError → String
  | AddressInUse => "an actor with this address is already registered"

inductive MemoryTransportError
  | UnknownAddress
deriving DecidableEq

def MemoryTransportError.display : MemoryTransportError → String
  | UnknownAddress => "no actor is registered at the target address"

structure MemoryInbox where
  address : Address
deriving DecidableEq

namespace Shared

def new : Shared := ⟨∅, ∅, [], []⟩

/-! ## Mailboxes -/

def register (net : Shared) (address : Address) : Except RegisterError MemoryInbox × Shared :=
  match net.mailboxes.lookup address with
  | some _ => (.error .AddressInUse, net)
  | none => (.ok ⟨address⟩, { net with mailboxes := net.mailboxes.insert address default })

def dropInbox (net : Shared) (inbox : MemoryInbox) : Shared :=
  { net with mailboxes := net.mailboxes.erase inbox.address }

def push (net : Shared) (delivery : Delivery) : Shared × List Waker :=
  match net.mailboxes.lookup delivery.target with
  | some mailbox =>
    ({ net with
        mailboxes := net.mailboxes.insert delivery.target ⟨mailbox.queue ++ [delivery], none⟩ },
      mailbox.waker.toList)
  | none => (net, [])

def pushAll (net : Shared) : List Delivery → Shared × List Waker
  | [] => (net, [])
  | delivery :: deliveries =>
    let pushed := net.push delivery
    let rest := pushed.1.pushAll deliveries
    (rest.1, pushed.2 ++ rest.2)

def send (net : Shared) (origin target : Address) (message : Message) :
    Except MemoryTransportError Unit × Shared × List Waker :=
  if (origin.endpoint, target.endpoint) ∈ net.partitions then
    (.ok (), { net with held := net.held ++ [⟨origin, target, message⟩] }, [])
  else
    match net.mailboxes.lookup target with
    | some _ => (.ok (), net.push ⟨origin, target, message⟩)
    | none => (.error .UnknownAddress, net, [])

def openMany (net : Shared) (origin : Address) (toEndpoint : EndpointId) (toNames : List ActorName)
    (request : Request) : Except MemoryTransportError Unit × Shared × List Waker :=
  if net.mailboxes.keys.all fun address => address.endpoint ≠ toEndpoint then
    (.error .UnknownAddress, net, [])
  else
    let receipt : Delivery := ⟨batchReceiptSender toEndpoint, origin, .Ack ⟨request.id⟩⟩
    let fanned := toNames.map fun name =>
      (⟨origin, ⟨toEndpoint, name⟩, .Turn (.Open request)⟩ : Delivery)
    if (origin.endpoint, toEndpoint) ∈ net.partitions then
      (.ok (), { net with held := net.held ++ receipt :: fanned }, [])
    else (.ok (), net.pushAll (receipt :: fanned))

def pollNext (net : Shared) (inbox : MemoryInbox) (waker : Waker) : Poll (Option Delivery) × Shared :=
  match net.mailboxes.lookup inbox.address with
  | none => (.Ready none, net)
  | some mailbox =>
    match mailbox.queue with
    | delivery :: queue =>
      (.Ready (some delivery),
        { net with mailboxes := net.mailboxes.insert inbox.address { mailbox with queue } })
    | [] =>
      (.Pending,
        { net with
          mailboxes := net.mailboxes.insert inbox.address { mailbox with waker := some waker } })

/-! ## Partitions -/

def partition (net : Shared) (a b : EndpointId) : Shared :=
  { net with partitions := insert (b, a) (insert (a, b) net.partitions) }

def between (a b : EndpointId) (delivery : Delivery) : Bool :=
  (delivery.origin.endpoint = a && delivery.target.endpoint = b) ||
    (delivery.origin.endpoint = b && delivery.target.endpoint = a)

def heal (net : Shared) (a b : EndpointId) : Shared × List Waker :=
  { net with
    partitions := (net.partitions.erase (a, b)).erase (b, a)
    held := net.held.filter fun delivery => !between a b delivery }.pushAll
      (net.held.filter (between a b))

/-! ## Deaths -/

def deathWatch (net : Shared) : WatchId × Shared :=
  (net.deathWatchers.length, { net with deathWatchers := net.deathWatchers ++ [default] })

/-- The first critical section of `kill_endpoint`: all mailboxes of the endpoint vanish. -/
def killMailboxes (net : Shared) (endpoint : EndpointId) : Shared × List Waker :=
  let doomed := net.mailboxes.keysWhere fun address _ => address.endpoint = endpoint
  ({ net with mailboxes := doomed.foldl (fun mailboxes address => mailboxes.erase address) net.mailboxes },
    doomed.filterMap fun address => (net.mailboxes.lookup address).bind (·.waker))

/-- One of the later critical sections of `kill_endpoint`: one watch learns of the death. -/
def pushDeath (net : Shared) (endpoint : EndpointId) (watch : WatchId) : Shared × List Waker :=
  match net.deathWatchers[watch]? with
  | some watcher =>
    ({ net with deathWatchers := net.deathWatchers.set watch ⟨watcher.queue ++ [endpoint], none⟩ },
      watcher.waker.toList)
  | none => (net, [])

def pollDeath (net : Shared) (watch : WatchId) (waker : Waker) :
    Poll (Option EndpointId) × Shared :=
  match net.deathWatchers[watch]? with
  | some watcher =>
    match watcher.queue with
    | endpoint :: queue =>
      (.Ready (some endpoint),
        { net with deathWatchers := net.deathWatchers.set watch { watcher with queue } })
    | [] =>
      (.Pending,
        { net with deathWatchers := net.deathWatchers.set watch { watcher with waker := some waker } })
  | none => (.Pending, net)

/-! ## Operations -/

/-- One critical section, of whoever holds a handle. -/
inductive Op
  | Register (address : Address)
  | Drop (inbox : MemoryInbox)
  | Send (origin target : Address) (message : Message)
  | OpenMany (origin : Address) (toEndpoint : EndpointId) (toNames : List ActorName)
      (request : Request)
  | Partition (a b : EndpointId)
  | Heal (a b : EndpointId)
  | DeathWatch
  | KillMailboxes (endpoint : EndpointId)
  | PushDeath (endpoint : EndpointId) (watch : WatchId)
  | PollNext (inbox : MemoryInbox) (waker : Waker)
  | PollDeath (watch : WatchId) (waker : Waker)

def run (net : Shared) : Op → Shared
  | .Register address => (net.register address).2
  | .Drop inbox => net.dropInbox inbox
  | .Send origin target message => (net.send origin target message).2.1
  | .OpenMany origin toEndpoint toNames request =>
    (net.openMany origin toEndpoint toNames request).2.1
  | .Partition a b => net.partition a b
  | .Heal a b => (net.heal a b).1
  | .DeathWatch => net.deathWatch.2
  | .KillMailboxes endpoint => (net.killMailboxes endpoint).1
  | .PushDeath endpoint watch => (net.pushDeath endpoint watch).1
  | .PollNext inbox waker => (net.pollNext inbox waker).2
  | .PollDeath watch waker => (net.pollDeath watch waker).2

/-! ### Deaths that are not reported yet -/

def deaths (net : Shared) (watch : WatchId) : List EndpointId :=
  (net.deathWatchers[watch]?).elim [] (·.queue)

@[simp] theorem push_deathWatchers (net : Shared) (delivery : Delivery) :
    (net.push delivery).1.deathWatchers = net.deathWatchers := by
  unfold push
  split <;> rfl

@[simp] theorem pushAll_deathWatchers (net : Shared) (deliveries : List Delivery) :
    (net.pushAll deliveries).1.deathWatchers = net.deathWatchers := by
  induction deliveries generalizing net with
  | nil => rfl
  | cons delivery deliveries ih => rw [pushAll, ih, push_deathWatchers]

@[simp] theorem send_deathWatchers (net : Shared) (origin target : Address) (message : Message) :
    (net.send origin target message).2.1.deathWatchers = net.deathWatchers := by
  unfold send
  split
  · rfl
  · split
    · exact push_deathWatchers ..
    · rfl

@[simp] theorem register_deathWatchers (net : Shared) (address : Address) :
    (net.register address).2.deathWatchers = net.deathWatchers := by
  unfold register
  split <;> rfl

@[simp] theorem pollNext_deathWatchers (net : Shared) (inbox : MemoryInbox) (waker : Waker) :
    (net.pollNext inbox waker).2.deathWatchers = net.deathWatchers := by
  unfold pollNext
  split
  · rfl
  · split <;> rfl

@[simp] theorem pollDeath_mailboxes (net : Shared) (watch : WatchId) (waker : Waker) :
    (net.pollDeath watch waker).2.mailboxes = net.mailboxes := by
  unfold pollDeath
  split
  · split <;> rfl
  · rfl

theorem pollDeath_cases (net : Shared) (watch : WatchId) (waker : Waker) :
    (∃ endpoint, (net.pollDeath watch waker).1 = .Ready (some endpoint) ∧
      net.deaths watch = endpoint :: (net.pollDeath watch waker).2.deaths watch) ∨
    ((net.pollDeath watch waker).1 = .Pending ∧ net.deaths watch = [] ∧
      (net.pollDeath watch waker).2.deaths watch = []) := by
  unfold pollDeath deaths
  cases hwatcher : net.deathWatchers[watch]? with
  | none => exact Or.inr ⟨rfl, rfl, by simp [hwatcher]⟩
  | some watcher =>
    have hlt := (List.getElem?_eq_some_iff.mp hwatcher).1
    cases hqueue : watcher.queue with
    | cons endpoint queue =>
      exact Or.inl ⟨endpoint, by simp [hqueue], by simp [hqueue, hlt]⟩
    | nil => exact Or.inr ⟨by simp [hqueue], by simp [hqueue], by simp [hqueue, hlt]⟩

theorem pollDeath_deaths_of_ne (net : Shared) {watch watch' : WatchId} (waker : Waker)
    (h : watch' ≠ watch) : (net.pollDeath watch waker).2.deaths watch' = net.deaths watch' := by
  unfold pollDeath deaths
  split
  · split <;> simp [List.getElem?_set_ne h.symm]
  · rfl

theorem deaths_run (net : Shared) (op : Op) (endpoint : EndpointId) (watch : WatchId)
    (h : endpoint ∈ (net.run op).deaths watch) :
    endpoint ∈ net.deaths watch ∨ op = .PushDeath endpoint watch := by
  cases op with
  | Register address => exact Or.inl (by simpa [run, deaths] using h)
  | Drop inbox => exact Or.inl h
  | Send origin target message => exact Or.inl (by simpa [run, deaths] using h)
  | OpenMany origin toEndpoint toNames request =>
    refine Or.inl ?_
    simp only [run, openMany] at h
    split at h
    · exact h
    · split at h
      · exact h
      · simpa [deaths] using h
  | Partition a b => exact Or.inl h
  | Heal a b => exact Or.inl (by simpa [run, heal, deaths] using h)
  | DeathWatch =>
    refine Or.inl ?_
    simp only [run, deathWatch, deaths] at h ⊢
    rw [List.getElem?_append] at h
    split at h
    · exact h
    · rw [List.getElem?_singleton] at h
      split at h <;> simp [default] at h
  | KillMailboxes endpoint' => exact Or.inl h
  | PollNext inbox waker => exact Or.inl (by simpa [run, deaths] using h)
  | PollDeath watch' waker =>
    refine Or.inl ?_
    simp only [run] at h
    by_cases hwatch : watch = watch'
    · subst hwatch
      rcases net.pollDeath_cases watch waker with ⟨e, -, hdeaths⟩ | ⟨-, -, hnil⟩
      · rw [hdeaths]
        exact List.mem_cons_of_mem e h
      · rw [hnil] at h
        cases h
    · rwa [pollDeath_deaths_of_ne net waker hwatch] at h
  | PushDeath endpoint' watch' =>
    simp only [run, pushDeath, deaths] at h ⊢
    split at h
    · rename_i watcher hwatcher
      by_cases hwatch : watch = watch'
      · subst hwatch
        have hlt := (List.getElem?_eq_some_iff.mp hwatcher).1
        simp only [List.getElem?_set_self hlt, Option.elim_some, List.mem_append,
          List.mem_singleton] at h
        rcases h with h | rfl
        · exact Or.inl (by rw [hwatcher]; exact h)
        · exact Or.inr rfl
      · rw [List.getElem?_set_ne (Ne.symm hwatch)] at h
        exact Or.inl h
    · exact Or.inl h

/-! ## The ports -/

instance : Transport Shared where
  send net origin target message :=
    let sent := net.send origin target message
    (sent.1.mapError (·.display), sent.2.1)

instance : FanOut Shared where
  openMany net origin toEndpoint toNames request :=
    let sent := net.openMany origin toEndpoint toNames request
    (sent.1.mapError (·.display), sent.2.1)

instance : Registry Shared MemoryInbox where
  bind net address :=
    let registered := net.register address
    (registered.1.mapError (·.display), registered.2)
  dropInbox := dropInbox

theorem bind_ok {net net' : Shared} {address : Address} {inbox : MemoryInbox}
    (h : Registry.bind net address = (.ok inbox, net')) :
    net.mailboxes.lookup address = none ∧ inbox = ⟨address⟩ ∧
      net' = { net with mailboxes := net.mailboxes.insert address default } := by
  simp only [Registry.bind, register] at h
  split at h
  · cases h
  · rename_i hnone
    cases h
    exact ⟨hnone, rfl, rfl⟩

instance : Inbox Shared MemoryInbox := ⟨pollNext⟩

instance : DeathWatch Shared := ⟨pollDeath⟩

end Shared

end Kamiroh
