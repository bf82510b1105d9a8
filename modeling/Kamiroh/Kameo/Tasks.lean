import Kamiroh.Kameo.Serial
import Kamiroh.Kameo.Stops

/-!
# The tasks beside a host

Two tasks feed a hosted actor. Its pump takes deliveries out of its inbox, and the death watch of the
runtime tells every hosted actor of every death. Both tell the host one message at a time.
-/

namespace Kamiroh

variable {P : Type}

/-- The pump task of `install_inner`. It is between two polls of the inbox, or it tells the host. -/
inductive Pump
  | Polling
  | Holding (delivery : Delivery)
  | Ended
deriving DecidableEq

/-- The task of `watch_deaths`. It waits for a death, it has one and no snapshot of the roster yet, or it
tells the actors that were on the roster. -/
inductive Watching
  | Waiting
  | Noted (endpoint : EndpointId)
  | Telling (endpoint : EndpointId) (names : List ActorName)
  | Ended

/-- What the pump has taken out of the inbox and not told yet. -/
def Pump.held : Pump → List Delivery
  | .Holding delivery => [delivery]
  | .Polling | .Ended => []

namespace Watching

/-- What the next message tells the actor. -/
def next (name : ActorName) : Watching → List EndpointId
  | .Telling endpoint (name' :: _) => if name' = name then [endpoint] else []
  | .Telling _ [] | .Waiting | .Noted _ | .Ended => []

/-- What the task still has for an actor on the roster. -/
def pending (name : ActorName) : Watching → List EndpointId
  | .Noted endpoint => [endpoint]
  | .Telling endpoint names => if name ∈ names then [endpoint] else []
  | .Waiting | .Ended => []

end Watching

def Mail.delivery : Mail → List Delivery
  | .Told (.Deliver delivery) => [delivery]
  | .Told (.Admit _) | .Told (.Revoke _) | .Told (.PeerDied _) | .DeadlineElapsed _ => []

def Mail.death : Mail → List EndpointId
  | .Told (.PeerDied endpoint) => [endpoint]
  | .Told (.Deliver _) | .Told (.Admit _) | .Told (.Revoke _) | .DeadlineElapsed _ => []

/-- A hosted actor on an in-process network, its pump and the death watch of its runtime. -/
structure Fed (P : Type) where
  actor : KameoActor P Shared MemoryInbox
  pump : Pump
  watch : WatchId
  watching : Watching

namespace Fed

/-- `Hand` is the pump that tells the host: `closed` says whether the mailbox of a stopped host refuses
already. `Drop` is the scheduler that drops the aborted pump. `Host` is what the host, its timers and its
owner do, and `Elsewhere` what other actors and the rest of the network do. -/
inductive Act (P : Type)
  | Poll (waker : Waker)
  | Hand (closed : Bool)
  | Drop
  | NextDeath (waker : Waker)
  | Snapshot (names : List ActorName)
  | TellNext
  | Host (a : KameoActor.Act P Shared MemoryInbox)
  | Elsewhere (op : Shared.Op) (clock : Instant) (roster : ActorName → Option (Entry P MemoryInbox))

def rt (fed : Fed P) : KameoRuntime P Shared MemoryInbox := fed.actor.rt

def here (fed : Fed P) : Address := fed.rt.address fed.actor.name

def withNet (fed : Fed P) (net : Shared) : Fed P :=
  { fed with actor := { fed.actor with rt := { fed.rt with net } } }

/-- The pump is over, and its inbox is dropped with it. -/
def endPump (fed : Fed P) : Fed P :=
  { fed.withNet (Registry.dropInbox fed.rt.net (⟨fed.here⟩ : MemoryInbox)) with pump := .Ended }

section

variable [Party P]

omit [Party P] in
def poll (fed : Fed P) (waker : Waker) : Fed P :=
  match fed.pump with
  | .Polling =>
    let polled := Inbox.next fed.rt.net (⟨fed.here⟩ : MemoryInbox) waker
    match polled.1 with
    | .Ready (some delivery) => { fed.withNet polled.2 with pump := .Holding delivery }
    | .Ready none => (fed.withNet polled.2).endPump
    | .Pending => fed.withNet polled.2
  | .Holding _ | .Ended => fed

def hand (fed : Fed P) (closed : Bool) : Fed P :=
  match fed.pump with
  | .Holding delivery =>
    if fed.actor.host = none ∧ closed then fed.endPump
    else { fed with actor := fed.actor.act (.Tell (.Deliver delivery)), pump := .Polling }
  | .Polling | .Ended => fed

omit [Party P] in
def drop (fed : Fed P) : Fed P :=
  if fed.pump ≠ .Ended ∧ ⟨fed.here⟩ ∈ fed.rt.aborted then
    let ended := fed.endPump
    let rt := { ended.rt with aborted := fed.rt.aborted.erase ⟨fed.here⟩ }
    { ended with actor := { ended.actor with rt } }
  else fed

omit [Party P] in
def nextDeath (fed : Fed P) (waker : Waker) : Fed P :=
  match fed.watching with
  | .Waiting =>
    let polled := DeathWatch.nextDeath fed.rt.net fed.watch waker
    match polled.1 with
    | .Ready (some endpoint) => { fed.withNet polled.2 with watching := .Noted endpoint }
    | .Ready none => { fed.withNet polled.2 with watching := .Ended }
    | .Pending => fed.withNet polled.2
  | .Noted _ | .Telling _ _ | .Ended => fed

omit [Party P] in
def snapshot (fed : Fed P) (names : List ActorName) : Fed P :=
  match fed.watching with
  | .Noted endpoint => { fed with watching := .Telling endpoint names }
  | .Waiting | .Telling _ _ | .Ended => fed

def tellNext (fed : Fed P) : Fed P :=
  match fed.watching with
  | .Telling endpoint (name :: names) =>
    -- A host that was stopped meanwhile does not take the message, which is ignored.
    if name = fed.actor.name ∧ fed.actor.host ≠ none then
      { fed with actor := fed.actor.act (.Tell (.PeerDied endpoint)), watching := .Telling endpoint names }
    else { fed with watching := .Telling endpoint names }
  | .Telling _ [] => { fed with watching := .Waiting }
  | .Waiting | .Noted _ | .Ended => fed

def elsewhere (fed : Fed P) (op : Shared.Op) (clock : Instant)
    (roster : ActorName → Option (Entry P MemoryInbox)) : Fed P :=
  { fed with actor := fed.actor.act (.Elsewhere fun rt => { rt with net := rt.net.run op, clock, roster }) }

def step (fed : Fed P) : Act P → Fed P
  | .Poll waker => fed.poll waker
  | .Hand closed => fed.hand closed
  | .Drop => fed.drop
  | .NextDeath waker => fed.nextDeath waker
  | .Snapshot names => fed.snapshot names
  | .TellNext => fed.tellNext
  | .Host a => { fed with actor := fed.actor.act a }
  | .Elsewhere op clock roster => fed.elsewhere op clock roster

def after (fed : Fed P) (acts : List (Act P)) : Fed P := Run.after step fed acts

end

/-- The deliveries and the deaths come through the tasks. A snapshot lists the roster, in any order. Nobody
else has the inbox or the watch, and other names have their own inboxes. -/
def Lawful (fed : Fed P) : Act P → Prop
  | .Snapshot names => names.Nodup ∧ ∀ name, name ∈ names ↔ (fed.rt.roster name).isSome
  | .Host (.Tell (.Deliver _)) | .Host (.Tell (.PeerDied _)) | .Host (.Elsewhere _) => False
  | .Elsewhere op _ roster =>
    op.Foreign fed.here ∧ (∀ waker, op ≠ .PollNext ⟨fed.here⟩ waker ∧ op ≠ .PollDeath fed.watch waker) ∧
      ∀ name entry, roster name = some entry → entry.inbox = ⟨fed.rt.address name⟩
  | .Poll _ | .Hand _ | .Drop | .NextDeath _ | .TellNext | .Host _ => True

/-! ## What passes through -/

section

variable [Party P]

def queue (fed : Fed P) : List Delivery := (fed.rt.net.mailboxes.lookup fed.here).elim [] (·.queue)

def deaths (fed : Fed P) : List EndpointId := fed.rt.net.deaths fed.watch

/-- What the act adds to the mailbox of the network. -/
def arrived (fed : Fed P) (a : Act P) : List Delivery := (fed.step a).queue.drop fed.queue.length

/-- What the pump takes out of it. -/
def drawn (fed : Fed P) : Act P → List Delivery
  | .Poll waker =>
    match fed.pump, (fed.rt.net.pollNext ⟨fed.here⟩ waker).1 with
    | .Polling, .Ready (some delivery) => [delivery]
    | _, _ => []
  | _ => []

/-- What the act reports to the watch. -/
def reported (fed : Fed P) (a : Act P) : List EndpointId := (fed.step a).deaths.drop fed.deaths.length

/-- What the watch yields to the task. -/
def yielded (fed : Fed P) : Act P → List EndpointId
  | .NextDeath waker =>
    match fed.watching, (fed.rt.net.pollDeath fed.watch waker).1 with
    | .Waiting, .Ready (some endpoint) => [endpoint]
    | _, _ => []
  | _ => []

/-- What is told to a host that is there. -/
def told (fed : Fed P) (a : Act P) : List Mail :=
  if fed.actor.host = none then []
  else
    match a with
    | .Hand _ => fed.pump.held.map fun delivery => .Told (.Deliver delivery)
    | .TellNext => (fed.watching.next fed.actor.name).map fun endpoint => .Told (.PeerDied endpoint)
    | .Host (.Tell told) => [.Told told]
    | .Host (.Fire task) => if fed.actor.awake task then [.DeadlineElapsed task] else []
    | _ => []

/-- What the host handles. -/
def handled (fed : Fed P) (a : Act P) : List Mail :=
  match fed.actor.host, a with
  | some _, .Host .Handle => fed.actor.mailbox.head?.toList
  | _, _ => []

end

end Fed

/-! ## The network around a host -/

/-- The mailbox at `here` is not new, and nothing was taken out of it or out of the queue of `watch`. -/
structure Shared.Grows (here : Address) (watch : WatchId) (net net' : Shared) : Prop where
  mailbox : ∀ mailbox', net'.mailboxes.lookup here = some mailbox' →
    ∃ mailbox, net.mailboxes.lookup here = some mailbox ∧ mailbox.queue <+: mailbox'.queue
  watched : net.deathWatchers.length ≤ net'.deathWatchers.length
  deaths : watch < net.deathWatchers.length → net.deaths watch <+: net'.deaths watch

namespace Shared

variable {here : Address} {watch : WatchId} {net net' net'' : Shared}

theorem Grows.refl (net : Shared) : Grows here watch net net :=
  ⟨fun mailbox h => ⟨mailbox, h, List.prefix_rfl⟩, le_rfl, fun _ => List.prefix_rfl⟩

theorem Grows.trans (h : Grows here watch net net') (h' : Grows here watch net' net'') :
    Grows here watch net net'' := by
  refine ⟨fun mailbox'' hmailbox'' => ?_, h.watched.trans h'.watched, fun hwatch => ?_⟩
  · obtain ⟨mailbox', hmailbox', hlast⟩ := h'.mailbox mailbox'' hmailbox''
    obtain ⟨mailbox, hmailbox, hfirst⟩ := h.mailbox mailbox' hmailbox'
    exact ⟨mailbox, hmailbox, hfirst.trans hlast⟩
  · exact (h.deaths hwatch).trans (h'.deaths (hwatch.trans_le h.watched))

theorem drawn_eq_nil {op : Op} (hpoll : ∀ waker, op ≠ .PollNext ⟨here⟩ waker) : drawn here net op = [] := by
  unfold drawn
  split
  · rename_i inbox waker
    have hinbox : ¬ inbox.address = here := fun h => hpoll waker (by rw [← h])
    rw [if_neg hinbox]
  · rfl

theorem pollDeath_length (net : Shared) (watch : WatchId) (waker : Waker) :
    (net.pollDeath watch waker).2.deathWatchers.length = net.deathWatchers.length := by
  unfold pollDeath
  split
  · split <;> exact List.length_set ..
  · rfl

theorem deaths_grow (net : Shared) {op : Op} (hpoll : ∀ waker, op ≠ .PollDeath watch waker) :
    net.deathWatchers.length ≤ (net.run op).deathWatchers.length ∧
      (watch < net.deathWatchers.length → net.deaths watch <+: (net.run op).deaths watch) := by
  have hsame : ∀ net' : Shared, net'.deathWatchers = net.deathWatchers →
      net.deathWatchers.length ≤ net'.deathWatchers.length ∧
        (watch < net.deathWatchers.length → net.deaths watch <+: net'.deaths watch) := by
    intro net' h
    rw [deaths, deaths, h]
    exact ⟨le_rfl, fun _ => List.prefix_rfl⟩
  cases op with
  | Register address => exact hsame _ (by rw [run, register_deathWatchers])
  | Drop inbox => exact hsame _ rfl
  | Send origin target message => exact hsame _ (by rw [run, send_deathWatchers])
  | OpenMany origin toEndpoint toNames request =>
    apply hsame
    simp only [run, openMany]
    split
    · rfl
    · split
      · rfl
      · rw [pushAll_deathWatchers]
  | Partition a b => exact hsame _ rfl
  | Heal a b => exact hsame _ (by simp [run, heal])
  | KillMailboxes endpoint => exact hsame _ rfl
  | PollNext inbox waker => exact hsame _ (by rw [run, pollNext_deathWatchers])
  | DeathWatch =>
    refine ⟨by simp [run, deathWatch], fun hwatch => ?_⟩
    simp only [run, deathWatch, deaths, List.getElem?_append_left hwatch]
    exact List.prefix_rfl
  | PollDeath watch' waker =>
    have hne : watch ≠ watch' := fun h => hpoll waker (by rw [h])
    refine ⟨(pollDeath_length net watch' waker).ge, fun _ => ?_⟩
    · rw [run, pollDeath_deaths_of_ne net waker hne]
  | PushDeath endpoint watch' =>
    simp only [run, pushDeath]
    split
    · rename_i watcher hwatcher
      refine ⟨by simp, fun hwatch => ?_⟩
      by_cases heq : watch' = watch
      · subst heq
        rw [deaths, hwatcher, deaths, List.getElem?_set_self hwatch]
        exact List.prefix_append ..
      · simp [deaths, List.getElem?_set_ne heq]
    · exact ⟨le_rfl, fun _ => List.prefix_rfl⟩

theorem removed_run {op : Op} (h : Removes here op) : (net.run op).mailboxes.lookup here = none := by
  unfold Removes at h
  split at h
  · subst h
    exact AList.lookup_erase ..
  · rw [run, killMailboxes_lookup, if_pos h]
  · exact absurd h not_false

theorem grows_run (net : Shared) {op : Op} (hregister : op ≠ .Register here)
    (hnext : ∀ waker, op ≠ .PollNext ⟨here⟩ waker) (hdeath : ∀ waker, op ≠ .PollDeath watch waker) :
    Grows here watch net (net.run op) := by
  obtain ⟨hwatched, hdeaths⟩ := deaths_grow net hdeath
  refine ⟨fun mailbox' hmailbox' => ?_, hwatched, hdeaths⟩
  cases hmailbox : net.mailboxes.lookup here with
  | none =>
    rw [run_unbound hmailbox op hregister] at hmailbox'
    cases hmailbox'
  | some mailbox =>
    have hremoves : ¬ Removes here op := fun hremoves => by
      rw [removed_run hremoves] at hmailbox'
      cases hmailbox'
    obtain ⟨kept, more, hkept, hqueue⟩ := run_queue hmailbox op hremoves
    cases hkept.symm.trans hmailbox'
    rw [drawn_eq_nil hnext, List.nil_append] at hqueue
    exact ⟨mailbox, rfl, more, hqueue.symm⟩

end Shared

namespace KameoRuntime

open Shared (Grows)

variable {here : Address} {watch : WatchId} {net : Shared}

/-- What a host, its timers and its owner leave as it is in the runtime around it. Only a stop aborts its
pump, and it takes the host off the roster for good. -/
structure Stays (here : Address) (watch : WatchId) (rt rt' : KameoRuntime P Shared MemoryInbox) : Prop where
  endpoint : rt'.endpoint = rt.endpoint
  grows : Grows here watch rt.net rt'.net
  gone : rt.roster here.name = none → rt'.roster here.name = none
  aborted : ⟨here⟩ ∈ rt'.aborted → ⟨here⟩ ∈ rt.aborted ∨ rt'.roster here.name = none
  moored : (∀ name entry, rt.roster name = some entry → entry.inbox = ⟨rt.address name⟩) →
    ∀ name entry, rt'.roster name = some entry → entry.inbox = ⟨rt'.address name⟩

variable {rt rt' rt'' : KameoRuntime P Shared MemoryInbox}

theorem Stays.of_net (h : Grows here watch rt.net net) : Stays here watch rt { rt with net } :=
  ⟨rfl, h, id, Or.inl, id⟩

theorem Stays.refl (rt : KameoRuntime P Shared MemoryInbox) : Stays here watch rt rt := .of_net (.refl rt.net)

theorem Stays.trans (h : Stays here watch rt rt') (h' : Stays here watch rt' rt'') :
    Stays here watch rt rt'' := by
  refine ⟨h'.endpoint.trans h.endpoint, h.grows.trans h'.grows, fun hgone => h'.gone (h.gone hgone),
    fun haborted => ?_, fun hmoored => h'.moored (h.moored hmoored)⟩
  rcases h'.aborted haborted with hbefore | hgone
  · exact (h.aborted hbefore).imp_right h'.gone
  · exact Or.inr hgone

theorem stays_send (rt : KameoRuntime P Shared MemoryInbox) (origin target : Address) (message : Message) :
    Stays here watch rt (rt.send origin target message).2.1 := by
  have hgrows : Grows here watch rt.net (rt.net.run (.Send origin target message)) :=
    Shared.grows_run rt.net (fun h => by cases h) (fun _ h => by cases h) (fun _ h => by cases h)
  have hnet : (rt.send origin target message).2.1 =
      { rt with net := (Transport.send rt.net origin target message).2 } := by
    unfold send
    split <;> simp [*]
  rw [hnet]
  exact .of_net hgrows

theorem stays_sendIgnored (rt : KameoRuntime P Shared MemoryInbox) (host : Host P) (target : Address)
    (message : Option Message) : Stays here watch rt (rt.sendIgnored host target message).rt := by
  cases message with
  | none => exact .refl rt
  | some message => exact rt.stays_send ..

theorem stays_installInner (hlisted : rt.roster here.name ≠ none)
    (name : ActorName) (allowlist : Allowlist) (deadlines : Deadlines) (kind : ActorKind)
    (party : Option (Boxed P)) :
    Stays here watch rt (rt.installInner name allowlist deadlines kind party).2 := by
  rcases rt.installInner_cases name allowlist deadlines kind party with
    ⟨error, hinstalled, -⟩ | ⟨entry, hinbox, hfree, hunbound, hinstalled⟩
  · rw [hinstalled]
    exact .refl rt
  · have hname : here.name ≠ name := fun h => hlisted (h ▸ hfree)
    have haddress : here ≠ rt.address name := fun h => hname (congrArg Address.name h)
    have hgrows : Grows here watch rt.net (rt.net.run (.Register (rt.address name))) :=
      Shared.grows_run rt.net (fun h => haddress (by cases h; rfl)) (fun _ h => by cases h)
        (fun _ h => by cases h)
    rw [Shared.run, Shared.register, hunbound] at hgrows
    rw [hinstalled]
    refine ⟨rfl, hgrows, fun hgone => absurd hgone hlisted, Or.inl, fun hmoored other entry' hentry' => ?_⟩
    dsimp only at hentry'
    by_cases hother : other = name
    · subst hother
      rw [Function.update_self] at hentry'
      cases hentry'
      exact hinbox
    · rw [Function.update_of_ne hother] at hentry'
      exact hmoored other entry' hentry'

theorem stays_stop
    (hmoored : ∀ name entry, rt.roster name = some entry → entry.inbox = ⟨rt.address name⟩)
    (name : ActorName) : Stays here watch rt (rt.stop name).2 := by
  unfold stop
  cases hentry : rt.roster name with
  | none => exact .refl rt
  | some entry =>
    refine ⟨rfl, .refl rt.net, fun hgone => ?_, fun haborted => ?_, fun _ other entry' hentry' => ?_⟩
    · dsimp only
      rw [Function.update_apply, hgone, ite_self]
    · rcases List.mem_append.mp haborted with hbefore | hnow
      · exact Or.inl hbefore
      · have hinbox := hmoored name entry hentry
        rw [List.mem_singleton.mp hnow |>.symm] at hinbox
        have hname : here.name = name := congrArg (fun inbox => inbox.address.name) hinbox
        subst hname
        exact Or.inr (Function.update_self ..)
    · dsimp only at hentry'
      by_cases hother : other = name
      · subst hother
        rw [Function.update_self] at hentry'
        cases hentry'
      · rw [Function.update_of_ne hother] at hentry'
        exact hmoored other entry' hentry'

theorem stays_execute (hlisted : rt.roster here.name ≠ none)
    (hmoored : ∀ name entry, rt.roster name = some entry → entry.inbox = ⟨rt.address name⟩)
    (command : Harness) (controller : Address) : Stays here watch rt (rt.execute command controller).2 := by
  cases command with
  | Spawn name =>
    rw [(rt.execute_spawn name controller).1]
    exact stays_installInner hlisted ..
  | Stop name =>
    rw [(rt.execute_stop name controller).1]
    exact stays_stop hmoored name
  | Ping | Spawned _ | Stopped _ | Pong | Failed _ => exact .refl rt

theorem stays_setHost (rt : KameoRuntime P Shared MemoryInbox) (name : ActorName) (host : Host P) :
    Stays here watch rt (rt.setHost name host) := by
  unfold setHost
  cases hentry : rt.roster name with
  | none => exact .refl rt
  | some entry =>
    refine ⟨rfl, .refl rt.net, fun hgone => ?_, Or.inl, fun hmoored other entry' hentry' => ?_⟩
    · have hname : here.name ≠ name := fun h => by rw [h, hentry] at hgone; cases hgone
      rw [← hgone]
      exact Function.update_of_ne hname ..
    · by_cases hother : other = name
      · subst hother
        rw [setEntry_self] at hentry'
        cases hentry'
        exact hmoored other entry hentry
      · dsimp only [setEntry] at hentry'
        rw [Function.update_of_ne hother] at hentry'
        exact hmoored other entry' hentry'

variable [Party P]

theorem stays_answer (rt : KameoRuntime P Shared MemoryInbox) (host : Host P) (peer : Address) (reply : Turn) :
    Stays here watch rt (rt.answer host peer reply).rt := by
  unfold answer
  dsimp only
  split
  · exact .refl rt
  · split <;> exact rt.stays_send ..

theorem stays_takeTurn (rt : KameoRuntime P Shared MemoryInbox) (host : Host P) (peer : Address) (turn : Turn)
    (ack : Option Message) : Stays here watch rt (rt.takeTurn host peer turn ack).rt := by
  unfold takeTurn
  dsimp only
  split
  · exact .refl rt
  · split
    · exact rt.stays_sendIgnored ..
    · exact (rt.stays_sendIgnored ..).trans (stays_answer ..)

theorem stays_onDeliver (hlisted : rt.roster here.name ≠ none)
    (hmoored : ∀ name entry, rt.roster name = some entry → entry.inbox = ⟨rt.address name⟩) (host : Host P)
    (delivery : Delivery) : Stays here watch rt (rt.onDeliver host delivery).rt := by
  unfold onDeliver
  split
  · exact .refl rt
  · exact rt.stays_sendIgnored ..
  · exact .refl rt
  · split
    · exact rt.stays_sendIgnored ..
    · exact (stays_execute hlisted hmoored ..).trans (stays_sendIgnored ..)
  · exact rt.stays_takeTurn ..

omit [Party P] in
theorem stays_tell {α : Type} {name : ActorName} {handler : Host P → Handled P Shared MemoryInbox α}
    (h : ∀ entry, rt.roster name = some entry → Stays here watch rt (handler entry.host).rt) :
    Stays here watch rt (rt.tell name handler).1 := by
  unfold tell
  cases hentry : rt.roster name with
  | none => exact .refl rt
  | some entry => exact (h entry hentry).trans (stays_setHost ..)

theorem stays_handle (hmoored : ∀ name entry, rt.roster name = some entry → entry.inbox = ⟨rt.address name⟩)
    (mail : Mail) : Stays here watch rt (KameoActor.handle rt here.name mail).1 := by
  rcases mail with (delivery | endpoint | endpoint | endpoint) | task
  · refine stays_tell fun entry hentry => ?_
    have hlisted : rt.roster here.name ≠ none := fun hnone => by rw [hnone] at hentry; cases hentry
    exact stays_onDeliver hlisted hmoored ..
  · exact stays_tell fun _ _ => .refl rt
  · exact stays_tell fun _ _ => .refl rt
  · exact stays_tell fun _ _ => .refl rt
  · refine stays_tell fun entry _ => ?_
    rw [onDeadlineElapsed_eq]
    split <;> exact .refl rt

end KameoRuntime

namespace Fed

open Shared (Grows)
open KameoRuntime (Stays)

variable {here : Address} {watch : WatchId} {fed : Fed P}

/-- A snapshot of the roster names nobody twice. -/
structure Sound (here : Address) (watch : WatchId) (fed : Fed P) : Prop where
  endpoint : fed.rt.endpoint = here.endpoint
  name : fed.actor.name = here.name
  mine : fed.watch = watch
  watched : watch < fed.rt.net.deathWatchers.length
  moored : ∀ name entry, fed.rt.roster name = some entry → entry.inbox = ⟨fed.rt.address name⟩
  aborted : ⟨here⟩ ∈ fed.rt.aborted → fed.rt.roster here.name = none
  names : ∀ endpoint names, fed.watching = .Telling endpoint names → names.Nodup

theorem Sound.here_eq (h : Sound here watch fed) : fed.here = here := by
  rw [Fed.here, KameoRuntime.address, h.endpoint, h.name]

variable [Party P]

theorem stays_act {actor : KameoActor P Shared MemoryInbox} (hname : actor.name = here.name)
    (hmoored : ∀ name entry, actor.rt.roster name = some entry → entry.inbox = ⟨actor.rt.address name⟩)
    {a : KameoActor.Act P Shared MemoryInbox} (ha : ∀ world, a ≠ .Elsewhere world) :
    Stays here watch actor.rt (actor.act a).rt := by
  unfold KameoActor.act KameoActor.exec
  cases a with
  | Tell told => exact .refl actor.rt
  | Fire task =>
    dsimp only
    split
    · exact KameoRuntime.stays_tell fun _ _ => .refl actor.rt
    · exact .refl actor.rt
  | Handle =>
    dsimp only
    split
    · exact .refl actor.rt
    · rw [KameoActor.handled_rt, hname]
      exact KameoRuntime.stays_handle hmoored _
  | Stop => exact KameoRuntime.stays_stop hmoored actor.name
  | Rehash conversations =>
    refine KameoRuntime.stays_tell fun entry _ => ?_
    unfold KameoRuntime.onRehash
    split <;> exact .refl actor.rt
  | Elsewhere world => exact absurd rfl (ha world)

omit [Party P] in
theorem stays_endPump (fed : Fed P) : Stays here watch fed.rt fed.endPump.rt := by
  have hgrows : Grows here watch fed.rt.net (fed.rt.net.run (.Drop ⟨fed.here⟩)) := by
    apply Shared.grows_run <;> intros <;> nofun
  exact .of_net hgrows

theorem Sound.stays_step (h : Sound here watch fed) {a : Act P} (ha : fed.Lawful a)
    (hpoll : ∀ waker, a ≠ .Poll waker) (hnext : ∀ waker, a ≠ .NextDeath waker) :
    Stays here watch fed.rt (fed.step a).rt := by
  cases a with
  | Poll waker => exact absurd rfl (hpoll waker)
  | NextDeath waker => exact absurd rfl (hnext waker)
  | Hand closed =>
    unfold step hand
    dsimp only
    split
    · split
      · exact fed.stays_endPump
      · exact .refl fed.rt
    all_goals exact .refl fed.rt
  | Drop =>
    unfold step drop
    dsimp only
    split
    · refine fed.stays_endPump.trans ⟨rfl, .refl _, id, fun haborted => Or.inl ?_, id⟩
      exact List.mem_of_mem_erase haborted
    · exact .refl fed.rt
  | Snapshot names =>
    unfold step snapshot
    dsimp only
    split <;> exact .refl fed.rt
  | TellNext =>
    unfold step tellNext
    dsimp only
    split
    · split <;> exact .refl fed.rt
    all_goals exact .refl fed.rt
  | Host a =>
    refine stays_act h.name h.moored fun world hworld => ?_
    subst hworld
    exact ha
  | Elsewhere op clock roster =>
    obtain ⟨hforeign, hpolls, hroster⟩ := ha
    rw [h.here_eq] at hforeign hpolls
    rw [h.mine] at hpolls
    have hafter : (fed.step (.Elsewhere op clock roster)).rt.roster =
        Function.update roster fed.actor.name (fed.rt.roster fed.actor.name) := rfl
    refine ⟨rfl, Shared.grows_run fed.rt.net ?_ (fun waker => (hpolls waker).1) fun waker => (hpolls waker).2,
      fun hgone => ?_, Or.inl, fun hmoored name entry hentry => ?_⟩
    · rintro rfl
      exact hforeign rfl
    · rw [← h.name] at hgone ⊢
      rw [hafter, Function.update_self, hgone]
    · rw [hafter] at hentry
      by_cases hname : name = fed.actor.name
      · subst hname
        rw [Function.update_self] at hentry
        exact hmoored _ entry hentry
      · rw [Function.update_of_ne hname] at hentry
        exact hroster name entry hentry

omit [Party P] in
theorem poll_cases (fed : Fed P) (waker : Waker) :
    (fed.poll waker = fed ∧ fed.drawn (.Poll waker) = []) ∨
    (fed.poll waker = fed.endPump ∧ fed.drawn (.Poll waker) = [] ∧ fed.pump = .Polling) ∨
    (∃ net mailbox, fed.poll waker = fed.withNet net ∧ fed.drawn (.Poll waker) = [] ∧
      fed.rt.net.mailboxes.lookup fed.here = some mailbox ∧ net.deathWatchers = fed.rt.net.deathWatchers ∧
      net.mailboxes = fed.rt.net.mailboxes.insert fed.here { mailbox with waker := some waker }) ∨
    (∃ net mailbox delivery queue, fed.poll waker = { fed.withNet net with pump := .Holding delivery } ∧
      fed.drawn (.Poll waker) = [delivery] ∧ fed.pump = .Polling ∧ mailbox.queue = delivery :: queue ∧
      fed.rt.net.mailboxes.lookup fed.here = some mailbox ∧ net.deathWatchers = fed.rt.net.deathWatchers ∧
      net.mailboxes = fed.rt.net.mailboxes.insert fed.here { mailbox with queue }) := by
  unfold poll drawn
  cases fed.pump with
  | Holding delivery => exact Or.inl ⟨rfl, rfl⟩
  | Ended => exact Or.inl ⟨rfl, rfl⟩
  | Polling =>
    refine Or.inr ?_
    dsimp only [Inbox.next]
    cases hmailbox : fed.rt.net.mailboxes.lookup fed.here with
    | none =>
      simp only [Shared.pollNext, hmailbox]
      exact Or.inl ⟨rfl, trivial, trivial⟩
    | some mailbox =>
      refine Or.inr ?_
      cases hqueue : mailbox.queue with
      | nil =>
        simp only [Shared.pollNext, hmailbox, hqueue]
        exact Or.inl ⟨_, mailbox, rfl, trivial, rfl, rfl, by rw [← hqueue]⟩
      | cons delivery queue =>
        simp only [Shared.pollNext, hmailbox, hqueue]
        exact Or.inr ⟨_, mailbox, delivery, queue, rfl, rfl, trivial, hqueue, rfl, rfl, rfl⟩

omit [Party P] in
theorem nextDeath_cases (fed : Fed P) (waker : Waker) :
    (fed.nextDeath waker = fed ∧ fed.yielded (.NextDeath waker) = []) ∨
    (∃ net, fed.nextDeath waker = fed.withNet net ∧ fed.yielded (.NextDeath waker) = [] ∧
      net.mailboxes = fed.rt.net.mailboxes ∧ net.deathWatchers.length = fed.rt.net.deathWatchers.length ∧
      fed.deaths = net.deaths fed.watch) ∨
    (∃ net endpoint, fed.nextDeath waker = { fed.withNet net with watching := .Noted endpoint } ∧
      fed.yielded (.NextDeath waker) = [endpoint] ∧ fed.watching = .Waiting ∧
      net.mailboxes = fed.rt.net.mailboxes ∧ net.deathWatchers.length = fed.rt.net.deathWatchers.length ∧
      fed.deaths = endpoint :: net.deaths fed.watch) := by
  unfold nextDeath yielded
  cases hwatching : fed.watching with
  | Noted endpoint => exact Or.inl ⟨rfl, rfl⟩
  | Telling endpoint names => exact Or.inl ⟨rfl, rfl⟩
  | Ended => exact Or.inl ⟨rfl, rfl⟩
  | Waiting =>
    refine Or.inr ?_
    have hmailboxes := fed.rt.net.pollDeath_mailboxes fed.watch waker
    have hlength := fed.rt.net.pollDeath_length fed.watch waker
    dsimp only [DeathWatch.nextDeath]
    rcases fed.rt.net.pollDeath_cases fed.watch waker with ⟨endpoint, hready, hdeaths⟩ | ⟨hpending, hnil, hstill⟩
    · rw [hready]
      exact Or.inr ⟨_, endpoint, rfl, rfl, rfl, hmailboxes, hlength, hdeaths⟩
    · rw [hpending]
      exact Or.inl ⟨_, rfl, rfl, hmailboxes, hlength, hnil.trans hstill.symm⟩

theorem step_same (fed : Fed P) (a : Act P) :
    (fed.step a).actor.name = fed.actor.name ∧ (fed.step a).watch = fed.watch := by
  cases a with
  | Poll waker =>
    unfold step poll
    dsimp only
    split
    · split <;> exact ⟨rfl, rfl⟩
    all_goals exact ⟨rfl, rfl⟩
  | Hand closed =>
    unfold step hand
    dsimp only
    split
    · split <;> exact ⟨rfl, rfl⟩
    all_goals exact ⟨rfl, rfl⟩
  | Drop =>
    unfold step drop
    dsimp only
    split <;> exact ⟨rfl, rfl⟩
  | NextDeath waker =>
    unfold step nextDeath
    dsimp only
    split
    · split <;> exact ⟨rfl, rfl⟩
    all_goals exact ⟨rfl, rfl⟩
  | Snapshot names =>
    unfold step snapshot
    dsimp only
    split <;> exact ⟨rfl, rfl⟩
  | TellNext =>
    unfold step tellNext
    dsimp only
    split
    · split <;> exact ⟨rfl, rfl⟩
    all_goals exact ⟨rfl, rfl⟩
  | Host a => exact ⟨KameoActor.name_act .., rfl⟩
  | Elsewhere op clock roster => exact ⟨rfl, rfl⟩

theorem names_step {a : Act P} (ha : fed.Lawful a)
    (h : ∀ endpoint names, fed.watching = .Telling endpoint names → names.Nodup) (endpoint : EndpointId)
    (names : List ActorName) (hnames : (fed.step a).watching = .Telling endpoint names) : names.Nodup := by
  cases a with
  | Poll waker =>
    unfold step poll at hnames
    dsimp only at hnames
    split at hnames
    · split at hnames <;> exact h endpoint names hnames
    all_goals exact h endpoint names hnames
  | Hand closed =>
    unfold step hand at hnames
    dsimp only at hnames
    split at hnames
    · split at hnames <;> exact h endpoint names hnames
    all_goals exact h endpoint names hnames
  | Drop =>
    unfold step drop at hnames
    dsimp only at hnames
    split at hnames <;> exact h endpoint names hnames
  | NextDeath waker =>
    unfold step nextDeath at hnames
    dsimp only at hnames
    split at hnames
    · split at hnames
      · cases hnames
      · cases hnames
      · exact h endpoint names hnames
    all_goals exact h endpoint names hnames
  | Snapshot listed =>
    unfold step snapshot at hnames
    dsimp only at hnames
    split at hnames
    · cases hnames
      exact ha.1
    all_goals exact h endpoint names hnames
  | TellNext =>
    unfold step tellNext at hnames
    dsimp only at hnames
    split at hnames
    · rename_i hwatching
      split at hnames <;> cases hnames <;> exact (h _ _ hwatching).of_cons
    · cases hnames
    all_goals exact h endpoint names hnames
  | Host a => exact h endpoint names hnames
  | Elsewhere op clock roster => exact h endpoint names hnames

theorem Sound.around (h : Sound here watch fed) {a : Act P} (ha : fed.Lawful a) :
    Stays here watch fed.rt (fed.step a).rt ∨ ∃ net, (fed.step a).rt = { fed.rt with net } ∧
      fed.rt.net.deathWatchers.length ≤ net.deathWatchers.length := by
  by_cases hpoll : ∀ waker, a ≠ .Poll waker
  · by_cases hnext : ∀ waker, a ≠ .NextDeath waker
    · exact Or.inl (h.stays_step ha hpoll hnext)
    · obtain ⟨waker, rfl⟩ := not_forall_not.mp hnext
      rcases fed.nextDeath_cases waker with ⟨hsame, -⟩ | ⟨net, hnext, -, -, hlength, -⟩ |
        ⟨net, endpoint, hnext, -, -, -, hlength, -⟩
      · exact Or.inr ⟨fed.rt.net, congrArg Fed.rt hsame, le_rfl⟩
      · exact Or.inr ⟨net, congrArg Fed.rt hnext, hlength.ge⟩
      · exact Or.inr ⟨net, congrArg Fed.rt hnext, hlength.ge⟩
  · obtain ⟨waker, rfl⟩ := not_forall_not.mp hpoll
    rcases fed.poll_cases waker with ⟨hsame, -⟩ | ⟨hended, -, -⟩ | ⟨net, mailbox, hpending, -, -, hwatchers, -⟩ |
      ⟨net, mailbox, delivery, queue, hready, -, -, -, -, hwatchers, -⟩
    · exact Or.inr ⟨fed.rt.net, congrArg Fed.rt hsame, le_rfl⟩
    · exact Or.inr ⟨fed.rt.net.dropInbox ⟨fed.here⟩, congrArg Fed.rt hended, le_rfl⟩
    · exact Or.inr ⟨net, congrArg Fed.rt hpending, (congrArg List.length hwatchers).ge⟩
    · exact Or.inr ⟨net, congrArg Fed.rt hready, (congrArg List.length hwatchers).ge⟩

theorem Sound.step (h : Sound here watch fed) {a : Act P} (ha : fed.Lawful a) :
    Sound here watch (fed.step a) := by
  obtain ⟨hname, hwatch⟩ := fed.step_same a
  have hnames := names_step ha h.names
  rcases h.around ha with hstays | ⟨net, hrt, hwatched⟩
  · refine ⟨hstays.endpoint.trans h.endpoint, hname.trans h.name, hwatch.trans h.mine,
      h.watched.trans_le hstays.grows.watched, hstays.moored h.moored, fun haborted => ?_, hnames⟩
    rcases hstays.aborted haborted with hbefore | hgone
    · exact hstays.gone (h.aborted hbefore)
    · exact hgone
  · refine ⟨?_, hname.trans h.name, hwatch.trans h.mine, ?_, ?_, ?_, hnames⟩ <;> rw [hrt]
    · exact h.endpoint
    · exact h.watched.trans_le hwatched
    · exact h.moored
    · exact h.aborted

end Fed

end Kamiroh
