import Kamiroh.Kameo.Serial
import Kamiroh.Runtime.Admissions
import Kamiroh.Runtime.Revocations

/-!
# What becomes of a host's exchanges

An exchange that awaits a turn has a task that will report it, and a report is judged when the mail before
it is worked off. A revocation bars an endpoint from the moment it is handled.
-/

namespace Kamiroh

open TurnState

variable {P N Ib : Type} [Party P] [Transport N] [Registry N Ib]

/-! ## Mail is handled in order -/

namespace KameoActor

omit [Party P] [Transport N] [Registry N Ib] in
def Act.handles : Act P N Ib → Bool
  | .Handle => true
  | .Tell _ | .Fire _ | .Stop | .Rehash _ | .Elsewhere _ => false

variable {actor : KameoActor P N Ib} {task : Task}

/-- The act takes the report of the task out of the mailbox. -/
def Judges (task : Task) (actor : KameoActor P N Ib) (a : Act P N Ib) : Prop :=
  a = .Handle ∧ actor.mailbox.head? = some (.DeadlineElapsed task)

theorem mailbox_act {a : Act P N Ib} (ha : a ≠ .Handle) :
    ∃ more, (actor.act a).mailbox = actor.mailbox ++ more := by
  unfold act exec
  cases a with
  | Tell told => exact ⟨[.Told told], rfl⟩
  | Fire task =>
    dsimp only
    split
    · exact ⟨[.DeadlineElapsed task], rfl⟩
    · exact ⟨[], (List.append_nil _).symm⟩
  | Handle => exact absurd rfl ha
  | Stop | Rehash _ | Elsewhere _ => exact ⟨[], (List.append_nil _).symm⟩

theorem mailbox_handle (actor : KameoActor P N Ib) : (actor.act .Handle).mailbox = actor.mailbox.tail := by
  unfold act exec
  cases hmailbox : actor.mailbox with
  | nil => exact hmailbox
  | cons mail mailbox => exact handled_mailbox ..

theorem queued_act {a : Act P N Ib} (hqueued : .DeadlineElapsed task ∈ actor.mailbox)
    (hnot : ¬ Judges task actor a) :
    .DeadlineElapsed task ∈ (actor.act a).mailbox ∧
      (actor.act a).mailbox.idxOf (.DeadlineElapsed task) + 1 + (if a.handles then 1 else 0) ≤
        actor.mailbox.idxOf (.DeadlineElapsed task) + 1 := by
  by_cases ha : a = .Handle
  · subst ha
    rw [mailbox_handle]
    cases hmailbox : actor.mailbox with
    | nil =>
      rw [hmailbox] at hqueued
      cases hqueued
    | cons mail mailbox =>
      have hne : mail ≠ .DeadlineElapsed task := fun h => hnot ⟨rfl, by rw [hmailbox, h]; rfl⟩
      rw [hmailbox] at hqueued
      rw [List.tail_cons, List.idxOf_cons_ne mailbox hne]
      exact ⟨(List.mem_cons.mp hqueued).resolve_left hne.symm, le_rfl⟩
  · have hidle : a.handles = false := by
      cases a with
      | Handle => exact absurd rfl ha
      | Tell _ | Fire _ | Stop | Rehash _ | Elsewhere _ => rfl
    obtain ⟨more, hmore⟩ : ∃ more, (actor.act a).mailbox = actor.mailbox ++ more := mailbox_act ha
    rw [hmore, hidle, List.idxOf_append_of_mem hqueued]
    exact ⟨List.mem_append_left more hqueued, le_rfl⟩

theorem judged_within (acts : List (Act P N Ib)) (hqueued : .DeadlineElapsed task ∈ actor.mailbox)
    (hmany : actor.mailbox.length ≤ acts.countP Act.handles) :
    ∃ pre a post, acts = pre ++ a :: post ∧ Judges task (actor.after pre) a := by
  have hlt : actor.mailbox.idxOf (.DeadlineElapsed task) < actor.mailbox.length :=
    List.idxOf_lt_length_iff.mpr hqueued
  have hany : Run.Along act (fun _ _ => True) actor acts :=
    Run.along_of_forall act (fun _ _ => trivial) actor acts
  obtain ⟨pre, a, post, hsplit, hjudges, -⟩ := Run.reach_within act
    (fun actor => .DeadlineElapsed task ∈ actor.mailbox) (Judges task) Act.handles
    (fun actor => actor.mailbox.idxOf (.DeadlineElapsed task) + 1)
    (fun _ _ h _ hnot => queued_act h hnot) (fun _ _ => Nat.succ_pos _) actor acts hqueued hany
    (hlt.trans_le hmany)
  exact ⟨pre, a, post, hsplit, hjudges⟩

/-! ## A task that was spawned -/

variable {host host' : Host P}

theorem spawned_act (h : Holds actor) (a : Act P N Ib) (hhost' : (actor.act a).host = some host') :
    ∃ host, actor.host = some host ∧ host.spawned ≤ host'.spawned := by
  cases a with
  | Tell told => exact ⟨host', hhost', le_rfl⟩
  | Fire task =>
    unfold act exec at hhost'
    dsimp only at hhost'
    split at hhost'
    · obtain ⟨host, hhost, rfl⟩ := host_tell hhost'
      exact ⟨host, hhost, le_rfl⟩
    · exact ⟨host', hhost', le_rfl⟩
  | Handle =>
    unfold act exec at hhost'
    dsimp only at hhost'
    split at hhost'
    · exact ⟨host', hhost', le_rfl⟩
    · dsimp only at hhost'
      rw [handled_host] at hhost'
      obtain ⟨host, hhost, htends⟩ := handle_tends hhost'
      exact ⟨host, hhost, (htends (h host hhost).reports).1.spawned⟩
  | Stop =>
    have hnone : (actor.act .Stop).host = none := host_stop actor.name
    rw [hnone] at hhost'
    cases hhost'
  | Rehash conversations =>
    obtain ⟨host, hhost, rfl⟩ := host_tell hhost'
    obtain ⟨arranged, -, hrehash⟩ := actor.rt.onRehash_cases host conversations
    exact ⟨host, hhost, by rw [hrehash]⟩
  | Elsewhere world =>
    have hroster : (actor.act (.Elsewhere world)).rt.roster actor.name = actor.rt.roster actor.name :=
      Function.update_self ..
    refine ⟨host', ?_, le_rfl⟩
    rw [← hhost']
    exact congrArg (Option.map Entry.host) hroster.symm

/-- The task was spawned by this host, if it is still there. -/
def Known (task : Task) (actor : KameoActor P N Ib) : Prop :=
  Holds actor ∧ ∀ host, actor.host = some host → task.id < host.spawned

theorem Known.act (h : Known task actor) (a : Act P N Ib) : Known task (actor.act a) := by
  refine ⟨fun host' hhost' => ?_, fun host' hhost' => ?_⟩
  · obtain ⟨-, -, hsound, -⟩ := h.1.act a hhost'
    exact hsound
  · obtain ⟨host, hhost, hle⟩ := spawned_act h.1 a hhost'
    exact (h.2 host hhost).trans_le hle

theorem Known.after (h : Known task actor) (acts : List (Act P N Ib)) : Known task (actor.after acts) :=
  Run.invariant_all KameoActor.act (I := Known task) (fun _ a h => Known.act h a) actor acts h

theorem Known.judged (h : Known task actor) {a : Act P N Ib} (hjudges : Judges task actor a) :
    Over task (actor.act a) := by
  obtain ⟨rfl, hhead⟩ := hjudges
  have hknown := h.act .Handle
  refine ⟨hknown.1, fun host' hhost' => ⟨hknown.2 host' hhost', ?_⟩⟩
  obtain ⟨mailbox, hmailbox⟩ := List.head?_eq_some_iff.mp hhead
  rw [KameoActor.act, exec_handle hmailbox, handled_host] at hhost'
  obtain ⟨host, hhost, htends⟩ := handle_tends hhost'
  exact (htends (h.1 host hhost).reports).2 task rfl

/-- A task that does not sleep any more has its wait judged within the mail that is there. -/
theorem Known.over_within (h : Known task actor)
    (hawake : ∀ host, actor.host = some host → task ∉ host.sleeping) (acts : List (Act P N Ib))
    (hmany : actor.mailbox.length ≤ acts.countP Act.handles) : Over task (actor.after acts) := by
  by_cases hpending : ∃ host, actor.host = some host ∧ task ∈ (host.waits task.report.peer).tasks
  · obtain ⟨host, hhost, hpending⟩ := hpending
    have hqueued := ((h.1 host hhost).pending _ task hpending).resolve_left (hawake host hhost)
    obtain ⟨pre, a, post, rfl, hjudges⟩ := judged_within acts hqueued hmany
    have hover := (h.after pre).judged hjudges
    rw [KameoActor.after, Run.after_append, Run.after_cons]
    exact hover.after post
  · have hover : Over task actor := ⟨h.1, fun host hhost =>
      ⟨h.2 host hhost, fun hmem => hpending ⟨host, hhost, hmem⟩⟩⟩
    exact hover.after acts

end KameoActor

/-! ## What awaits is timed -/

/-- A conversation that awaits a turn has its deadline armed, and what is armed is awaited. -/
structure PeerState.Timed (ps : PeerState) : Prop where
  waiting : ps.Waiting
  awaited : ∀ id, ps.state = .AwaitingTheirTurn id → ps.turnDue.isSome = true

namespace PeerState

theorem timed_of_unarmed {state : TurnState} (h : ∀ id, state ≠ .AwaitingTheirTurn id) :
    (⟨state, none, none⟩ : PeerState).Timed :=
  ⟨waiting_of_unarmed state, fun id hid => absurd hid (h id)⟩

theorem timed_fail (ps : PeerState) : ps.fail.Timed := by
  obtain ⟨state, ackDue, turnDue⟩ := ps
  cases state <;> exact timed_of_unarmed fun id h => by cases h

theorem Waiting.unarmed {ps : PeerState} (h : ps.Waiting) (hlive : ps.state.live = false) :
    ps.ackDue = none ∧ ps.turnDue = none := by
  refine ⟨?_, ?_⟩ <;> by_contra harmed
  · cases hlive.symm.trans (h.live (Or.inl (Option.isSome_iff_ne_none.mpr harmed)))
  · cases hlive.symm.trans (h.live (Or.inr (Option.isSome_iff_ne_none.mpr harmed)))

theorem Timed.settleAck {ps : PeerState} (h : ps.Timed) (id : RequestId) : (ps.settleAck id).Timed := by
  refine ⟨⟨fun id' due hdue => ?_, fun due hdue => ?_⟩, fun id' hid => ?_⟩
  · rw [settleAck_state]
    rcases ps.settleAck_ackDue id with hack | hack
    · exact h.waiting.ack id' due (hack ▸ hdue)
    · rw [hack] at hdue
      cases hdue
  · rw [settleAck_state]
    exact h.waiting.turn due (ps.settleAck_turnDue id ▸ hdue)
  · rw [settleAck_turnDue]
    exact h.awaited id' (ps.settleAck_state id ▸ hid)

end PeerState

theorem PeerTook.timed {ps ps' : PeerState} {turn : Turn} {reply : Option Turn}
    (h : PeerTook ps turn reply ps') (hps : ps.Timed) : ps'.Timed := by
  rcases h with ⟨error, _⟩ | ⟨progress, _, _⟩ | ⟨progress, _, state, hlive⟩ |
    ⟨progress, _, answer, _, progress', hout, now, deadlines⟩
  · exact hps
  · refine PeerState.timed_of_unarmed fun id h => ?_
    cases turn <;> cases h
  · refine PeerState.timed_of_unarmed fun id h => ?_
    rw [h] at hlive
    cases hlive
  · refine ⟨PeerState.waiting_armed hout now deadlines, fun id hid => ?_⟩
    exact PeerState.armed_armed hout now deadlines (by rw [hid]; rfl)

namespace LocalRuntime

variable {rt : LocalRuntime P N Ib}

theorem timed_ask (h : rt.Each PeerState.Timed) (asked : Asked P N) : (rt.ask asked).1.Each PeerState.Timed := by
  cases asked with
  | Call call =>
    have hdefault : (default : PeerState).Timed := PeerState.timed_of_unarmed fun id h => by cases h
    refine exec_each hdefault (fun ps _ => ps.timed_fail) (fun ps id hps => hps.settleAck id) h call
      fun actor peer turn htakes ps htook => ?_
    obtain ⟨name, target, -, hactor, -⟩ := htakes
    exact htook.timed (h name actor hactor peer)
  | Observe observer => exact h
  | Elapse name peer kind =>
    unfold ask
    dsimp only
    split
    · rename_i actor hactor
      intro name' actor' hactor' p
      by_cases hname : name' = name
      · subst hname
        rw [failExchange, setActor_self] at hactor'
        cases hactor'
        rw [LocalActor.failExchange_peer]
        split
        · exact PeerState.timed_fail _
        · exact h name' actor hactor p
      · rw [failExchange, setActor_of_ne _ _ hname] at hactor'
        exact h name' actor' hactor' p
    · exact h

theorem timed_asked (h : rt.Each PeerState.Timed) (asks : List (Asked P N)) :
    (rt.afterAsked asks).Each PeerState.Timed :=
  Run.invariant_all _ (I := fun rt => rt.Each PeerState.Timed) (fun _ asked h => timed_ask h asked) rt asks h

end LocalRuntime

/-! ## A command -/

/-- The effect does not reach the endpoint: it sends nothing there, and it does not call the party about a
peer there. -/
def Effect.Spares (here : Address) (endpoint : EndpointId) (e : Effect) : Prop :=
  ¬ e.Calls here endpoint ∧ ¬ e.SendsTo endpoint

theorem Effect.Within.spares {here : Address} {endpoint : EndpointId} {e : Effect}
    (h : e.Within here (·.endpoint ≠ endpoint)) (here' : Address) : e.Spares here' endpoint := by
  refine ⟨fun hcalls => ?_, fun hsends => ?_⟩
  · obtain ⟨-, p, hp, hendpoint⟩ := h.calls hcalls
    exact hp hendpoint
  · obtain ⟨p, hp, hendpoint⟩ := h.sendsTo hsends
    exact hp hendpoint

/-- A command changes nothing of the host that takes it, and it is not about the endpoint, the clock or the
observer. The answer goes to a controller that the host allows. -/
structure Obeyed (krt : KameoRuntime P N Ib) (host : Host P) (handled : Handled P N Ib Unit) : Prop where
  kept : handled.host = host
  endpoint : handled.rt.endpoint = krt.endpoint
  clock : handled.rt.clock = krt.clock
  observer : handled.rt.observer = krt.observer
  effects : ∀ e ∈ handled.effects, ∀ here endpoint, host.allowlist.allows endpoint = false →
    e.Spares here endpoint

variable {krt : KameoRuntime P N Ib} {host : Host P}

omit [Party P] [Registry N Ib] in
theorem Obeyed.sendIgnored {krt' : KameoRuntime P N Ib} (h : Obeyed krt host ⟨(), krt', host, []⟩)
    {target : Address} (hallows : host.allowlist.allows target.endpoint = true) (message : Option Message) :
    Obeyed krt host (krt'.sendIgnored host target message) := by
  cases message with
  | none => exact h
  | some message =>
    have hspares : ∀ accepted, ∀ e ∈ [Effect.Sent host.address target message accepted], ∀ here endpoint,
        host.allowlist.allows endpoint = false → e.Spares here endpoint := by
      intro accepted e he here endpoint hdenied
      cases List.mem_singleton.mp he
      refine ⟨id, fun hsends => ?_⟩
      cases hdenied.symm.trans (hsends ▸ hallows)
    unfold KameoRuntime.sendIgnored KameoRuntime.send
    dsimp only
    split <;> exact ⟨rfl, h.endpoint, h.clock, h.observer, hspares _⟩

namespace KameoRuntime

omit [Party P] [Transport N] in
theorem obeyed_execute (krt : KameoRuntime P N Ib) (host : Host P) (command : Harness) (controller : Address) :
    Obeyed krt host ⟨(), (krt.execute command controller).2, host, []⟩ := by
  have hsame : ∀ krt' : KameoRuntime P N Ib, krt'.endpoint = krt.endpoint → krt'.clock = krt.clock →
      krt'.observer = krt.observer → Obeyed krt host ⟨(), krt', host, []⟩ := fun _ hendpoint hclock hobserver =>
    ⟨rfl, hendpoint, hclock, hobserver, fun e he => (List.not_mem_nil he).elim⟩
  cases command with
  | Ping | Spawned name | Stopped name | Pong | Failed reason => exact hsame krt rfl rfl rfl
  | Spawn name =>
    have hspawned : ∀ allowlist, Obeyed krt host
        ⟨(), (krt.installParty name allowlist krt.spawnDeadlines (.echo .new)).2, host, []⟩ := fun allowlist => by
      unfold installParty installInner
      split
      · exact hsame _ rfl rfl rfl
      · split <;> exact hsame _ rfl rfl rfl
    unfold execute
    dsimp only
    split <;> exact hspawned _
  | Stop name =>
    have hstopped : Obeyed krt host ⟨(), (krt.stop name).2, host, []⟩ := by
      unfold stop
      split <;> exact hsame _ rfl rfl rfl
    unfold execute
    dsimp only
    split <;> exact hstopped

theorem obeyed_onDeliver (krt : KameoRuntime P N Ib) (host : Host P) {delivery : Delivery} {command : Harness}
    (hcommand : delivery.message = .Harness command) : Obeyed krt host (krt.onDeliver host delivery) := by
  unfold onDeliver
  cases hallows : host.allowlist.allows delivery.origin.endpoint with
  | false =>
    rw [process_denied.mpr hallows]
    refine ⟨rfl, rfl, rfl, rfl, fun e he here endpoint _ => ?_⟩
    dsimp only [emit] at he
    split at he
    · cases List.mem_singleton.mp he
      exact ⟨id, id⟩
    · cases he
  | true =>
    simp only [process_admitted hallows, hcommand]
    split
    · exact Obeyed.sendIgnored ⟨rfl, rfl, rfl, rfl, fun e he => (List.not_mem_nil he).elim⟩ hallows _
    · exact (obeyed_execute krt host command delivery.origin).sendIgnored hallows _

omit [Party P] [Transport N] [Registry N Ib] in
theorem obeyed_tell {handler : Host P → Handled P N Ib Unit} (name : ActorName)
    (h : ∀ host, Obeyed krt host (handler host)) :
    (krt.tell name handler).1.endpoint = krt.endpoint ∧ (krt.tell name handler).1.clock = krt.clock ∧
      (krt.tell name handler).1.observer = krt.observer := by
  unfold tell
  split
  · rename_i entry hentry
    have hsame := h entry.host
    unfold setHost
    dsimp only
    split <;> exact ⟨hsame.endpoint, hsame.clock, hsame.observer⟩
  · exact ⟨rfl, rfl, rfl⟩

end KameoRuntime

namespace KameoActor

variable {here : Address} {kind : ActorKind} {actor : KameoActor P N Ib} {rt : LocalRuntime P N Ib}

/-- A twin that takes the network as the command leaves it is a twin again. -/
theorem Serves.commanded (h : Serves here kind actor rt) {a : Act P N Ib} (hcommanded : Commanded kind actor a) :
    Serves here kind (actor.act a) { rt with net := (actor.act a).rt.net } ∧
      ∀ host, actor.host = some host → ∀ e ∈ (actor.exec a).2, ∀ endpoint,
        host.allowlist.allows endpoint = false → e.Spares here endpoint := by
  obtain ⟨rfl, mail, mailbox, hmailbox, hcommands⟩ := hcommanded
  rcases mail with (delivery | _ | _ | _) | _
  · obtain ⟨-, command, hcommand⟩ := hcommands
    have hobeyed := fun host => actor.rt.obeyed_onDeliver host hcommand
    have hexec := exec_handle hmailbox
    rw [h.name] at hexec
    have hrt : (actor.act .Handle).rt =
        (actor.rt.tell here.name fun host => actor.rt.onDeliver host delivery).1 := by
      rw [KameoActor.act, hexec, handled_rt, KameoActor.handle]
    obtain ⟨hendpoint, hclock, hobserver⟩ := KameoRuntime.obeyed_tell here.name hobeyed
    rw [← hrt] at hendpoint hclock hobserver
    have hbeside := h.twins.beside
    refine ⟨h.of_twins (a := .Handle) trivial ⟨⟨hbeside.endpoint.trans hendpoint.symm, rfl,
      hbeside.clock.trans hclock.symm, hbeside.observer.trans hobserver.symm⟩, h.twins.address, h.twins.quiet,
      fun host' hhost' => ?_⟩ hclock.ge, fun host hhost e he endpoint hdenied => ?_⟩
    · rw [hrt] at hhost'
      obtain ⟨host, hhost, rfl⟩ := host_tell hhost'
      rw [(hobeyed host).kept]
      exact h.twins.host host hhost
    · obtain ⟨entry, hentry, rfl⟩ := Option.map_eq_some_iff.mp hhost
      rw [hexec, KameoActor.handle, ← h.name, KameoRuntime.tell, hentry] at he
      exact (hobeyed entry.host).effects e he here endpoint hdenied
  all_goals exact hcommands.elim

/-- The host has a twin, in which everything that awaits is timed. -/
def Timely (here : Address) (kind : ActorKind) (actor : KameoActor P N Ib) : Prop :=
  ∃ rt, Serves here kind actor rt ∧ rt.Each PeerState.Timed

theorem Timely.act (h : Timely here kind actor) {a : Act P N Ib} (hyoung : Young actor)
    (horderly : actor.Orderly a) : Timely here kind (actor.act a) := by
  obtain ⟨rt, hserves, htimed⟩ := h
  by_cases hcommanded : Commanded kind actor a
  · exact ⟨_, (hserves.commanded hcommanded).1, htimed⟩
  · exact ⟨_, (hserves.act hyoung horderly hcommanded).2, LocalRuntime.timed_asked htimed _⟩

theorem Timely.after (h : Timely here kind actor) (acts : List (Act P N Ib))
    (hshort : ∀ peer, actor.rounds peer + acts.length < 2 ^ 64)
    (horderly : Run.Along KameoActor.act Orderly actor acts) : Timely here kind (actor.after acts) := by
  have hok : Run.Along KameoActor.act (fun actor a => Young actor ∧ actor.Orderly a) actor acts :=
    (Run.along_and KameoActor.act actor acts).mpr ⟨young_along acts hshort, horderly⟩
  exact Run.invariant KameoActor.act (fun _ _ h hok => h.act hok.1 hok.2) actor acts h hok

end KameoActor

/-! ## No exchange is forgotten -/

/-- A toy runtime beside a Kameo runtime, with no actors yet. -/
def KameoRuntime.toy (krt : KameoRuntime P N Ib) : LocalRuntime P N Ib :=
  ⟨krt.endpoint, krt.net, krt.clock, krt.spawnDeadlines, krt.observer, none, ∅, fun _ => none⟩

namespace KameoActor

section

variable {krt : KameoRuntime P N Ib} {name : ActorName} {allowlist : Allowlist} {deadlines : Deadlines}
  {kind : ActorKind} {party : Option (Boxed P)}

omit [Party P] [Transport N] in
theorem serves_toy (hentry : krt.roster name = none)
    (hinstalled : (krt.installInner name allowlist deadlines kind party).1 = .ok ()) :
    Serves (krt.address name) kind (start name (krt.installInner name allowlist deadlines kind party).2)
      (krt.toy.installInner name allowlist deadlines kind party).rt :=
  @serves_installed _ _ _ (krt.address name) krt.toy _ _ ⟨rfl, rfl, rfl, rfl⟩ rfl rfl hentry _ _ _ _ hinstalled

omit [Party P] [Transport N] in
theorem toy_installed (krt : KameoRuntime P N Ib) (name : ActorName) (allowlist : Allowlist)
    (deadlines : Deadlines) (kind : ActorKind) (party : Option (Boxed P)) :
    (krt.toy.installInner name allowlist deadlines kind party).rt.Each PeerState.Timed := by
  have hdefault : (default : PeerState).Timed := PeerState.timed_of_unarmed fun id h => by cases h
  intro name' actor hactor p
  rcases krt.toy.installInner_actors name allowlist deadlines kind party name' with
    hkept | ⟨-, -, inbox, hnew⟩
  · rw [hkept] at hactor
    cases hactor
  · rw [hnew] at hactor
    cases hactor
    exact hdefault

omit [Party P] [Transport N] in
theorem timely_installed (hentry : krt.roster name = none)
    (hinstalled : (krt.installInner name allowlist deadlines kind party).1 = .ok ()) :
    Timely (krt.address name) kind (start name (krt.installInner name allowlist deadlines kind party).2) :=
  ⟨_, serves_toy hentry hinstalled, toy_installed krt name allowlist deadlines kind party⟩

end

/-- No exchange of a Kameo host is forgotten, whatever its kind, and however messages, timers and handlers
interleave: the turn wait of a conversation is armed exactly while a turn is awaited, and an ack wait only
meanwhile. The task of an armed wait sleeps, or its report is in the mailbox. And once the task does not sleep
any more, the wait is over as soon as the host has handled as many messages as its mailbox held then. -/
theorem exchange_not_forgotten {krt : KameoRuntime P N Ib} {name : ActorName} (allowlist : Allowlist)
    (deadlines : Deadlines) (kind : ActorKind) (party : Option (Boxed P))
    (hentry : krt.roster name = none)
    (hinstalled : (krt.installInner name allowlist deadlines kind party).1 = .ok ())
    (acts : List (Act P N Ib)) (hshort : acts.length < 2 ^ 64) :
    let start := start name (krt.installInner name allowlist deadlines kind party).2
    let actor := start.after acts
    Run.Along act Orderly start acts → ∀ host, actor.host = some host → ∀ peer,
      ((host.waits peer).turn.isSome = true ↔ ∃ id, (host.waits peer).state = .AwaitingTheirTurn id) ∧
      (∀ id task, (host.waits peer).ack = some (id, task) →
        (host.waits peer).state = .AwaitingTheirTurn id) ∧
      ∀ task ∈ (host.waits peer).tasks,
        (task ∈ host.sleeping ∨ .DeadlineElapsed task ∈ actor.mailbox) ∧
        ∀ acts₁, (∀ host₁, (actor.after acts₁).host = some host₁ → task ∉ host₁.sleeping) →
          ∀ acts₂, (actor.after acts₁).mailbox.length ≤ acts₂.countP Act.handles →
            ∀ host₂, ((actor.after acts₁).after acts₂).host = some host₂ →
              task ∉ (host₂.waits peer).tasks := by
  intro start actor horderly host hhost peer
  have hshort' : ∀ peer, start.rounds peer + acts.length < 2 ^ 64 := fun peer => by
    rwa [show start.rounds peer = 0 from rfl, Nat.zero_add]
  obtain ⟨rt, hafter, htimely⟩ := (timely_installed hentry hinstalled).after acts hshort' horderly
  obtain ⟨toy, htoy, hseen, -⟩ := hafter.twins.host host (hafter.name ▸ hhost)
  have htimed := htimely _ toy htoy peer
  rw [hseen.peer] at htimed
  have hsound := hafter.holds host hhost
  refine ⟨⟨fun harmed => ?_, fun ⟨id, hid⟩ => ?_⟩, fun id task hack => ?_, fun task htask =>
    ⟨hsound.pending peer task htask, fun acts₁ hawake acts₂ hmany host₂ hhost₂ => ?_⟩⟩
  · obtain ⟨task, hturn⟩ := Option.isSome_iff_exists.mp harmed
    exact htimed.waiting.turn task.due (by simp only [PeerWaits.abs, hturn, Option.map_some])
  · simpa [PeerWaits.abs] using htimed.awaited id hid
  · exact htimed.waiting.ack id task.due (by simp only [PeerWaits.abs, hack, Option.map_some])
  · have hpeer : task.report.peer = peer := (hsound.reports peer).peer htask
    have hknown : Known task actor := ⟨hafter.holds, fun other hother => by
      cases hhost.symm.trans hother
      exact (hsound.current peer task htask).1⟩
    have hover := (hknown.after acts₁).over_within hawake acts₂ hmany
    exact hpeer ▸ (hover.2 host₂ hhost₂).2

open Sample in
/-- Alice says nothing more. The timer wakes with another message in the mailbox. -/
theorem exchange_not_forgotten_alice :
    let party : Option (Boxed CountdownParty) := some (.app (.new 2))
    let krt : KameoRuntime CountdownParty Shared MemoryInbox :=
      .new bob.endpoint (Shared.new.register alice).2 0 patience
    let start := start bob.name (krt.installInner bob.name ⟨{alice.endpoint}⟩ patience .Plain party).2
    let acts : List (Act CountdownParty Shared MemoryInbox) :=
      [.Tell (.Deliver ⟨alice, bob, .Turn (.Open (request 1))⟩), .Handle]
    let waking : List (Act CountdownParty Shared MemoryInbox) :=
      [.Tell (.Admit carol.endpoint), .Elsewhere fun rt => { rt with clock := 70 },
        .Fire ⟨1, 60, ⟨alice, .Turn, none, 1⟩⟩]
    ∀ host, (((start.after acts).after waking).after [.Handle, .Handle]).host = some host →
      ⟨1, 60, ⟨alice, .Turn, none, 1⟩⟩ ∉ (host.waits alice).tasks := by
  intro party krt start acts waking
  have hpending : (start.after acts).host.any (fun host =>
      ⟨1, 60, ⟨alice, .Turn, none, 1⟩⟩ ∈ (host.waits alice).tasks) = true := by decide +kernel
  obtain ⟨host, hhost, hpending⟩ := (Option.any_eq_true _ _).mp hpending
  have horderly : Run.Along act Orderly start acts := by decide +kernel
  have hall := @exchange_not_forgotten _ _ _ _ _ _ krt bob.name ⟨{alice.endpoint}⟩ patience .Plain party
    rfl rfl acts (by decide) horderly host hhost alice
  refine (hall.2.2 _ (of_decide_eq_true hpending)).2 waking (fun host₁ hhost₁ => ?_) _ (by decide +kernel)
  have hawake : ((start.after acts).after waking).host.any (fun host =>
      ⟨1, 60, ⟨alice, .Turn, none, 1⟩⟩ ∉ host.sleeping) = true := by decide +kernel
  rw [hhost₁] at hawake
  exact of_decide_eq_true hawake

end KameoActor

/-! ## A revocation lasts -/

/-- Nothing admits the endpoint, nobody else's actor is asked, and an actor of this kind is not stopped. -/
def Asked.Leaves (name : ActorName) (endpoint : EndpointId) (kind : ActorKind) : Asked P N → Prop
  | .Call call => (call.name = some name ∨ call.name = none) ∧ call ≠ .Admit name endpoint ∧
    ∀ delivery, call = .Step name (.Delivery (some delivery)) → ¬ Mail.Commands kind (.Told (.Deliver delivery))
  | .Elapse name' _ _ => name' = name
  | .Observe _ => True

namespace LocalRuntime

variable {rt : LocalRuntime P N Ib} {name : ActorName} {endpoint : EndpointId} {kind : ActorKind}

structure Bars (name : ActorName) (endpoint : EndpointId) (kind : ActorKind) (rt : LocalRuntime P N Ib) :
    Prop where
  barred : rt.Barred name endpoint
  kind : ∀ actor, rt.actors name = some actor → actor.kind = kind

theorem stays_exec {actor : LocalActor P Ib} (hactor : rt.actors name = some actor) {call : Call P N}
    (hname : call.name = some name)
    (hplain : ∀ delivery, call = .Step name (.Delivery (some delivery)) →
      ¬ Mail.Commands actor.kind (.Told (.Deliver delivery))) :
    ∃ actor', (rt.exec call).1.actors name = some actor' ∧ actor'.kind = actor.kind := by
  have hroster := exec_roster rt call name
  rw [hactor] at hroster
  generalize (rt.exec call).1.actors name = after at hroster
  rcases hroster with _ | ⟨_, actor', hsame, -, -⟩ | _ | _ | ⟨_, hcommands, _⟩
  · exact ⟨actor', rfl, hsame⟩
  · rcases hcommands with ⟨harness, actor', hactor', hkind, -, delivery, -, hcommand⟩
    cases hname
    cases hactor.symm.trans hactor'
    exact absurd ⟨hkind, _, hcommand⟩ (hplain delivery rfl)

omit [Transport N] [Registry N Ib] in
theorem failExchange_within {actor : LocalActor P Ib} {peer : Address} (cause : FailureCause) :
    ∀ e ∈ (rt.failExchange name actor peer cause).effects, e.Within (rt.address name) (· = peer) := by
  intro e he
  simp only [failExchange, LocalActor.failExchange_snd, emit, List.mem_append] at he
  rcases he with (he | he) | he
  · obtain ⟨ps, -, rfl⟩ := Option.map_eq_some_iff.mp (Option.mem_toList.mp he)
    trivial
  · split at he
    · cases List.mem_singleton.mp he
      exact ⟨rfl, rfl⟩
    · cases he
  · split at he
    · cases List.mem_singleton.mp he
      trivial
    · cases he

theorem bars_ask (h : rt.Bars name endpoint kind) {asked : Asked P N}
    (hleaves : asked.Leaves name endpoint kind) (hoverdue : rt.Overdue asked) :
    (rt.ask asked).1.Bars name endpoint kind ∧
      ∀ e ∈ (rt.ask asked).2, ∀ here, e.Spares here endpoint := by
  obtain ⟨actor, hactor, hdenied, hquiet⟩ := h.barred
  have hkind := h.kind actor hactor
  cases asked with
  | Observe observer => exact ⟨⟨h.barred, h.kind⟩, fun e he => (List.not_mem_nil he).elim⟩
  | Call call =>
    obtain ⟨hname | hname, hadmits, hplain⟩ := hleaves
    · obtain ⟨actor', hactor', hsame⟩ := stays_exec hactor hname (hkind ▸ hplain)
      have havoids := avoids_exec hname hactor hactor' hadmits hdenied hquiet
      refine ⟨⟨⟨actor', hactor', havoids.denied, fun p hp => ?_⟩, fun other hother => ?_⟩,
        fun e he => (havoids.effects e he).spares⟩
      · rw [havoids.peers p hp]
        exact hquiet p hp
      · cases hactor'.symm.trans hother
        exact hsame.trans hkind
    · cases call with
      | Elsewhere net clock => exact ⟨⟨h.barred, h.kind⟩, fun e he => (List.not_mem_nil he).elim⟩
      | Install _ _ _ _ | InstallParty _ _ _ _ | Admit _ _ | Revoke _ _ | Step _ _ | Rehash _ _ => cases hname
  | Elapse name' peer kind =>
    cases hleaves
    -- A wait is armed with the peer, so it is not at the endpoint.
    obtain ⟨actor', hactor', due, hdue, -⟩ := hoverdue
    cases hactor.symm.trans hactor'
    have hpeer : peer.endpoint ≠ endpoint := fun hendpoint => by
      obtain ⟨-, hack, hturn⟩ := hquiet peer hendpoint
      obtain ⟨-, ⟨-, id, harmed⟩ | ⟨-, harmed⟩⟩ := LocalActor.mem_waits.mp hdue
      · rw [hack] at harmed
        cases harmed
      · rw [hturn] at harmed
        cases harmed
    simp only [ask, hactor]
    refine ⟨⟨⟨_, setActor_self .., ?_, fun p hp => ?_⟩, fun other hother => ?_⟩, fun e he => ?_⟩
    · rw [LocalActor.failExchange_allowlist]
      exact hdenied
    · have hne : p ≠ peer := fun he => hpeer (he ▸ hp)
      rw [LocalActor.failExchange_peer, if_neg hne]
      exact hquiet p hp
    · rw [failExchange, setActor_self] at hother
      cases hother
      exact (LocalActor.SameActor.failExchange (rt.address name) actor peer _).kind.trans hkind
    · exact ((failExchange_within _ e he).imp fun p hp => hp ▸ hpeer).spares

theorem bars_asked (h : rt.Bars name endpoint kind) {asks : List (Asked P N)}
    (hleaves : ∀ asked ∈ asks, asked.Leaves name endpoint kind)
    (hoverdue : Run.Along (fun (rt : LocalRuntime P N Ib) asked => (rt.ask asked).1) Overdue rt asks) :
    (rt.afterAsked asks).Bars name endpoint kind ∧
      ∀ e ∈ rt.effectsAsked asks, ∀ here, e.Spares here endpoint := by
  induction asks generalizing rt with
  | nil => exact ⟨h, fun e he => (List.not_mem_nil he).elim⟩
  | cons asked asks ih =>
    obtain ⟨hfirst, hspares⟩ := bars_ask h (hleaves asked List.mem_cons_self) hoverdue.1
    obtain ⟨hlast, hrest⟩ := ih hfirst (fun a ha => hleaves a (List.mem_cons_of_mem asked ha)) hoverdue.2
    refine ⟨hlast, fun e he => ?_⟩
    rcases List.mem_append.mp he with hnow | hlater
    · exact hspares e hnow
    · exact hrest e hlater

end LocalRuntime

namespace KameoActor

variable {here : Address} {endpoint : EndpointId} {kind : ActorKind} {actor : KameoActor P N Ib}

omit [Party P] [Transport N] [Registry N Ib] in
/-- The host does not take an admission of the endpoint out of its mailbox. -/
def Spurns (endpoint : EndpointId) (actor : KameoActor P N Ib) (a : Act P N Ib) : Prop :=
  a = .Handle → actor.mailbox.head? ≠ some (.Told (.Admit endpoint))

omit [Party P] [Transport N] [Registry N Ib] in
/-- The host denies the endpoint, and has no live exchange and no task for a peer there. -/
def Shut (endpoint : EndpointId) (actor : KameoActor P N Ib) : Prop :=
  ∀ host, actor.host = some host → host.allowlist.allows endpoint = false ∧
    ∀ peer : Address, peer.endpoint = endpoint →
      (host.waits peer).state.live = false ∧ (host.waits peer).tasks = []

omit [Party P] [Transport N] [Registry N Ib] in
theorem asks_leaves (hname : actor.name = here.name) {a : Act P N Ib} (hspurns : Spurns endpoint actor a)
    (hplain : ¬ Commanded kind actor a) : ∀ asked ∈ actor.asks a, asked.Leaves here.name endpoint kind := by
  intro asked hasked
  cases a with
  | Tell _ | Fire _ | Stop | Rehash _ => cases hasked
  | Elsewhere world =>
    rcases List.mem_pair.mp hasked with rfl | rfl
    · exact ⟨Or.inr rfl, by simp, by simp⟩
    · trivial
  | Handle =>
    unfold asks at hasked
    rw [hname] at hasked
    dsimp only at hasked
    split at hasked
    · rename_i host mail mailbox hhost hmailbox
      have hmail : mail ≠ .Told (.Admit endpoint) := fun h => hspurns rfl (by rw [hmailbox, h]; rfl)
      rcases mail with (delivery | admitted | revoked | dead) | task
      · cases List.mem_singleton.mp hasked
        refine ⟨Or.inl rfl, by simp, fun other hother hcommands => ?_⟩
        cases hother
        exact hplain ⟨rfl, _, _, hmailbox, hcommands⟩
      · cases List.mem_singleton.mp hasked
        exact ⟨Or.inl rfl, fun h => by cases h; exact hmail rfl, by simp⟩
      · rcases List.mem_pair.mp hasked with rfl | rfl <;>
          exact ⟨Or.inl rfl, by simp, by simp⟩
      · rcases List.mem_pair.mp hasked with rfl | rfl <;>
          exact ⟨Or.inl rfl, by simp, by simp⟩
      · rw [Mail.asks] at hasked
        split at hasked
        · cases List.mem_singleton.mp hasked
          exact rfl
        · cases hasked
    · cases hasked

/-- The host at `here` serves, and its twin bars the endpoint. -/
def Bars (here : Address) (endpoint : EndpointId) (kind : ActorKind) (actor : KameoActor P N Ib) : Prop :=
  ∃ rt, Serves here kind actor rt ∧ (actor.host.isSome = true → rt.Bars here.name endpoint kind)

omit [Party P] [Transport N] [Registry N Ib] in
theorem Bars.shut (h : Bars here endpoint kind actor) : Shut endpoint actor := by
  obtain ⟨rt, hserves, hbars⟩ := h
  intro host hhost
  obtain ⟨toy, htoy, hseen, -⟩ := hserves.twins.host host (hserves.name ▸ hhost)
  obtain ⟨actor', hactor', hdenied, hquiet⟩ := (hbars (by rw [hhost]; rfl)).barred
  cases htoy.symm.trans hactor'
  refine ⟨hseen.allowlist ▸ hdenied, fun peer hpeer => ?_⟩
  obtain ⟨hlive, hack, hturn⟩ := hquiet peer hpeer
  rw [hseen.peer] at hlive hack hturn
  exact ⟨hlive, PeerWaits.tasks_eq_nil.mpr ⟨Option.map_eq_none_iff.mp hack, Option.map_eq_none_iff.mp hturn⟩⟩

theorem host_before {a : Act P N Ib} (hholds : Holds actor) (h : (actor.act a).host.isSome = true) :
    actor.host.isSome = true := by
  obtain ⟨host', hhost'⟩ := Option.isSome_iff_exists.mp h
  obtain ⟨host, hhost, -⟩ := hholds.act a hhost'
  rw [hhost]
  rfl

theorem exec_of_none (h : actor.host = none) (a : Act P N Ib) : (actor.exec a).2 = [] := by
  have hnone : actor.rt.roster actor.name = none := Option.map_eq_none_iff.mp h
  unfold exec
  cases a with
  | Handle =>
    dsimp only
    split
    · rfl
    · rw [handle_of_none hnone]
  | Fire task =>
    dsimp only
    split
    · simp only [KameoRuntime.tell, hnone]
    · rfl
  | Rehash conversations => simp only [KameoRuntime.tell, hnone]
  | Tell _ | Stop | Elsewhere _ => rfl

theorem Bars.act (h : Bars here endpoint kind actor) {a : Act P N Ib} (hyoung : Young actor)
    (horderly : actor.Orderly a) (hspurns : Spurns endpoint actor a) :
    Bars here endpoint kind (actor.act a) ∧ ∀ e ∈ (actor.exec a).2, e.Spares here endpoint := by
  have hshut := h.shut
  obtain ⟨rt, hserves, hbars⟩ := h
  -- Once the host is gone, nothing comes of what it is told.
  have hgone : ∀ e ∈ (actor.exec a).2, (∀ host, actor.host = some host → e.Spares here endpoint) →
      e.Spares here endpoint := fun e he hthere => by
    cases hhost : actor.host with
    | some host => exact hthere host hhost
    | none =>
      rw [exec_of_none hhost] at he
      cases he
  by_cases hcommanded : Commanded kind actor a
  · obtain ⟨hnext, hspares⟩ := hserves.commanded hcommanded
    refine ⟨⟨_, hnext, fun hthere => ?_⟩, fun e he => hgone e he fun host hhost => ?_⟩
    · have hbars := hbars (host_before hserves.holds hthere)
      exact ⟨hbars.barred, hbars.kind⟩
    · exact hspares host hhost e he endpoint (hshut host hhost).1
  · obtain ⟨hcomes, hnext⟩ := hserves.act hyoung horderly hcommanded
    have hleaves := asks_leaves hserves.name hspurns hcommanded
    refine ⟨⟨_, hnext, fun hthere => ?_⟩, fun e he => hgone e he fun host hhost => ?_⟩
    · exact (LocalRuntime.bars_asked (hbars (host_before hserves.holds hthere)) hleaves hcomes.overdue).1
    · rw [← hcomes.effects] at he
      exact (LocalRuntime.bars_asked (hbars (by rw [hhost]; rfl)) hleaves hcomes.overdue).2 e he here

theorem Timely.revoked (h : Timely here kind actor) (hyoung : Young actor)
    (hhead : actor.mailbox.head? = some (.Told (.Revoke endpoint))) :
    Bars here endpoint kind (actor.act .Handle) := by
  obtain ⟨rt, h, htimed⟩ := h
  obtain ⟨mailbox, hmailbox⟩ := List.head?_eq_some_iff.mp hhead
  have hplain : ¬ Commanded kind actor .Handle := by
    rintro ⟨-, mail, mailbox', hmail, hcommands⟩
    cases hmailbox.symm.trans hmail
    exact hcommands
  obtain ⟨hcomes, hnext⟩ := h.act hyoung (a := .Handle) trivial hplain
  refine ⟨_, hnext, fun hthere => ?_⟩
  obtain ⟨host', hhost'⟩ := Option.isSome_iff_exists.mp hthere
  obtain ⟨host, hhost⟩ := Option.isSome_iff_exists.mp (host_before h.holds hthere)
  have hasks : actor.asks .Handle =
      [.Call (.Rehash here.name host.mirror), .Call (.Revoke here.name endpoint)] := by
    simp only [asks, hhost, hmailbox, Mail.asks, h.name]
  rw [hasks] at hnext ⊢
  have htimed' := LocalRuntime.timed_asked htimed
    [.Call (.Rehash here.name host.mirror), .Call (.Revoke here.name endpoint)]
  obtain ⟨toy', htoy', hseen', -, hkind'⟩ := hnext.twins.host host' (hnext.name ▸ hhost')
  refine ⟨⟨toy', htoy', ?_⟩, fun other hother => ?_⟩
  · obtain ⟨toy, htoy, hseen, -⟩ := h.twins.host host (h.name ▸ hhost)
    have hrehashed : (rt.rehash here.name host.mirror).actors here.name =
        some { toy with conversations := host.mirror } := by
      simp only [LocalRuntime.rehash, htoy, if_pos hseen.mirror_perm, LocalRuntime.setActor_self]
    obtain ⟨actor', hrevoked, hran⟩ := LocalRuntime.revoke_revoked hrehashed endpoint
    have hafter : (rt.afterAsked [.Call (.Rehash here.name host.mirror),
        .Call (.Revoke here.name endpoint)]).actors here.name = some actor' := by
      change ((rt.rehash here.name host.mirror).revoke here.name endpoint).rt.actors here.name = _
      rw [hran]
      exact LocalRuntime.setActor_self ..
    cases htoy'.symm.trans hafter
    refine ⟨by simp [hrevoked.allowlist], fun p hp => ?_⟩
    have hdead := LocalRuntime.revoked_peers _ endpoint hrevoked hp
    obtain ⟨hack, hturn⟩ := (htimed' _ _ htoy' p).waiting.unarmed hdead
    exact ⟨hdead, hack, hturn⟩
  · cases htoy'.symm.trans hother
    exact hseen'.kind.trans hkind'

/-- A revocation lasts from the moment it is handled, until the host takes an admission of the endpoint out
of its mailbox. Meanwhile the endpoint is denied, no exchange with a peer there is live or timed, and nothing
that the host does reaches a peer there, whatever its kind, whatever was queued before, and whatever timers
wake. -/
theorem revocation_lasts {krt : KameoRuntime P N Ib} {name : ActorName} (allowlist : Allowlist)
    (deadlines : Deadlines) (kind : ActorKind) (party : Option (Boxed P))
    (hentry : krt.roster name = none)
    (hinstalled : (krt.installInner name allowlist deadlines kind party).1 = .ok ())
    (acts more : List (Act P N Ib)) (hshort : acts.length + 1 + more.length < 2 ^ 64)
    (endpoint : EndpointId) :
    let start := start name (krt.installInner name allowlist deadlines kind party).2
    let revoking := start.after acts
    Run.Along act Orderly start acts →
    revoking.mailbox.head? = some (.Told (.Revoke endpoint)) →
    Run.Along act (fun actor a => actor.Orderly a ∧ Spurns endpoint actor a) (revoking.act .Handle) more →
    Run.Along act (fun actor a => Shut endpoint actor ∧ Shut endpoint (actor.act a) ∧
      ∀ e ∈ (actor.exec a).2, e.Spares (krt.address name) endpoint) (revoking.act .Handle) more := by
  intro start revoking horderly hhead hmore
  have hzero : ∀ peer, start.rounds peer = 0 := fun _ => rfl
  have hrevoking : Timely (krt.address name) kind revoking :=
    (timely_installed hentry hinstalled).after acts (fun peer => by rw [hzero]; omega) horderly
  have hrounds : ∀ peer, revoking.rounds peer ≤ acts.length := fun peer =>
    (rounds_after acts peer).trans_eq (by rw [hzero, Nat.zero_add])
  have hbars : Bars (krt.address name) endpoint kind (revoking.act .Handle) :=
    hrevoking.revoked (fun peer => (hrounds peer).trans_lt (by omega)) hhead
  have hyoung : Run.Along act (fun actor _ => Young actor) (revoking.act .Handle) more := by
    refine young_along more fun peer => ?_
    have hround := rounds_act revoking .Handle peer
    have := hrounds peer
    omega
  have hall := (Run.along_and act _ more).mpr ⟨hyoung, hmore⟩
  refine Run.along_of_invariant act (I := Bars (krt.address name) endpoint kind)
    (fun actor a h hok => (h.act hok.1 hok.2.1 hok.2.2).1) (fun actor a h hok => ?_) _ more hbars hall
  obtain ⟨hnext, hspares⟩ := h.act hok.1 hok.2.1 hok.2.2
  exact ⟨h.shut, hnext.shut, hspares⟩

open Sample in
/-- Bob takes commands. Behind the revocation Carol spawns an actor there, and Alice opens again. -/
theorem revocation_lasts_alice :
    let allowlist : Allowlist := ⟨{alice.endpoint, carol.endpoint}⟩
    let krt : KameoRuntime CountdownParty Shared MemoryInbox :=
      .new bob.endpoint (Shared.new.register alice).2 0 patience
    let start := start bob.name (krt.installInner bob.name allowlist patience .Harness none).2
    let revoking := start.after
      [.Tell (.Deliver ⟨alice, bob, .Turn (.Open (request 1))⟩), .Tell (.Revoke alice.endpoint), .Handle,
        .Tell (.Deliver ⟨carol, bob, .Harness (.Spawn dave.name)⟩),
        .Tell (.Deliver ⟨alice, bob, .Turn (.Open (request 2))⟩)]
    Run.Along act (fun actor a => Shut alice.endpoint actor ∧ Shut alice.endpoint (actor.act a) ∧
      ∀ e ∈ (actor.exec a).2, e.Spares bob alice.endpoint) (revoking.act .Handle)
      [.Handle, .Handle] := by
  intro allowlist krt start revoking
  refine @revocation_lasts _ _ _ _ _ _ krt bob.name allowlist patience .Harness none rfl rfl _
    [.Handle, .Handle] (by decide) alice.endpoint ?_ ?_ ?_
  · decide +kernel
  · decide +kernel
  · refine ⟨⟨trivial, fun _ => ?_⟩, ⟨trivial, fun _ => ?_⟩, trivial⟩ <;> decide +kernel

end KameoActor

end Kamiroh
