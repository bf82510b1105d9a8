import Kamiroh.Memory
import Kamiroh.Runtime.Deaths
import Kamiroh.Runtime.Effects

/-!
# Reports: a stale death fails no fresh exchange

The runtime of one endpoint on the in-process network, polled while others use the network too.
-/

namespace Kamiroh

def Effect.records : Effect → Bool
  | Moved .. | Failed .. => true
  | Sent .. | Handed .. | Told .. | Emitted .. => false

namespace LocalRuntime

variable {P N Ib : Type}

/-! ## What a step records of the turn machines -/

/-- What a turn with the peer records at `here`. -/
inductive RecordedTurn (here peer : Address) : Effect → Prop
  | moved (before after : TurnState) : RecordedTurn here peer (.Moved here peer before after)
  | failed (before : TurnState) (cause : FailureCause) (hcause : cause ≠ .Disconnected) :
      RecordedTurn here peer (.Failed here peer before cause)

inductive Recorded (rt : LocalRuntime P N Ib) (name : ActorName) (waited : Waited) : Effect → Prop
  | moved (delivery : Delivery) (before after : TurnState)
      (hwaited : waited = .Delivery (some delivery))
      (hquiet : ∃ actor, rt.actors name = some actor ∧ actor.affected (· ∈ rt.dead) = []) :
      Recorded rt name waited (.Moved (rt.address name) delivery.origin before after)
  | disconnected (peer : Address) (before : TurnState)
      (hdead : peer.endpoint ∈ rt.dead ∨ waited = .PeerDeath peer.endpoint) :
      Recorded rt name waited (.Failed (rt.address name) peer before .Disconnected)
  | failed (peer : Address) (before : TurnState) (cause : FailureCause)
      (hcause : cause ≠ .Disconnected) :
      Recorded rt name waited (.Failed (rt.address name) peer before cause)

theorem Failure.recorded {here peer : Address} {cause : FailureCause} {e : Effect}
    (h : Failure here peer cause e) (hrecords : e.records = true) :
    ∃ before, e = .Failed here peer before cause := by
  cases h with
  | failed before => exact ⟨before, rfl⟩
  | told | reported => cases hrecords

theorem Turned.recorded {here self peer : Address} {e : Effect} (h : Turned here self peer e)
    (hrecords : e.records = true) : RecordedTurn here peer e := by
  cases h with
  | moved before after => exact .moved before after
  | dropped _ | sent _ _ | handed _ => cases hrecords
  | failed cause hcause _ h =>
    obtain ⟨before, rfl⟩ := h.recorded hrecords
    rcases hcause with rfl | rfl
    · exact .failed before _ (by simp)
    · exact .failed before _ (by simp)

variable [Party P] [Transport N] [Registry N Ib]

/-- A step moves the machine of the peer whose delivery it takes, and it disconnects the peers at
endpoints that are dead or reported dead. -/
theorem step_recorded {rt : LocalRuntime P N Ib} {name : ActorName} {waited : Waited} {e : Effect}
    (he : e ∈ (rt.step name waited).effects) (hrecords : e.records = true) :
    Recorded rt name waited e := by
  cases hactor : rt.actors name with
  | none =>
    simp only [step, hactor] at he
    cases he
  | some actor =>
    rcases step_arose hactor he with ⟨_, endpoint, hdead, peer, hpeer, h⟩ |
      ⟨hquiet, peer, kind, due, hdue, h⟩ | ⟨hquiet, delivery, hno, rfl⟩ |
      ⟨hquiet, delivery, hok, message, hmessage, accepted, rfl⟩ |
      ⟨hquiet, delivery, hok, turn, hm, ran, hran, h⟩
    · obtain ⟨before, rfl⟩ := h.recorded hrecords
      have hendpoint : peer.endpoint = endpoint := by
        simpa using (LocalActor.mem_affected.mp hpeer).2
      exact .disconnected peer before (by rw [hendpoint]; exact hdead)
    · obtain ⟨before, rfl⟩ := h.recorded hrecords
      exact .failed peer before _ (by simp)
    · cases hrecords
    · cases hrecords
    · rcases (hran.turned h).recorded hrecords with ⟨before, after⟩ | ⟨before, cause, hcause⟩
      · exact .moved delivery before after rfl ⟨actor, hactor, hquiet⟩
      · exact .failed delivery.origin before cause hcause

/-! ## What a call does to the network -/

section

variable {Q : N → Prop} (hsend : ∀ net origin target message, Q net →
  Q (Transport.send net origin target message).2)

include hsend

omit [Registry N Ib] in
theorem Answered.net {rt : LocalRuntime P N Ib} {name : ActorName} {actor : LocalActor P Ib}
    {self peer : Address} {reply : Turn} {ran : Ran P N Ib Stepped}
    (h : Answered rt name actor self peer reply ran) (hnet : Q rt.net) : Q ran.rt.net := by
  rcases h with ⟨error, hout, _, rfl⟩ | ⟨progress, hout, _, rfl, hrefused, _, rfl⟩ |
    ⟨progress, hout, _, rfl, haccepted⟩
  · exact hnet
  · simp only [send_rt]
    exact hsend _ _ _ _ hnet
  · simp only [send_rt]
    exact hsend _ _ _ _ hnet

omit [Party P] [Registry N Ib] in
theorem receipt_net {rt : LocalRuntime P N Ib} (self peer : Address) (ack : Option Message)
    (hnet : Q rt.net) : Q (rt.receipt self peer ack).rt.net := by
  rw [receipt_rt]
  cases ack with
  | none => exact hnet
  | some ack => exact hsend _ _ _ _ hnet

omit [Registry N Ib] in
theorem TookTurn.net {rt : LocalRuntime P N Ib} {name : ActorName} {actor : LocalActor P Ib}
    {self peer : Address} {turn : Turn} {ack : Option Message} {ran : Ran P N Ib Stepped}
    (h : TookTurn rt name actor self peer turn ack ran) (hnet : Q rt.net) : Q ran.rt.net := by
  rcases h with ⟨error, h⟩ | ⟨progress, h, taken, effects, hsilent⟩ |
    ⟨progress, h, reply, taken, effects, hreply, ran, hran⟩
  · exact hnet
  · exact receipt_net hsend self peer ack hnet
  · exact hran.net hsend (receipt_net hsend self peer ack hnet)

omit [Party P] [Registry N Ib] in
theorem sendAndReturn_net {rt : LocalRuntime P N Ib} (origin target : Address) (message : Message)
    (hnet : Q rt.net) : Q (rt.sendAndReturn origin target message).rt.net := by
  simp only [sendAndReturn, send_rt]
  exact hsend _ _ _ _ hnet

variable (hbind : ∀ net address, Q net → Q (Registry.bind net address : Except String Ib × N).2)
  (hdrop : ∀ net (inbox : Ib), Q net → Q (Registry.dropInbox net inbox))

omit [Party P] [Transport N] hsend in
include hbind in
theorem installInner_net {rt : LocalRuntime P N Ib} (name : ActorName) (allowlist : Allowlist)
    (deadlines : Deadlines) (kind : ActorKind) (party : Option (Boxed P)) (hnet : Q rt.net) :
    Q (rt.installInner name allowlist deadlines kind party).rt.net := by
  have hbound := hbind rt.net (rt.address name) hnet
  unfold installInner
  split
  · exact hnet
  · split <;> (rename_i h; rw [h] at hbound; exact hbound)

omit [Party P] [Transport N] hsend in
include hbind hdrop in
theorem execute_net {rt : LocalRuntime P N Ib} (command : Harness) (controller : Address)
    (hnet : Q rt.net) : Q (rt.execute command controller).rt.net := by
  cases command with
  | Ping | Spawned _ | Stopped _ | Pong | Failed _ => exact hnet
  | Spawn name =>
    simp only [execute]
    split <;> exact installInner_net hbind _ _ _ _ _ hnet
  | Stop name =>
    simp only [execute]
    split
    · exact hdrop _ _ hnet
    · exact hnet

include hbind hdrop in
theorem step_net {rt : LocalRuntime P N Ib} (name : ActorName) (waited : Waited) (hnet : Q rt.net) :
    Q (rt.step name waited).rt.net := by
  cases hactor : rt.actors name with
  | none =>
    simp only [step, hactor]
    exact hnet
  | some actor =>
    have hdid := step_did hactor waited
    generalize rt.step name waited = ran at hdid
    rcases hdid with ⟨_, _, _, _, _, rfl⟩ | ⟨_, _, _, rfl⟩ | ⟨_, _, _, _, _, _, rfl⟩ | _ | _ |
      ⟨_, delivery, ran, hran⟩
    · exact hnet
    · exact hnet
    · exact hnet
    · exact hnet
    · exact hnet
    · rcases hran with _ | _ | _ | _ | _ | _ | ⟨_, turn, _, ran, hran⟩
      · exact hnet
      · exact sendAndReturn_net hsend _ _ _ hnet
      · exact hnet
      · exact sendAndReturn_net hsend _ _ _ hnet
      · exact sendAndReturn_net hsend _ _ _ (execute_net hbind hdrop _ _ hnet)
      · exact execute_net hbind hdrop _ _ hnet
      · exact hran.net hsend hnet

end

end LocalRuntime

/-! ## Polls -/

namespace LocalRuntime

variable {P : Type} [Party P]

theorem step_deaths {rt : LocalRuntime P Shared MemoryInbox} (name : ActorName) (waited : Waited)
    (watch : WatchId) : (rt.step name waited).rt.net.deaths watch = rt.net.deaths watch := by
  refine step_net (Q := fun net : Shared => net.deaths watch = rt.net.deaths watch) ?_ ?_ ?_ name waited rfl
  · intro net origin target message h
    rw [← h]
    simp [Transport.send, Shared.deaths]
  · intro net address h
    rw [← h]
    simp [Registry.bind, Shared.deaths]
  · exact fun net inbox h => h

/-- The cases of a poll, with the network that the race left behind. -/
inductive Polled (rt : LocalRuntime P Shared MemoryInbox) (name : ActorName) (watch : WatchId) :
    LocalRuntime P Shared MemoryInbox × List Effect → Prop
  | idle (net : Shared) (hdeaths : net.deaths watch = rt.net.deaths watch) :
      Polled rt name watch ({ rt with net }, [])
  | swept (ran : Ran P Shared MemoryInbox Outcome) (hran : ran = rt.step name .DeadlineElapsed) :
      Polled rt name watch (ran.rt, ran.effects)
  | died (net : Shared) (endpoint : EndpointId)
      (hdeaths : rt.net.deaths watch = endpoint :: net.deaths watch)
      (ran : Ran P Shared MemoryInbox Outcome)
      (hran : ran = { rt with net }.step name (.PeerDeath endpoint)) :
      Polled rt name watch (ran.rt, ran.effects)
  | waited (net : Shared) (hdeaths : net.deaths watch = []) (waited : Waited)
      (hwaited : ∀ endpoint, waited ≠ .PeerDeath endpoint)
      (ran : Ran P Shared MemoryInbox Outcome) (hran : ran = { rt with net }.step name waited) :
      Polled rt name watch (ran.rt, ran.effects)

omit [Party P] in
theorem nextOrDeadline_deaths (net : Shared) (inbox : MemoryInbox) (due : Option Instant)
    (now : Instant) (waker : Waker) (watch : WatchId) :
    (nextOrDeadline net inbox due now waker).2.deaths watch = net.deaths watch ∧
      ∀ endpoint, (nextOrDeadline net inbox due now waker).1 ≠ .Ready (.PeerDeath endpoint) := by
  have hpolled : (Inbox.next net inbox waker).2.deaths watch = net.deaths watch := by
    simp [Inbox.next, Shared.deaths]
  unfold nextOrDeadline
  split
  · exact ⟨rfl, fun _ h => by cases h⟩
  · split <;> (rename_i h; rw [h] at hpolled; exact ⟨hpolled, fun _ h => by cases h⟩)

omit [Party P] in
theorem race_deaths (net : Shared) (inbox : MemoryInbox) (due : Option Instant) (now : Instant)
    (waker : Waker) (watch : WatchId) :
    let raced := nextOrDeadlineOrDeath net inbox due now (some watch) waker
    (∃ endpoint, raced.1 = .Ready (.PeerDeath endpoint) ∧
      net.deaths watch = endpoint :: raced.2.1.deaths watch) ∨
    (net.deaths watch = [] ∧ raced.2.1.deaths watch = [] ∧
      ∀ endpoint, raced.1 ≠ .Ready (.PeerDeath endpoint)) := by
  simp only [nextOrDeadlineOrDeath, DeathWatch.nextDeath]
  rcases net.pollDeath_cases watch waker with ⟨endpoint, hready, hdeaths⟩ | ⟨hpending, hnil, hnil'⟩
  · generalize net.pollDeath watch waker = polled at hready hdeaths
    obtain ⟨result, net'⟩ := polled
    cases hready
    exact Or.inl ⟨endpoint, rfl, hdeaths⟩
  · generalize net.pollDeath watch waker = polled at hpending hnil'
    obtain ⟨result, net'⟩ := polled
    cases hpending
    obtain ⟨hdeaths, hdeath⟩ := nextOrDeadline_deaths net' inbox due now waker watch
    exact Or.inr ⟨hnil, hdeaths.trans hnil', hdeath⟩

theorem poll_polled {rt : LocalRuntime P Shared MemoryInbox} {watch : WatchId}
    (hwatch : rt.deathWatch = some watch) (name : ActorName) (waker : Waker) :
    Polled rt name watch (rt.poll name waker).2 := by
  unfold poll
  cases hactor : rt.actors name with
  | none => exact .idle rt.net rfl
  | some actor =>
    by_cases hquiet : actor.affected (· ∈ rt.dead) = []
    · simp only [sweepDead_none hquiet]
      have hraced := race_deaths rt.net actor.inbox (actor.earliestDue.map (·.2.2)) rt.clock waker watch
      rw [← hwatch] at hraced
      generalize nextOrDeadlineOrDeath rt.net actor.inbox (actor.earliestDue.map (·.2.2)) rt.clock
        rt.deathWatch waker = raced at hraced
      obtain ⟨_ | _, net, watch'⟩ := raced
      · rename_i waited
        rcases hraced with ⟨endpoint, hready, hdeaths⟩ | ⟨hnil, hnil', hdeath⟩
        · cases hready
          exact .died net endpoint hdeaths _ rfl
        · exact .waited net hnil' waited (fun endpoint h => hdeath endpoint (by rw [h])) _ rfl
      · rcases hraced with ⟨endpoint, hready, -⟩ | ⟨hnil, hnil', -⟩
        · cases hready
        · exact .idle net (hnil'.trans hnil.symm)
    · obtain ⟨endpoint, hdead, hlive, hswept⟩ := sweepDead_some rt name hquiet
      have hpolled : Polled rt name watch _ := .swept _ rfl
      simp only [step, hactor, hswept] at hpolled ⊢
      exact hpolled

/-! ## Happenings -/

def owned : Call P Shared → Bool
  | .Step .. | .Elsewhere .. => false
  | _ => true

end LocalRuntime

/-- What can happen to a runtime and its network: its owner calls it or polls a step, others use the
network, time passes. The watch stays attached. -/
inductive Happening (P : Type)
  | Own (call : Call P Shared) (howned : LocalRuntime.owned call = true)
  | Poll (name : ActorName) (waker : Waker)
  | Others (op : Shared.Op)
  | Tick (clock : Instant)

namespace LocalRuntime

variable {P : Type} [Party P]

def happen (rt : LocalRuntime P Shared MemoryInbox) :
    Happening P → LocalRuntime P Shared MemoryInbox × List Effect
  | .Own call _ => rt.exec call
  | .Poll name waker => (rt.poll name waker).2
  | .Others op => ({ rt with net := rt.net.run op }, [])
  | .Tick clock => ({ rt with clock }, [])

def happened (rt : LocalRuntime P Shared MemoryInbox) (happenings : List (Happening P)) :
    LocalRuntime P Shared MemoryInbox :=
  Run.after (fun rt happening => (rt.happen happening).1) rt happenings

/-- The watch will not report the endpoint unless it dies once more. -/
structure Unreported (endpoint : EndpointId) (watch : WatchId)
    (rt : LocalRuntime P Shared MemoryInbox) : Prop where
  watched : rt.deathWatch = some watch
  alive : endpoint ∉ rt.dead
  unqueued : endpoint ∉ rt.net.deaths watch

omit [Party P] in
theorem installInner_deaths (rt : LocalRuntime P Shared MemoryInbox) (name : ActorName)
    (allowlist : Allowlist) (deadlines : Deadlines) (kind : ActorKind) (party : Option (Boxed P))
    (watch : WatchId) :
    (rt.installInner name allowlist deadlines kind party).rt.net.deaths watch =
      rt.net.deaths watch := by
  refine installInner_net (Q := fun net : Shared => net.deaths watch = rt.net.deaths watch)
    (fun net address h => ?_) name allowlist deadlines kind party rfl
  rw [← h]
  simp [Registry.bind, Shared.deaths]

theorem exec_owned (rt : LocalRuntime P Shared MemoryInbox) {call : Call P Shared}
    (howned : owned call = true) (watch : WatchId) :
    (rt.exec call).1.dead = rt.dead ∧ (rt.exec call).1.net.deaths watch = rt.net.deaths watch ∧
      ∀ here peer before, .Failed here peer before .Disconnected ∉ (rt.exec call).2 := by
  cases call with
  | Install name allowlist deadlines kind =>
    refine ⟨installInner_dead .., installInner_deaths .., fun here peer before => ?_⟩
    simp only [exec, install, installInner_effects]
    exact List.not_mem_nil
  | InstallParty name allowlist deadlines party =>
    refine ⟨installInner_dead .., installInner_deaths .., fun here peer before => ?_⟩
    simp only [exec, installParty, installInner_effects]
    exact List.not_mem_nil
  | Admit name endpoint =>
    simp only [exec, admitEndpoint]
    split <;> exact ⟨rfl, rfl, by simp⟩
  | Revoke name endpoint =>
    simp only [exec, revoke]
    split
    · refine ⟨rfl, rfl, fun here peer before hfailed => ?_⟩
      obtain ⟨peer', -, hfailure⟩ := failEach_failure hfailed
      cases hfailure
    · exact ⟨rfl, rfl, by simp⟩
  | Rehash name conversations =>
    simp only [exec, rehash]
    split
    · split <;> exact ⟨rfl, rfl, by simp⟩
    · exact ⟨rfl, rfl, by simp⟩
  | Step _ _ | Elsewhere _ _ => cases howned

theorem alive_step {endpoint : EndpointId} {rt : LocalRuntime P Shared MemoryInbox}
    (halive : endpoint ∉ rt.dead) (name : ActorName) {waited : Waited}
    (hwaited : waited ≠ .PeerDeath endpoint) : endpoint ∉ (rt.step name waited).rt.dead := by
  rcases exec_dead rt (.Step name waited) with hdead | ⟨_, _, hcall, hdead⟩
  · exact hdead ▸ halive
  · cases hcall
    exact hdead ▸ notMem_buried halive hwaited

theorem not_disconnected_step {endpoint : EndpointId} {rt : LocalRuntime P Shared MemoryInbox}
    (halive : endpoint ∉ rt.dead) (name : ActorName) {waited : Waited}
    (hwaited : waited ≠ .PeerDeath endpoint) {here peer : Address} (before : TurnState)
    (hpeer : peer.endpoint = endpoint) :
    .Failed here peer before .Disconnected ∉ (rt.step name waited).effects := by
  intro hfailed
  rcases step_recorded hfailed rfl with _ | ⟨_, _, hdead⟩ | ⟨_, _, _, hcause⟩
  · rcases hdead with hdead | hdead
    · exact halive (hpeer ▸ hdead)
    · exact hwaited (hpeer ▸ hdead)
  · exact hcause rfl

/-- Only a report of the endpoint's death can end this, and until then none of its peers is
disconnected. -/
theorem unreported_happen {endpoint : EndpointId} {watch : WatchId}
    {rt : LocalRuntime P Shared MemoryInbox} (h : Unreported endpoint watch rt)
    (happening : Happening P) (hothers : happening ≠ .Others (.PushDeath endpoint watch)) :
    Unreported endpoint watch (rt.happen happening).1 ∧
      ∀ here peer before, peer.endpoint = endpoint →
        .Failed here peer before .Disconnected ∉ (rt.happen happening).2 := by
  obtain ⟨hwatch, halive, hqueue⟩ := h
  cases happening with
  | Tick clock => exact ⟨⟨hwatch, halive, hqueue⟩, by simp [happen]⟩
  | Others op =>
    refine ⟨⟨hwatch, halive, fun hmem => ?_⟩, by simp [happen]⟩
    rcases Shared.deaths_run rt.net op endpoint watch hmem with hmem | rfl
    · exact hqueue hmem
    · exact hothers rfl
  | Own call howned =>
    obtain ⟨hdead, hdeaths, hfailed⟩ := exec_owned rt howned watch
    simp only [happen]
    exact ⟨⟨(exec_same rt call).deathWatch.trans hwatch, hdead ▸ halive, hdeaths ▸ hqueue⟩,
      fun here peer before _ => hfailed here peer before⟩
  | Poll name waker =>
    -- Whatever the poll steps with, it is not the death of the endpoint.
    have hstep : ∀ net waited, endpoint ∉ Shared.deaths net watch → waited ≠ .PeerDeath endpoint →
        Unreported endpoint watch ({ rt with net }.step name waited).rt ∧
          ∀ here peer before, peer.endpoint = endpoint →
            .Failed here peer before .Disconnected ∉ ({ rt with net }.step name waited).effects := by
      intro net waited hnet hwaited
      have halive' : endpoint ∉ ({ rt with net } : LocalRuntime P Shared MemoryInbox).dead := halive
      refine ⟨⟨?_, alive_step halive' name hwaited, ?_⟩,
        fun here peer before hpeer => not_disconnected_step halive' name hwaited before hpeer⟩
      · exact (exec_same { rt with net } (.Step name waited)).deathWatch.trans hwatch
      · rwa [step_deaths]
    have hpolled := poll_polled hwatch name waker
    simp only [happen]
    generalize (rt.poll name waker).2 = polled at hpolled
    rcases hpolled with ⟨net, hdeaths⟩ | ⟨_, rfl⟩ | ⟨net, endpoint', hdeaths, _, rfl⟩ |
      ⟨net, hdeaths, waited, hwaited, _, rfl⟩
    · exact ⟨⟨hwatch, halive, hdeaths ▸ hqueue⟩, by simp⟩
    · exact hstep rt.net _ hqueue (by simp)
    · rw [hdeaths, List.mem_cons, not_or] at hqueue
      exact hstep net _ hqueue.2 (fun h => hqueue.1 (by cases h; rfl))
    · exact hstep net _ (by simp [hdeaths]) (hwaited endpoint)

def Begins (rt : LocalRuntime P Shared MemoryInbox) (name : ActorName) (peer : Address)
    (waker : Waker) : Prop :=
  ∃ before after : TurnState, before.live = false ∧ after.live = true ∧
    .Moved (rt.address name) peer before after ∈ (rt.happen (.Poll name waker)).2

theorem unreported_of_begins {rt : LocalRuntime P Shared MemoryInbox} {watch : WatchId}
    (hwatch : rt.deathWatch = some watch) {name : ActorName} {peer : Address} {waker : Waker}
    (hbegins : Begins rt name peer waker) :
    Unreported peer.endpoint watch (rt.happen (.Poll name waker)).1 := by
  obtain ⟨before, after, -, -, hmoved⟩ := hbegins
  have hpolled := poll_polled hwatch name waker
  simp only [happen] at hmoved ⊢
  generalize (rt.poll name waker).2 = polled at hpolled hmoved
  rcases hpolled with ⟨net, hdeaths⟩ | ⟨_, rfl⟩ | ⟨net, endpoint', hdeaths, _, rfl⟩ |
    ⟨net, hdeaths, waited, hwaited, _, rfl⟩
  · cases hmoved
  · rcases step_recorded hmoved rfl with ⟨_, _, _, h, _⟩
    cases h
  · rcases step_recorded hmoved rfl with ⟨_, _, _, h, _⟩
    cases h
  · rcases step_recorded hmoved rfl with ⟨delivery, _, _, rfl, actor, hactor, hquiet⟩
    refine ⟨?_, ?_, ?_⟩
    · exact (exec_same { rt with net } (.Step name _)).deathWatch.trans hwatch
    · simp only [step_heard hactor hquiet]
      exact Finset.notMem_erase _ _
    · rw [step_deaths, hdeaths]
      exact List.not_mem_nil

/-- No stale death fails a fresh exchange. An exchange that begins in a step is disconnected only
after a death of its peer's endpoint that was reported later. -/
theorem disconnected_reported_afterwards {rt : LocalRuntime P Shared MemoryInbox} {watch : WatchId}
    (hwatch : rt.deathWatch = some watch) {name : ActorName} {peer : Address} {waker : Waker}
    (hbegins : Begins rt name peer waker) (happenings : List (Happening P)) (last : Happening P)
    (before : TurnState)
    (hfailed : .Failed (rt.address name) peer before .Disconnected ∈
      (((rt.happen (.Poll name waker)).1.happened happenings).happen last).2) :
    .Others (.PushDeath peer.endpoint watch) ∈ happenings := by
  by_contra hnone
  have hunreported : Unreported peer.endpoint watch
      ((rt.happen (.Poll name waker)).1.happened happenings) := by
    have hothers : Run.Along (fun rt happening => (rt.happen happening).1)
        (fun _ happening => happening ≠ .Others (.PushDeath peer.endpoint watch))
        (rt.happen (.Poll name waker)).1 happenings := by
      refine Run.along_of_mem _ (fun _ happening hmem hpush => ?_) _
      rw [hpush] at hmem
      exact hnone hmem
    exact Run.invariant _ (I := Unreported peer.endpoint watch)
      (fun _ happening h hothers => (unreported_happen h happening hothers).1) _ happenings
      (unreported_of_begins hwatch hbegins) hothers
  have hlast : last ≠ .Others (.PushDeath peer.endpoint watch) := by
    rintro rfl
    cases hfailed
  exact (unreported_happen hunreported last hlast).2 _ _ _ rfl hfailed

section

open Sample

/-- Bob's runtime heard of Alice's death, before her next turn reached his inbox. -/
def watchedBob : LocalRuntime Empty Shared MemoryInbox :=
  ((bobsRuntime Empty).watchDeaths 0).happened
    [.Others .DeathWatch,
      .Own (.Install bob.name (Allowlist.empty.admitEndpoint alice.endpoint) patience .Plain) rfl,
      .Others (.PushDeath alice.endpoint 0), .Poll bob.name 0,
      .Others (.Send alice bob (.Turn (.Open (request 1))))]

/-- Bob's exchange with Alice begins, and the next report of her death disconnects it. -/
theorem disconnected_reported_afterwards_bob :
    Begins watchedBob bob.name alice 0 ∧
      .Failed bob alice (.OweThem (request 1).id) .Disconnected ∈
        (((watchedBob.happen (.Poll bob.name 0)).1.happened
          [.Tick 3, .Others (.PushDeath alice.endpoint 0)]).happen (.Poll bob.name 0)).2 ∧
      (.Others (.PushDeath alice.endpoint 0) : Happening Empty) ∈
        [.Tick 3, .Others (.PushDeath alice.endpoint 0)] := by
  have hbegins : Begins watchedBob bob.name alice 0 :=
    ⟨.Idle, .OweThem (request 1).id, rfl, rfl, by decide⟩
  have hfailed : .Failed bob alice (.OweThem (request 1).id) .Disconnected ∈
      (((watchedBob.happen (.Poll bob.name 0)).1.happened
        [.Tick 3, .Others (.PushDeath alice.endpoint 0)]).happen (.Poll bob.name 0)).2 := by decide
  have hwatch : watchedBob.deathWatch = some 0 := by decide
  exact ⟨hbegins, hfailed, disconnected_reported_afterwards hwatch hbegins _ _ _ hfailed⟩

end

end LocalRuntime

end Kamiroh
