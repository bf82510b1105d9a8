import Kamiroh.Runtime.Deadlines
import Kamiroh.Runtime.Polls

/-!
# Failures cannot starve deliveries

Each failure that a poll reports uses up a live exchange or a queued death, so what waits in the inbox
is taken after as many failures at most.
-/

namespace Kamiroh

/-- The ports as queues: what waits in an inbox, and which deaths a watch has not reported yet. A poll
of the watch leaves the inboxes alone. -/
class Queues (N Ib : Type) [Inbox N Ib] [DeathWatch N] where
  queue : N → Ib → List Delivery
  unreported : N → WatchId → List EndpointId
  next_front : ∀ net inbox waker delivery rest, queue net inbox = delivery :: rest →
    (Inbox.next net inbox waker).1 = .Ready (some delivery)
  death_front : ∀ net watch waker,
    (∃ endpoint, (DeathWatch.nextDeath net watch waker).1 = .Ready (some endpoint) ∧
      unreported net watch = endpoint :: unreported (DeathWatch.nextDeath net watch waker).2 watch) ∨
    ((∀ endpoint, (DeathWatch.nextDeath net watch waker).1 ≠ .Ready (some endpoint)) ∧
      unreported (DeathWatch.nextDeath net watch waker).2 watch = unreported net watch)
  death_queue : ∀ net watch waker inbox,
    queue (DeathWatch.nextDeath net watch waker).2 inbox = queue net inbox

instance : Queues Shared MemoryInbox where
  queue net inbox := ((net.mailboxes.lookup inbox.address).map (·.queue)).getD []
  unreported net watch := net.deaths watch
  next_front net inbox waker delivery rest h := by
    cases hlookup : net.mailboxes.lookup inbox.address with
    | none => simp [hlookup] at h
    | some mailbox =>
      have hqueue : mailbox.queue = delivery :: rest := by simpa [hlookup] using h
      simp [Inbox.next, Shared.pollNext, hlookup, hqueue]
  death_front net watch waker := by
    rcases net.pollDeath_cases watch waker with ⟨endpoint, hready, hdeaths⟩ | ⟨hpending, hnil, hnil'⟩
    · exact Or.inl ⟨endpoint, hready, hdeaths⟩
    · exact Or.inr ⟨fun endpoint h => (by cases hpending.symm.trans h), hnil'.trans hnil.symm⟩
  death_queue net watch waker inbox := by
    simp only [DeathWatch.nextDeath, Shared.pollDeath_mailboxes]

def Moment.polls {P N : Type} : Moment P N → Bool
  | Poll _ _ => true
  | Other _ _ => false

def Stepped.failure : Stepped → Bool
  | Delivered => false
  | ExchangeFailed _ _ | PeerVanished _ _ => true

/-- The poll is ready with a failure. -/
def Failing (polled : Poll Outcome) : Prop :=
  ∃ stepped : Stepped, polled = .Ready (.Returned (.ok stepped)) ∧ stepped.failure = true

namespace LocalRuntime

variable {P N Ib : Type} [Party P] [Transport N] [Registry N Ib]

/-! ## What a failure uses up -/

/-- Such a step fails exchanges and does nothing else. -/
def Fruitless (rt : LocalRuntime P N Ib) (actor : LocalActor P Ib) : Waited → Prop
  | .PeerDeath _ => True
  | .DeadlineElapsed => actor.affected (· ∈ rt.dead) ≠ [] ∨ actor.earliestDue ≠ none
  | .Delivery _ => False

/-- A failure leaves the network alone, and a live exchange is gone if it is not for a death. -/
structure Spent (rt : LocalRuntime P N Ib) (name : ActorName) (actor : LocalActor P Ib) (waited : Waited)
    (ran : Ran P N Ib Outcome) : Prop where
  fails : Failing (.Ready ran.result)
  net : ran.rt.net = rt.net
  actor : ∃ actor', ran.rt.actors name = some actor' ∧ actor'.inbox = actor.inbox ∧
    actor'.livePeers ⊆ actor.livePeers ∧
    ((∀ endpoint, waited ≠ .PeerDeath endpoint) → actor'.livePeers ⊂ actor.livePeers)

theorem step_spent {rt : LocalRuntime P N Ib} {name : ActorName} {actor : LocalActor P Ib}
    (hactor : rt.actors name = some actor) (hwaiting : rt.Each PeerState.Waiting) {waited : Waited}
    (hwaited : rt.Fruitless actor waited) : Spent rt name actor waited (rt.step name waited) := by
  have hdid := step_did hactor waited
  generalize rt.step name waited = ran at hdid
  rcases hdid with ⟨_, endpoint, hdead, hlive, _, rfl⟩ | ⟨endpoint, hquiet, _, rfl⟩ |
    ⟨hquiet, peer, kind, due, hsome, _, rfl⟩ | ⟨hquiet, hnone⟩ | ⟨hquiet⟩ | ⟨hquiet, delivery, ran, hran⟩
  · refine ⟨⟨_, rfl, rfl⟩, rfl, _, setActor_self .., (failEach_same ..).inbox, ?_, fun _ => ?_⟩
    · rw [failEach_livePeers]
      exact Finset.filter_subset _ _
    · obtain ⟨p, hp⟩ := List.exists_mem_of_ne_nil _ hlive
      rw [failEach_livePeers, Finset.filter_ssubset]
      exact ⟨p, LocalActor.mem_livePeers.mpr (LocalActor.mem_affected.mp hp).1, by simpa using hp⟩
  · refine ⟨⟨_, rfl, rfl⟩, rfl, _, setActor_self .., (failEach_same ..).inbox, ?_, fun hdeath => ?_⟩
    · rw [failEach_livePeers]
      exact Finset.filter_subset _ _
    · exact absurd rfl (hdeath endpoint)
  · have hgone : (actor.failExchange (rt.address name) peer (.DeadlineElapsed kind)).1.livePeers ⊂
        actor.livePeers := by
      rw [LocalActor.failExchange_livePeers]
      exact Finset.erase_ssubset (LocalActor.mem_livePeers.mpr
        ((hwaiting name actor hactor peer).live (LocalActor.earliestDue_armed hsome)))
    exact ⟨⟨_, rfl, rfl⟩, rfl, _, setActor_self .., (LocalActor.SameActor.failExchange ..).inbox,
      hgone.subset, fun _ => hgone⟩
  · rcases hwaited with hloud | hdue
    · exact absurd hquiet hloud
    · exact absurd hnone hdue
  · cases hwaited
  · cases hwaited

/-! ## What a poll comes to -/

variable [Inbox N Ib] [DeathWatch N] [Queues N Ib]

/-- The deaths that the runtime's watch has not reported yet. -/
def unreported (rt : LocalRuntime P N Ib) : List EndpointId :=
  rt.deathWatch.elim [] fun watch => @Queues.unreported N Ib _ _ _ rt.net watch

/-- What the race of an actor with a delivery in its inbox can produce. -/
inductive RaceFront (rt : LocalRuntime P N Ib) (name : ActorName) (actor : LocalActor P Ib)
    (waker : Waker) (delivery : Delivery) : Prop
  | died (endpoint : EndpointId) (net : N)
      (hrace : rt.race name waker = some (.PeerDeath endpoint, { rt with net }))
      (hqueue : Queues.queue net actor.inbox = Queues.queue rt.net actor.inbox)
      (hdeaths : rt.unreported = endpoint :: { rt with net }.unreported)
  | elapsed (net : N) (hrace : rt.race name waker = some (.DeadlineElapsed, { rt with net }))
      (hqueue : Queues.queue net actor.inbox = Queues.queue rt.net actor.inbox)
      (hdeaths : { rt with net }.unreported = rt.unreported)
  | delivered (rt' : LocalRuntime P N Ib)
      (hrace : rt.race name waker = some (.Delivery (some delivery), rt'))

omit [Party P] [Transport N] [Registry N Ib] in
theorem race_front {rt : LocalRuntime P N Ib} {name : ActorName} {actor : LocalActor P Ib}
    (hactor : rt.actors name = some actor) (hquiet : actor.affected (· ∈ rt.dead) = [])
    {delivery : Delivery} {rest : List Delivery}
    (hqueue : Queues.queue rt.net actor.inbox = delivery :: rest) (waker : Waker) :
    RaceFront rt name actor waker delivery := by
  have hrace : ∀ waited net watch, nextOrDeadlineOrDeath rt.net actor.inbox
      (actor.earliestDue.map (·.2.2)) rt.clock rt.deathWatch waker = (.Ready waited, net, watch) →
      rt.race name waker = some (waited, { rt with net }) := by
    intro waited net watch hraced
    simp only [race, hactor, if_pos hquiet, hraced]
  -- The rest of the race, in a network with the same inbox and the same deaths.
  have hrest : ∀ net watch, Queues.queue net actor.inbox = Queues.queue rt.net actor.inbox →
      ({ rt with net } : LocalRuntime P N Ib).unreported = rt.unreported →
      nextOrDeadlineOrDeath rt.net actor.inbox (actor.earliestDue.map (·.2.2)) rt.clock rt.deathWatch
        waker = ((nextOrDeadline net actor.inbox (actor.earliestDue.map (·.2.2)) rt.clock waker).1,
          (nextOrDeadline net actor.inbox (actor.earliestDue.map (·.2.2)) rt.clock waker).2, watch) →
      RaceFront rt name actor waker delivery := by
    intro net watch hsame hdeaths hraced
    by_cases hdue : (actor.earliestDue.map (·.2.2)).any (· ≤ rt.clock) = true
    · simp only [nextOrDeadline, if_pos hdue] at hraced
      exact .elapsed net (hrace _ _ _ hraced) hsame hdeaths
    · have hnext := Queues.next_front net actor.inbox waker delivery rest (hsame.trans hqueue)
      simp only [nextOrDeadline, if_neg hdue] at hraced
      generalize Inbox.next net actor.inbox waker = next at hnext hraced
      obtain ⟨result, net'⟩ := next
      cases hnext
      exact .delivered _ (hrace _ _ _ hraced)
  cases hwatch : rt.deathWatch with
  | none =>
    exact hrest rt.net none rfl rfl (by simp only [nextOrDeadlineOrDeath, hwatch])
  | some watch =>
    have hkept := Queues.death_queue rt.net watch waker actor.inbox
    have hfront := @Queues.death_front N Ib _ _ _ rt.net watch waker
    have hpoll := hrest (DeathWatch.nextDeath rt.net watch waker).2
    have hdied := fun endpoint => hrace (.PeerDeath endpoint) (DeathWatch.nextDeath rt.net watch waker).2 (some watch)
    simp only [nextOrDeadlineOrDeath, hwatch] at hpoll hdied
    simp only [unreported, hwatch, Option.elim_some] at hpoll
    generalize hdeath : DeathWatch.nextDeath rt.net watch waker = death at *
    obtain ⟨result, net⟩ := death
    rcases hfront with ⟨endpoint, hready, hdeaths⟩ | ⟨hnever, hdeaths⟩
    · cases hready
      refine .died endpoint net (by simpa only [hwatch] using hdied endpoint rfl) hkept ?_
      simpa only [unreported, hwatch, Option.elim_some] using hdeaths
    · rcases result with (_ | endpoint) | _
      · exact hpoll none hkept hdeaths rfl
      · exact absurd rfl (hnever endpoint)
      · exact hpoll (some watch) hkept hdeaths rfl

/-! ## While the clock stands still -/

/-- The actor is polled, a map is iterated in another order, or deliveries arrive at the inboxes. The
clock stands still, and no death is reported. -/
inductive Calm (name : ActorName) (rt : LocalRuntime P N Ib) : Moment P N → Prop
  | poll (waker : Waker) : Calm name rt (.Poll name waker)
  | rehash (own : ActorName) (conversations : Assoc Address PeerState)
      (hother : ∀ name' waited, (.Rehash own conversations : Call P N) ≠ .Step name' waited) :
      Calm name rt (.Other (.Rehash own conversations) hother)
  | arrive (net : N → N)
      (hother : ∀ name' waited, (.Elsewhere net rt.clock : Call P N) ≠ .Step name' waited)
      (hdeaths : { rt with net := net rt.net }.unreported = rt.unreported)
      (hqueue : ∀ inbox : Ib, Queues.queue rt.net inbox <+: Queues.queue (net rt.net) inbox) :
      Calm name rt (.Other (.Elsewhere net rt.clock) hother)

/-- The delivery is the next in the actor's inbox. -/
structure Next (name : ActorName) (delivery : Delivery) (rt : LocalRuntime P N Ib) : Prop where
  waiting : rt.Each PeerState.Waiting
  front : ∃ actor, rt.actors name = some actor ∧
    [delivery] <+: Queues.queue rt.net actor.inbox

/-- The failures that are left. -/
def rank (rt : LocalRuntime P N Ib) (name : ActorName) : Nat :=
  (rt.actors name).elim 0 (fun actor => actor.livePeers.card) + rt.unreported.length

/-- In this moment the actor takes the delivery from its inbox. -/
def Serves (name : ActorName) (delivery : Delivery) (rt : LocalRuntime P N Ib) (m : Moment P N) : Prop :=
  ∃ waker rt', m = .Poll name waker ∧ rt.race name waker = some (.Delivery (some delivery), rt')

omit [Party P] [Transport N] [Registry N Ib] in
theorem rank_of_actor {rt : LocalRuntime P N Ib} {name : ActorName} {actor : LocalActor P Ib}
    (hactor : rt.actors name = some actor) :
    rt.rank name = actor.livePeers.card + rt.unreported.length := by
  simp only [rank, hactor, Option.elim_some]

omit [Queues N Ib] in
theorem waiting_moment {rt : LocalRuntime P N Ib} (h : rt.Each PeerState.Waiting) (m : Moment P N) :
    (rt.moment m).1.Each PeerState.Waiting := by
  have hcalled := moment_called rt m
  generalize rt.moment m = after at hcalled
  rcases hcalled with ⟨net, -⟩ | ⟨net, _, _, -, _, -⟩ | ⟨call, -, -⟩
  · exact h
  · have hnet : ({ rt with net } : LocalRuntime P N Ib).Each PeerState.Waiting := h
    exact waiting_exec hnet _
  · exact waiting_exec h call

theorem step_next {rt : LocalRuntime P N Ib} {name : ActorName} {delivery : Delivery}
    (hwaiting : rt.Each PeerState.Waiting) {actor : LocalActor P Ib}
    (hactor : rt.actors name = some actor) (hqueue : [delivery] <+: Queues.queue rt.net actor.inbox)
    {waited : Waited} (hwaited : rt.Fruitless actor waited) :
    Failing (.Ready (rt.step name waited).result) ∧ Next name delivery (rt.step name waited).rt ∧
      (rt.step name waited).rt.rank name ≤ rt.rank name ∧
      ((∀ endpoint, waited ≠ .PeerDeath endpoint) →
        (rt.step name waited).rt.rank name < rt.rank name) := by
  obtain ⟨hfails, hnet, actor', hactor', hinbox, hlive, hgone⟩ := step_spent hactor hwaiting hwaited
  have hafter : (rt.step name waited).rt.Each PeerState.Waiting :=
    waiting_exec hwaiting (.Step name waited)
  have hwatch := (exec_same rt (.Step name waited)).deathWatch
  have hdeaths : (rt.step name waited).rt.unreported = rt.unreported := by
    rw [unreported, hnet, show (rt.step name waited).rt.deathWatch = rt.deathWatch from hwatch]
    rfl
  rw [rank_of_actor hactor', rank_of_actor hactor, hdeaths]
  refine ⟨hfails, ⟨hafter, actor', hactor', by rwa [hnet, hinbox]⟩, ?_, fun hdeath => ?_⟩
  · exact Nat.add_le_add_right (Finset.card_le_card hlive) _
  · exact Nat.add_lt_add_right (Finset.card_lt_card (hgone hdeath)) _

theorem poll_next {rt : LocalRuntime P N Ib} {name : ActorName} {delivery : Delivery}
    (h : Next name delivery rt) (waker : Waker) :
    Serves name delivery rt (.Poll name waker) ∨
      Failing (rt.poll name waker).1 ∧ Next name delivery (rt.poll name waker).2.1 ∧
        (rt.poll name waker).2.1.rank name < rt.rank name := by
  obtain ⟨hwaiting, actor, hactor, rest, hqueue⟩ := h
  by_cases hquiet : actor.affected (· ∈ rt.dead) = []
  · rcases race_front hactor hquiet hqueue.symm waker with ⟨endpoint, net, hrace, hsame, hdeaths⟩ |
      ⟨net, hrace, hsame, hdeaths⟩ | ⟨rt', hrace⟩
    · right
      have hwaiting' : ({ rt with net } : LocalRuntime P N Ib).Each PeerState.Waiting := hwaiting
      have hactor' : ({ rt with net } : LocalRuntime P N Ib).actors name = some actor := hactor
      obtain ⟨hfails, hnext, hrank, -⟩ := step_next hwaiting' hactor' ⟨rest, hqueue.trans hsame.symm⟩
        (show Fruitless _ actor (.PeerDeath endpoint) from trivial)
      rw [poll_of_race hrace]
      refine ⟨hfails, hnext, hrank.trans_lt ?_⟩
      rw [rank_of_actor hactor', rank_of_actor hactor, hdeaths]
      exact Nat.lt_succ_self _
    · right
      have hwaiting' : ({ rt with net } : LocalRuntime P N Ib).Each PeerState.Waiting := hwaiting
      have hactor' : ({ rt with net } : LocalRuntime P N Ib).actors name = some actor := hactor
      obtain ⟨w, hdue, -⟩ := (onTime_of_race hrace hactor).elapsed rfl
      obtain ⟨hfails, hnext, -, hrank⟩ := step_next hwaiting' hactor' ⟨rest, hqueue.trans hsame.symm⟩
        (show Fruitless _ actor .DeadlineElapsed from Or.inr (by simp [hdue]))
      rw [poll_of_race hrace]
      refine ⟨hfails, hnext, (hrank (by simp)).trans_eq ?_⟩
      rw [rank_of_actor hactor', rank_of_actor hactor, hdeaths]
    · exact Or.inl ⟨waker, rt', rfl, hrace⟩
  · right
    obtain ⟨hfails, hnext, -, hrank⟩ := step_next hwaiting hactor ⟨rest, hqueue⟩
      (show rt.Fruitless actor .DeadlineElapsed from Or.inl hquiet)
    rw [poll_of_loud hactor hquiet waker .DeadlineElapsed]
    exact ⟨hfails, hnext, hrank (by simp)⟩

omit [Party P] [Transport N] [Registry N Ib] [Inbox N Ib] [DeathWatch N] [Queues N Ib] in
theorem rehash_live {rt : LocalRuntime P N Ib} {name : ActorName} {actor : LocalActor P Ib}
    (hactor : rt.actors name = some actor) (own : ActorName)
    (conversations : Assoc Address PeerState) :
    ∃ actor', (rt.rehash own conversations).actors name = some actor' ∧ actor'.inbox = actor.inbox ∧
      actor'.livePeers = actor.livePeers ∧
      rt.rehash own conversations = { rt with actors := (rt.rehash own conversations).actors } := by
  have hsame : rt.rehash own conversations = rt → ∃ actor',
      (rt.rehash own conversations).actors name = some actor' ∧ actor'.inbox = actor.inbox ∧
      actor'.livePeers = actor.livePeers ∧
      rt.rehash own conversations = { rt with actors := (rt.rehash own conversations).actors } :=
    fun h => ⟨actor, by rw [h, hactor], rfl, rfl, by rw [h]⟩
  cases hown : rt.actors own with
  | none => exact hsame (by simp only [rehash, hown])
  | some taken =>
    by_cases hperm : conversations.entries.Perm taken.conversations.entries
    · have hrehash : rt.rehash own conversations = rt.setActor own { taken with conversations } := by
        simp only [rehash, hown, if_pos hperm]
      rw [hrehash]
      by_cases hname : name = own
      · subst hname
        cases hactor.symm.trans hown
        refine ⟨{ actor with conversations }, setActor_self .., rfl, ?_, rfl⟩
        ext p
        simp only [LocalActor.mem_livePeers, LocalActor.peer, AList.perm_lookup hperm]
      · exact ⟨actor, (setActor_of_ne _ _ hname).trans hactor, rfl, rfl, rfl⟩
    · exact hsame (by simp only [rehash, hown, if_neg hperm])

theorem calm_next {rt : LocalRuntime P N Ib} {name : ActorName} {delivery : Delivery}
    (h : Next name delivery rt) {m : Moment P N} (hcalm : Calm name rt m) :
    Serves name delivery rt m ∨
      Next name delivery (rt.moment m).1 ∧
        (rt.moment m).1.rank name + (if m.polls then 1 else 0) ≤ rt.rank name := by
  have hwaiting := waiting_moment h.waiting m
  obtain ⟨actor, hactor, hfront⟩ := h.front
  rcases hcalm with ⟨waker⟩ | ⟨own, conversations, hother⟩ | ⟨net, hother, hdeaths, hqueue⟩
  · rcases poll_next h waker with hserves | ⟨-, hnext, hrank⟩
    · exact Or.inl hserves
    · exact Or.inr ⟨hnext, hrank⟩
  · obtain ⟨actor', hactor', hinbox, hlive, hrehash⟩ := rehash_live hactor own conversations
    have hunreported : (rt.rehash own conversations).unreported = rt.unreported := by rw [hrehash]; rfl
    have hnet : (rt.rehash own conversations).net = rt.net := by rw [hrehash]
    refine Or.inr ⟨⟨hwaiting, actor', hactor', ?_⟩, ?_⟩
    · simp only [moment, exec]
      rwa [hnet, hinbox]
    · simp only [moment, exec]
      rw [rank_of_actor hactor', rank_of_actor hactor, hlive, hunreported]
      rfl
  · exact Or.inr ⟨⟨hwaiting, actor, hactor, hfront.trans (hqueue actor.inbox)⟩, by
      simp only [moment, exec, rank, hdeaths, hactor]; rfl⟩

omit [Queues N Ib] in
theorem waiting_moments {rt : LocalRuntime P N Ib} (hfresh : rt.Fresh) (ms : List (Moment P N)) :
    (rt.moments ms).Each PeerState.Waiting :=
  Run.invariant_all _ (I := fun rt => rt.Each PeerState.Waiting) (fun _ m h => waiting_moment h m) rt ms
    (hfresh.each _)

/-- While the clock stands still and no death is reported, an actor that is polled often enough takes the
delivery at the front of its inbox. The polls before that all fail, and there are no more of them than the
actor has live exchanges and the watch has deaths. -/
theorem failures_starve_nothing {rt : LocalRuntime P N Ib} (hfresh : rt.Fresh)
    (ms : List (Moment P N)) {name : ActorName} {actor : LocalActor P Ib}
    (hactor : (rt.moments ms).actors name = some actor) {delivery : Delivery} {rest : List Delivery}
    (hqueue : Queues.queue (rt.moments ms).net actor.inbox = delivery :: rest)
    {more : List (Moment P N)}
    (hcalm : Run.Along (fun rt m => (moment rt m).1) (Calm name) (rt.moments ms) more)
    (hmany : actor.livePeers.card + (rt.moments ms).unreported.length < more.countP Moment.polls) :
    ∃ pre waker post rt', more = pre ++ .Poll name waker :: post ∧
      pre.countP Moment.polls ≤ actor.livePeers.card + (rt.moments ms).unreported.length ∧
      Run.Along (fun rt m => (moment rt m).1)
        (fun rt m => ∀ waker, m = .Poll name waker → Failing (rt.poll name waker).1)
        (rt.moments ms) pre ∧
      ((rt.moments ms).moments pre).race name waker = some (.Delivery (some delivery), rt') ∧
      (((rt.moments ms).moments pre).poll name waker).1 =
        .Ready (rt'.step name (.Delivery (some delivery))).result := by
  have hnext : Next name delivery (rt.moments ms) :=
    ⟨waiting_moments hfresh ms, actor, hactor, rest, hqueue.symm⟩
  have hrank := rank_of_actor hactor
  obtain ⟨pre, m, post, rfl, ⟨waker, rt', rfl, hrace⟩, hcount, halong⟩ :=
    Run.reach_within (fun rt m => (moment rt m).1) (Next name delivery) (Serves name delivery)
      Moment.polls (fun rt => rt.rank name + 1)
      (fun rt m h hok hmisses => by
        obtain ⟨hnext, hless⟩ := (calm_next h hok).resolve_left hmisses
        exact ⟨hnext, by omega⟩)
      (fun _ _ => Nat.succ_pos _) (rt.moments ms) more hnext hcalm (by omega)
  refine ⟨pre, waker, post, rt', rfl, by omega, ?_, hrace, congrArg Prod.fst (poll_of_race hrace)⟩
  refine Run.along_imp _ (fun rt m h waker hm => ?_) _ _ halong
  subst hm
  rcases poll_next h.1 waker with hserves | ⟨hfails, -⟩
  · exact absurd hserves h.2.2
  · exact hfails

open Sample

/-- Bob has an exchange with Alice. Her death is reported, and Carol's request waits in his inbox. -/
def besieged : List (Moment (Hosted Empty) Shared) :=
  [.Other (.Elsewhere (fun net => (net.deathWatch.2.register alice).2) 0) nofun,
    .Other (.InstallParty bob.name
      ((Allowlist.empty.admitEndpoint alice.endpoint).admitEndpoint carol.endpoint) patience
      (.app (.countdown (.new 1)))) nofun,
    .Other (.Elsewhere (fun net => (net.send alice bob (.Turn (.Open (request 1)))).2.1) 0) nofun,
    .Poll bob.name 0,
    .Other (.Elsewhere (fun net => (net.pushDeath alice.endpoint 0).1) 0) nofun,
    .Other (.Elsewhere (fun net => (net.send carol bob (.Request (request 2))).2.1) 60) nofun]

theorem failures_starve_nothing_bob :
    ∃ pre waker post rt', [.Poll bob.name 0, .Poll bob.name 0, .Poll bob.name 0] =
        pre ++ (.Poll bob.name waker : Moment (Hosted Empty) Shared) :: post ∧
      ((((bobsRuntime (Hosted Empty)).watchDeaths 0).moments besieged).moments pre).race bob.name waker =
        some (.Delivery (some ⟨carol, bob, .Request (request 2)⟩), rt') := by
  obtain ⟨actor, hactor⟩ : ∃ actor, (((bobsRuntime (Hosted Empty)).watchDeaths 0).moments
      besieged).actors bob.name = some actor := ⟨_, rfl⟩
  have hfacts : ((((bobsRuntime (Hosted Empty)).watchDeaths 0).moments besieged).actors bob.name).all
      (fun actor => (Queues.queue (((bobsRuntime (Hosted Empty)).watchDeaths 0).moments besieged).net
          actor.inbox = [⟨carol, bob, .Request (request 2)⟩] : Bool) &&
        (actor.livePeers.card + (((bobsRuntime (Hosted Empty)).watchDeaths 0).moments
          besieged).unreported.length < 3 : Bool)) = true := by decide +kernel
  rw [hactor, Option.all_some, Bool.and_eq_true, decide_eq_true_eq, decide_eq_true_eq] at hfacts
  have hcalm : Run.Along (fun rt m => (moment rt m).1) (Calm bob.name)
      (((bobsRuntime (Hosted Empty)).watchDeaths 0).moments besieged)
      [.Poll bob.name 0, .Poll bob.name 0, .Poll bob.name 0] := ⟨.poll 0, .poll 0, .poll 0, trivial⟩
  obtain ⟨pre, waker, post, rt', hsplit, -, -, hrace, -⟩ :=
    failures_starve_nothing ⟨fun _ => rfl, rfl⟩ besieged hactor hfacts.1 hcalm hfacts.2
  exact ⟨pre, waker, post, rt', hsplit, hrace⟩

/-- An `Open` whose answer is refused is ahead of Carol's request. Nothing is live and nobody is dead, and
yet a poll fails before her request is taken. -/
theorem delivery_behind_waits :
    let rt := (bobsRuntime (Hosted Empty)).moments
      [.Other (.InstallParty bob.name
          ((Allowlist.empty.admitEndpoint alice.endpoint).admitEndpoint carol.endpoint) patience
          (.echo .new)) (by simp),
        .Other (.Elsewhere (fun net => (net.send alice bob (.Turn (.Open (request 1)))).2.1) 0) (by simp),
        .Other (.Elsewhere (fun net => (net.send carol bob (.Request (request 2))).2.1) 0) (by simp)]
    ∃ actor actor', rt.actors bob.name = some actor ∧
      Queues.queue rt.net actor.inbox =
        [⟨alice, bob, .Turn (.Open (request 1))⟩, ⟨carol, bob, .Request (request 2)⟩] ∧
      actor.livePeers.card + rt.unreported.length = 0 ∧
      Calm bob.name rt (.Poll bob.name 0) ∧
      (rt.poll bob.name 0).1 = .Ready (.Returned (.ok (.ExchangeFailed alice .SendFailed))) ∧
      (rt.poll bob.name 0).2.1.actors bob.name = some actor' ∧
      Queues.queue (rt.poll bob.name 0).2.1.net actor'.inbox = [⟨carol, bob, .Request (request 2)⟩] := by
  intro rt
  refine ⟨_, _, rfl, ?_, ?_, .poll 0, ?_, rfl, ?_⟩ <;> decide +kernel

end LocalRuntime

end Kamiroh
