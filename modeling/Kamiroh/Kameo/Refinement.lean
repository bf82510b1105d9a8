import Kamiroh.Kameo.Handlers

/-!
# The Kameo host refines the toy runtime

Both iterate over hash maps, each in an order of its own. Where the order shows the two can differ.
-/

namespace Kamiroh

variable {P N Ib : Type}

/-! ## Deadlines -/

theorem Seen.pending {actor : LocalActor P Ib} {host : Host P} (h : Seen actor host)
    (htended : host.Tended) {w : Address × DeadlineKind × Instant} :
    w ∈ (actor.peer w.1).waits w.1 ↔
      ∃ task ∈ host.sleeping, w = (task.report.peer, task.report.kind, task.due) := by
  obtain ⟨peer, kind, due⟩ := w
  have hreports := htended.reports peer
  rw [LocalActor.mem_waits, h.peer]
  simp only [PeerWaits.abs, Option.map_eq_some_iff, Prod.mk.injEq, true_and]
  constructor
  · rintro (⟨rfl, id, ⟨id', task⟩, hack, rfl, rfl⟩ | ⟨rfl, task, hturn, rfl⟩)
    · have hreport := hreports.ack hack
      refine ⟨task, (htended.sleeping task).mpr ?_, by rw [hreport], by rw [hreport], rfl⟩
      rw [hreport]
      exact PeerWaits.mem_tasks.mpr (Or.inl ⟨id', hack⟩)
    · have hreport := hreports.turn hturn
      refine ⟨task, (htended.sleeping task).mpr ?_, by rw [hreport], by rw [hreport], rfl⟩
      rw [hreport]
      exact PeerWaits.mem_tasks.mpr (Or.inr hturn)
  · rintro ⟨task, hsleeping, rfl, rfl, rfl⟩
    rcases PeerWaits.mem_tasks.mp ((htended.sleeping task).mp hsleeping) with ⟨id, hack⟩ | hturn
    · exact Or.inl ⟨by rw [hreports.ack hack], id, (id, task), hack, rfl, rfl⟩
    · exact Or.inr ⟨by rw [hreports.turn hturn], task, hturn, rfl⟩

theorem Seen.earliestDue {actor : LocalActor P Ib} {host : Host P} (h : Seen actor host)
    (htended : host.Tended) {task : Task} (hearliest : host.Earliest task)
    (htie : ∀ w, actor.earliestDue = some w → w.2.2 = task.due →
      w = (task.report.peer, task.report.kind, task.due)) :
    actor.earliestDue = some (task.report.peer, task.report.kind, task.due) := by
  have hpending := (h.pending htended).mpr ⟨task, hearliest.1, rfl⟩
  cases hdue : actor.earliestDue with
  | none =>
    obtain ⟨hack, hturn⟩ := LocalActor.unarmed_of_earliestDue_none hdue task.report.peer
    simp [PeerState.waits, hack, hturn] at hpending
  | some w =>
    obtain ⟨peer, kind, due⟩ := w
    obtain ⟨hmem, hle⟩ := LocalActor.earliestDue_spec hdue
    obtain ⟨other, hother, heq⟩ := (h.pending htended).mp hmem
    obtain ⟨-, -, rfl⟩ : peer = _ ∧ kind = _ ∧ due = other.due := by simpa using heq
    have hsame : other.due = task.due :=
      Nat.le_antisymm (hle _ hpending) (hearliest.2 other hother)
    rw [htie _ hdue hsame]

/-! ## Runs -/

/-- What can happen to an actor that both runtimes host. `Deliver` has a request, an ack or a turn.
`Elapse` is the earliest pending deadline, with the task that sleeps on it. In `Rehash` each side takes
an iteration order of its own. -/
inductive Input (N : Type)
  | Deliver (peer : Address) (message : Message) (hmessage : ∀ harness, message ≠ .Harness harness)
  | Admit (endpoint : EndpointId)
  | Revoke (endpoint : EndpointId)
  | Died (endpoint : EndpointId)
  | Elapse (task : Task)
  | Rehash (conversations : Assoc Address PeerState) (conversations' : Assoc Address PeerWaits)
  | Elsewhere (net : N → N) (clock : Instant)

namespace Input

variable {N : Type}

def call (here : Address) : Input N → Call P N
  | Deliver peer message _ => .Step here.name (.Delivery (some ⟨peer, here, message⟩))
  | Admit endpoint => .Admit here.name endpoint
  | Revoke endpoint => .Revoke here.name endpoint
  | Died endpoint => .Step here.name (.PeerDeath endpoint)
  | Elapse _ => .Step here.name .DeadlineElapsed
  | Rehash conversations _ => .Rehash here.name conversations
  | Elsewhere net clock => .Elsewhere net clock

def signal (here : Address) : Input N → Signal N
  | Deliver peer message _ => .Deliver ⟨peer, here, message⟩
  | Admit endpoint => .Admit endpoint
  | Revoke endpoint => .Revoke endpoint
  | Died endpoint => .PeerDied endpoint
  | Elapse task => .Elapse task
  | Rehash _ conversations => .Rehash conversations
  | Elsewhere net clock => .Elsewhere net clock

end Input

/-- The iteration orders do not show. A revocation and a death find the live exchanges at the endpoint
in the same order on both sides, and where deadlines are tied for the earliest, both sides take the same
one. -/
def Agreed (here : Address) (sides : LocalRuntime P N Ib × KameoRuntime P N Ib) : Input N → Prop
  | .Revoke endpoint | .Died endpoint =>
    (sides.1.actors here.name).map (fun actor => actor.affected (· = endpoint)) =
      (sides.2.roster here.name).map fun entry => entry.host.affected endpoint
  | .Elapse task =>
    (∀ entry ∈ sides.2.roster here.name, entry.host.Earliest task) ∧
      ∀ w ∈ (sides.1.actors here.name).bind (·.earliestDue), w.2.2 = task.due →
        w = (task.report.peer, task.report.kind, task.due)
  | .Deliver .. | .Admit _ | .Rehash .. | .Elsewhere .. => True

instance (here : Address) (sides : LocalRuntime P N Ib × KameoRuntime P N Ib) :
    (input : Input N) → Decidable (Agreed here sides input)
  | .Revoke _ | .Died _ => inferInstanceAs (Decidable (_ = _))
  | .Elapse _ => inferInstanceAs (Decidable (_ ∧ _))
  | .Deliver .. | .Admit _ | .Rehash .. | .Elsewhere .. => inferInstanceAs (Decidable True)

/-! ## Owners keep an actor quiet -/

section

variable {rt : LocalRuntime P N Ib} {name : ActorName} {actor : LocalActor P Ib}

theorem LocalRuntime.Quiet.admitEndpoint (h : rt.Quiet name) (hactor : rt.actors name = some actor)
    (endpoint : EndpointId) : (rt.admitEndpoint name endpoint).rt.Quiet name := by
  simp only [LocalRuntime.admitEndpoint, hactor]
  exact h.of_subset hactor (setActor_self ..) fun _ hp hlive => ⟨hp, hlive⟩

theorem LocalRuntime.Quiet.rehash (h : rt.Quiet name) (hactor : rt.actors name = some actor)
    (conversations : Assoc Address PeerState) : (rt.rehash name conversations).Quiet name := by
  obtain ⟨arranged, hlookup, hrehash⟩ := rehash_cases hactor conversations
  rw [hrehash]
  refine h.of_subset hactor (setActor_self ..) fun p hp hlive => ⟨hp, ?_⟩
  simpa only [LocalActor.peer, hlookup] using hlive

theorem LocalRuntime.Quiet.revoke [Party P] (h : rt.Quiet name) (hactor : rt.actors name = some actor)
    (endpoint : EndpointId) : (rt.revoke name endpoint).rt.Quiet name := by
  simp only [LocalRuntime.revoke, hactor]
  refine h.of_subset hactor (setActor_self ..) fun p hp hlive => ⟨hp, ?_⟩
  rw [failEach_peer] at hlive
  split at hlive
  · simp at hlive
  · exact hlive

end

/-- The toy runtime's actor and the Kameo host at `here` are in the same state. -/
structure Refines (here : Address) (rt : LocalRuntime P N Ib) (krt : KameoRuntime P N Ib) : Prop where
  beside : Beside rt krt
  address : rt.address here.name = here
  quiet : rt.Quiet here.name
  hosts : Option.Rel
    (fun actor entry => Seen actor entry.host ∧ entry.host.address = here ∧ entry.host.Tended)
    (rt.actors here.name) (krt.roster here.name)

section

variable {here : Address} {rt : LocalRuntime P N Ib} {krt : KameoRuntime P N Ib}

theorem Tracks.tell {α β : Type} {entry : Entry P Ib} {ran : Ran P N Ib α}
    (handler : Host P → Handled P N Ib β) (h : Tracks rt krt here.name ran (handler entry.host))
    (hbeside : Beside rt krt) (haddress : rt.address here.name = here)
    (hentry : krt.roster here.name = some entry) (hquiet : ran.rt.Quiet here.name)
    (htended : (handler entry.host).host.Tended) :
    ran.effects = (krt.tell here.name handler).2 ∧
      Refines here ran.rt (krt.tell here.name handler).1 := by
  obtain ⟨actor, hseen, hrt⟩ := h.actor
  have hroster : (handler entry.host).rt.roster here.name = some entry := by
    rw [h.outside]
    exact hentry
  have hset : (handler entry.host).rt.setHost here.name (handler entry.host).host =
      ({ krt with net := (handler entry.host).rt.net }).setEntry here.name
        { entry with host := (handler entry.host).host } := by
    rw [KameoRuntime.setHost, hroster, h.outside]
  simp only [KameoRuntime.tell, hentry, hset]
  refine ⟨h.effects, ?_, ?_, hquiet, ?_⟩
  · rw [hrt]
    exact ⟨hbeside.endpoint, rfl, hbeside.clock, hbeside.observer⟩
  · rw [hrt]
    exact haddress
  · rw [hrt, LocalRuntime.setActor_self, KameoRuntime.setEntry_self]
    exact .some ⟨hseen, h.address.trans haddress, htended⟩

theorem Refines.elsewhere (h : Refines here rt krt) (net : N → N) (clock : Instant) :
    Refines here { rt with net := net rt.net, clock } { krt with net := net krt.net, clock } :=
  ⟨⟨h.beside.endpoint, congrArg net h.beside.net, rfl, h.beside.observer⟩, h.address, h.quiet, h.hosts⟩

variable [Party P] [Transport N] [Registry N Ib]

theorem refines_hosted (h : Refines here rt krt) {actor : LocalActor P Ib} {entry : Entry P Ib}
    (hactor : rt.actors here.name = some actor) (hentry : krt.roster here.name = some entry)
    (hseen : Seen actor entry.host) (haddress : entry.host.address = here)
    (htended : entry.host.Tended) (input : Input N) (hagreed : Agreed here (rt, krt) input) :
    (rt.exec (input.call here)).2 = (krt.exec here.name (input.signal here)).2 ∧
      Refines here (rt.exec (input.call here)).1 (krt.exec here.name (input.signal here)).1 := by
  have hself : entry.host.address = rt.address here.name := haddress.trans h.address.symm
  have hquiet : ∀ waited, (rt.step here.name waited).rt.Quiet here.name := fun waited =>
    h.quiet.step waited
  have hdead : ∀ dead, Beside { rt with dead } krt := fun _ =>
    ⟨h.beside.endpoint, h.beside.net, h.beside.clock, h.beside.observer⟩
  cases input with
  | Deliver peer message hmessage =>
    have hran := LocalRuntime.deliver_delivered rt here.name actor ⟨peer, here, message⟩
    rw [← LocalRuntime.step_delivery rt hactor (h.quiet actor hactor)] at hran
    have hheard : Beside (rt.heardFrom peer.endpoint) krt := hdead _
    have htracks : Tracks (rt.heardFrom peer.endpoint) krt here.name _
        (krt.onDeliver entry.host ⟨peer, here, message⟩) :=
      tracks_onDeliver hheard hseen hself hactor h.address.symm hmessage hran
    exact Tracks.tell _ htracks (hdead _) h.address hentry (hquiet _)
      ((krt.tends_onDeliver htended.reports _).tended htended)
  | Admit endpoint =>
    have htracks := tracks_onAdmit h.beside hseen hself hactor endpoint
    exact Tracks.tell _ htracks h.beside h.address hentry (h.quiet.admitEndpoint hactor endpoint)
      ((krt.calm_onAdmit htended.reports endpoint).tends.tended htended)
  | Revoke endpoint =>
    have haffected : actor.affected (· = endpoint) = entry.host.affected endpoint := by
      simpa only [Agreed, hactor, hentry, Option.map_some, Option.some.injEq] using hagreed
    have htracks := tracks_onRevoke h.beside hseen hself hactor haffected
    exact Tracks.tell _ htracks h.beside h.address hentry (h.quiet.revoke hactor endpoint)
      ((krt.tends_onRevoke htended.reports endpoint).tended htended)
  | Died endpoint =>
    have haffected : actor.affected (· = endpoint) = entry.host.affected endpoint := by
      simpa only [Agreed, hactor, hentry, Option.map_some, Option.some.injEq] using hagreed
    have htracks := tracks_onPeerDied h.beside hseen hself hactor h.quiet haffected
    exact Tracks.tell _ htracks (hdead _) h.address hentry (hquiet _)
      ((krt.tends_onPeerDied htended.reports endpoint).tended htended)
  | Elapse task =>
    have hearliest : entry.host.Earliest task := hagreed.1 entry hentry
    have htie : ∀ w, actor.earliestDue = some w → w.2.2 = task.due →
        w = (task.report.peer, task.report.kind, task.due) := fun w hw => by
      refine hagreed.2 w ?_
      rw [hactor]
      exact hw
    have htracks := tracks_elapsed h.beside hseen hself hactor h.quiet htended hearliest.1
      (hseen.earliestDue htended hearliest htie)
    have htold : krt.exec here.name (.Elapse task) = krt.tell here.name fun host =>
        krt.onDeadlineElapsed (host.abort [task]) task.report := by
      simp only [KameoRuntime.exec, KameoRuntime.tell, hentry, KameoRuntime.onWake, if_pos hearliest]
    rw [Input.signal, htold]
    refine Tracks.tell _ htracks h.beside h.address hentry (hquiet _) ?_
    rw [KameoRuntime.onDeadlineElapsed_awake htended krt hearliest.1]
    exact (krt.tends_failExchange htended.reports _ _).tended htended
  | Rehash conversations conversations' =>
    have htracks := tracks_onRehash h.beside hseen hself hactor conversations conversations'
    exact Tracks.tell (fun host => krt.onRehash host conversations') htracks h.beside h.address
      hentry (h.quiet.rehash hactor conversations)
      ((krt.calm_onRehash htended.reports conversations').tends.tended htended)
  | Elsewhere net clock => exact ⟨rfl, h.elsewhere net clock⟩

theorem refines_exec (h : Refines here rt krt) (input : Input N)
    (hagreed : Agreed here (rt, krt) input) :
    (rt.exec (input.call here)).2 = (krt.exec here.name (input.signal here)).2 ∧
      Refines here (rt.exec (input.call here)).1 (krt.exec here.name (input.signal here)).1 := by
  have hhosts := h.hosts
  generalize hactor : rt.actors here.name = actor at hhosts
  generalize hentry : krt.roster here.name = entry at hhosts
  rcases hhosts with ⟨hseen, haddress, htended⟩ | _
  · exact refines_hosted h hactor hentry hseen haddress htended input hagreed
  · -- Nobody is there, so nothing but the network and the time can change.
    cases input with
    | Elsewhere net clock => exact ⟨rfl, h.elsewhere net clock⟩
    | Deliver _ _ _ | Died _ | Elapse _ =>
      simp only [Input.call, Input.signal, LocalRuntime.exec, LocalRuntime.step, hactor,
        KameoRuntime.exec, KameoRuntime.tell, hentry]
      exact ⟨trivial, h⟩
    | Admit _ | Revoke _ | Rehash _ _ =>
      simp only [Input.call, Input.signal, LocalRuntime.exec, LocalRuntime.admitEndpoint,
        LocalRuntime.revoke, LocalRuntime.rehash, hactor, KameoRuntime.exec, KameoRuntime.tell, hentry]
      exact ⟨trivial, h⟩

omit [Party P] [Transport N] in
theorem refines_installInner (hbeside : Beside rt krt) (haddress : rt.address here.name = here)
    (hactor : rt.actors here.name = none) (hentry : krt.roster here.name = none)
    (allowlist : Allowlist) (deadlines : Deadlines) (kind : ActorKind) (party : Option (Boxed P)) :
    Refines here (rt.installInner here.name allowlist deadlines kind party).rt
      (krt.installInner here.name allowlist deadlines kind party).2 := by
  have haddress' : krt.address here.name = here := by
    rw [KameoRuntime.address, ← hbeside.endpoint]
    exact haddress
  simp only [LocalRuntime.installInner, KameoRuntime.installInner, hactor, hentry, haddress,
    haddress', ← hbeside.net, Option.isSome_none, Bool.false_eq_true, if_false]
  rcases Registry.bind rt.net here with ⟨_ | inbox, net⟩
  · refine ⟨hbeside.withNet net, haddress, fun actor h => ?_, ?_⟩
    · rw [hactor] at h
      cases h
    · rw [hactor, hentry]
      exact .none
  · have hseen : Seen (⟨inbox, allowlist, kind, deadlines, party, ∅⟩ : LocalActor P Ib)
        (.new here allowlist kind deadlines party) := ⟨rfl, rfl, rfl, rfl, fun _ => rfl⟩
    refine ⟨⟨hbeside.endpoint, rfl, hbeside.clock, hbeside.observer⟩, haddress, fun actor h => ?_, ?_⟩
    · rw [LocalRuntime.setActor_self] at h
      cases h
      rfl
    · rw [LocalRuntime.setActor_self, KameoRuntime.setEntry_self]
      exact .some ⟨hseen, rfl, Host.tended_new ..⟩

/-! ## Refinement -/

def LocalRuntime.pending (rt : LocalRuntime P N Ib) (name : ActorName) (peer : Address) :
    Option PeerState :=
  (rt.actors name).map fun actor => actor.peer peer

def KameoRuntime.pending (rt : KameoRuntime P N Ib) (name : ActorName) (peer : Address) :
    Option PeerState :=
  (rt.roster name).map fun entry => (entry.host.waits peer).abs

omit [Party P] [Transport N] [Registry N Ib] in
theorem Refines.pending (h : Refines here rt krt) (peer : Address) :
    rt.pending here.name peer = krt.pending here.name peer := by
  have hhosts := h.hosts
  unfold LocalRuntime.pending KameoRuntime.pending
  generalize rt.actors here.name = actor at hhosts
  generalize krt.roster here.name = entry at hhosts
  rcases hhosts with ⟨hseen, -, -⟩ | _
  · exact congrArg some (hseen.peer peer)
  · rfl

def bothNext (here : Address) (sides : LocalRuntime P N Ib × KameoRuntime P N Ib) (input : Input N) :
    LocalRuntime P N Ib × KameoRuntime P N Ib :=
  (sides.1.next (input.call here), sides.2.next here.name (input.signal here))

/-- The Kameo host refines the toy runtime, as far as the iteration orders do not show: on the same
inputs both have the same effects in the same order, and end with the same turn machines and the same
pending waits for every peer. -/
theorem host_refines_local (hbeside : Beside rt krt) (haddress : rt.address here.name = here)
    (hactor : rt.actors here.name = none) (hentry : krt.roster here.name = none)
    (allowlist : Allowlist) (deadlines : Deadlines) (kind : ActorKind) (party : Option (Boxed P))
    (inputs : List (Input N)) :
    let rt := (rt.installInner here.name allowlist deadlines kind party).rt
    let krt := (krt.installInner here.name allowlist deadlines kind party).2
    let calls := inputs.map (Input.call here)
    let signals := inputs.map (Input.signal here)
    Run.Along (bothNext here) (Agreed here) (rt, krt) inputs →
      rt.effects calls = krt.effects here.name signals ∧
        ∀ peer, (rt.after calls).pending here.name peer =
          (krt.after here.name signals).pending here.name peer := by
  intro rt krt calls signals hagreed
  have h0 : Refines here rt krt :=
    refines_installInner hbeside haddress hactor hentry allowlist deadlines kind party
  obtain ⟨heffects, hafter⟩ := Run.simulation
    (fun (rt : LocalRuntime P N Ib) (input : Input N) => rt.exec (input.call here))
    (fun (krt : KameoRuntime P N Ib) (input : Input N) => krt.exec here.name (input.signal here))
    (fun _ _ input h hok => refines_exec h input hok) rt krt inputs h0 hagreed
  rw [LocalRuntime.effects, KameoRuntime.effects, LocalRuntime.after, KameoRuntime.after,
    Run.outputs_map, Run.outputs_map, Run.after_map, Run.after_map]
  exact ⟨heffects, hafter.pending⟩

end

/-- Says nothing until an exchange failed, and then whether the last one was with Bob. -/
inductive Mourner
  | calm
  | mourning (peer : Address)

instance : Party Mourner where
  onTurn
    | .calm, _, _ => (.calm, none)
    | .mourning peer, _, turn =>
      (.mourning peer, turn.request.map fun r => .Close ⟨r.id, [if peer = Sample.bob then 1 else 0]⟩)
  onExchangeFailed _ peer _ := .mourning peer

def Effect.sends : Effect → Bool
  | Sent .. => true
  | _ => false

section

open Sample

def alicesRuntime (P : Type) : LocalRuntime P Shared MemoryInbox :=
  (LocalRuntime.new alice.endpoint .new 0 patience).setObserver

def alicesKameo (P : Type) : KameoRuntime P Shared MemoryInbox :=
  (KameoRuntime.new alice.endpoint .new 0 patience).setObserver

/-- A countdown asks back, and its ack deadline elapses before Carol is revoked. -/
theorem host_refines_local_countdown :
    let allowlist := (Allowlist.empty.admitEndpoint bob.endpoint).admitEndpoint carol.endpoint
    let party : Option (Boxed CountdownParty) := some (.app (.new 1))
    let rt := ((alicesRuntime CountdownParty).installInner alice.name allowlist patience .Plain party).rt
    let krt := ((alicesKameo CountdownParty).installInner alice.name allowlist patience .Plain party).2
    let task : Task := ⟨0, 5, ⟨bob, .Ack, some ⟨Vector.replicate 16 100⟩, 1⟩⟩
    let inputs : List (Input Shared) :=
      [.Elsewhere (fun net => (net.register bob).2) 0,
        .Deliver bob (.Turn (.Open (request 1))) (fun _ => nofun), .Elapse task, .Revoke carol.endpoint]
    rt.effects (inputs.map (Input.call alice)) =
      krt.effects alice.name (inputs.map (Input.signal alice)) := by
  intro allowlist party rt krt task inputs
  have hagreed : Run.Along (bothNext alice) (Agreed alice) (rt, krt) inputs := by decide
  have hbeside : Beside (alicesRuntime CountdownParty) (alicesKameo CountdownParty) := ⟨rfl, rfl, rfl, rfl⟩
  exact (host_refines_local hbeside rfl rfl rfl allowlist patience .Plain party inputs hagreed).1

/-- Bob and Dave share an endpoint and have a live exchange with Alice each when it dies. The two hash
maps hold them in different orders, so Alice's party is told of them in different orders, and what she
answers to Carol afterwards differs. -/
theorem iteration_order_shows :
    let allowlist := (Allowlist.empty.admitEndpoint bob.endpoint).admitEndpoint carol.endpoint
    let party : Option (Boxed Mourner) := some (.app .calm)
    let rt := ((alicesRuntime Mourner).installInner alice.name allowlist patience .Plain party).rt
    let krt := ((alicesKameo Mourner).installInner alice.name allowlist patience .Plain party).2
    let owes (n : UInt8) : PeerWaits := ⟨.OweThem (request n).id, none, none, 0⟩
    let daveFirst : Assoc Address PeerState := .insert dave (owes 2).abs (.singleton bob (owes 1).abs)
    let bobFirst : Assoc Address PeerWaits := .insert bob (owes 1) (.singleton dave (owes 2))
    let inputs : List (Input Shared) :=
      [.Deliver bob (.Turn (.Open (request 1))) (fun _ => nofun),
        .Deliver dave (.Turn (.Open (request 2))) (fun _ => nofun),
        .Rehash daveFirst bobFirst, .Died bob.endpoint,
        .Deliver carol (.Turn (.Open (request 3))) (fun _ => nofun)]
    let receipts : List Effect :=
      [.Sent alice bob (.Ack ⟨(request 1).id⟩) false, .Sent alice dave (.Ack ⟨(request 2).id⟩) false,
        .Sent alice carol (.Ack ⟨(request 3).id⟩) false]
    (rt.effects (inputs.map (Input.call alice))).filter Effect.sends =
        receipts ++ [.Sent alice carol (.Turn (.Close ⟨(request 3).id, [1]⟩)) false] ∧
      (krt.effects alice.name (inputs.map (Input.signal alice))).filter Effect.sends =
        receipts ++ [.Sent alice carol (.Turn (.Close ⟨(request 3).id, [0]⟩)) false] := by
  decide

end

end Kamiroh
