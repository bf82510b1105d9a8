import Kamiroh.Kameo.Mailbox
import Kamiroh.Kameo.Refinement

/-!
# A concurrent run is a serial one

A host works off its mailbox while its timer tasks wake beside it. What it does is what the toy runtime
does when it is asked for one thing after another, in the order of the mailbox. Only deadlines can come
late.
-/

namespace Kamiroh

variable {P N Ib : Type}

/-! ## What the toy runtime is asked -/

/-- `Elapse` is a deadline that is over, for however long and whichever others are. -/
inductive Asked (P N : Type)
  | Call (call : Call P N)
  | Elapse (name : ActorName) (peer : Address) (kind : DeadlineKind)
  | Observe (observer : Bool)

namespace LocalRuntime

/-- The wait is armed, and its instant has come. -/
def Overdue (rt : LocalRuntime P N Ib) : Asked P N → Prop
  | .Elapse name peer kind => ∃ actor, rt.actors name = some actor ∧
      ∃ due, (peer, kind, due) ∈ (actor.peer peer).waits peer ∧ due ≤ rt.clock
  | .Call _ | .Observe _ => True

variable [Party P] [Transport N] [Registry N Ib]

def ask (rt : LocalRuntime P N Ib) : Asked P N → LocalRuntime P N Ib × List Effect
  | .Call call => rt.exec call
  | .Elapse name peer kind =>
    match rt.actors name with
    | some actor =>
      let failed := rt.failExchange name actor peer (.DeadlineElapsed kind)
      (failed.rt, failed.effects)
    | none => (rt, [])
  | .Observe observer => ({ rt with observer }, [])

def afterAsked (rt : LocalRuntime P N Ib) (asks : List (Asked P N)) : LocalRuntime P N Ib :=
  Run.after (fun rt asked => (rt.ask asked).1) rt asks

def effectsAsked (rt : LocalRuntime P N Ib) (asks : List (Asked P N)) : List Effect :=
  Run.outputs ask rt asks

end LocalRuntime

/-- The conversations as the toy runtime has them, in the order in which the host iterates over them. -/
def Host.mirror (host : Host P) : Assoc Address PeerState := host.conversations.mapValues PeerWaits.abs

/-- What a message comes to. The report of a wait that is not pending comes to nothing. -/
def Mail.asks (name : ActorName) (host : Host P) : Mail → List (Asked P N)
  | .Told (.Deliver delivery) => [.Call (.Step name (.Delivery (some delivery)))]
  | .Told (.Admit endpoint) => [.Call (.Admit name endpoint)]
  | .Told (.Revoke endpoint) => [.Call (.Rehash name host.mirror), .Call (.Revoke name endpoint)]
  | .Told (.PeerDied endpoint) =>
    [.Call (.Rehash name host.mirror), .Call (.Step name (.PeerDeath endpoint))]
  | .DeadlineElapsed task =>
    if task ∈ (host.waits task.report.peer).tasks then
      [.Elapse name task.report.peer task.report.kind]
    else []

namespace KameoActor

variable [Party P] [Transport N] [Registry N Ib]

omit [Party P] [Transport N] [Registry N Ib] in
def asks (actor : KameoActor P N Ib) : Act P N Ib → List (Asked P N)
  | .Handle =>
    match actor.host, actor.mailbox with
    | some host, mail :: _ => mail.asks actor.name host
    | _, _ => []
  | .Elsewhere world =>
    let rt := world actor.rt
    [.Call (.Elsewhere (fun _ => rt.net) rt.clock), .Observe rt.observer]
  | .Tell _ | .Fire _ | .Stop | .Rehash _ => []

/-- What a run comes to. -/
def serial (actor : KameoActor P N Ib) (acts : List (Act P N Ib)) : List (Asked P N) :=
  Run.outputs (fun actor a => (actor.act a, actor.asks a)) actor acts

def effects (actor : KameoActor P N Ib) (acts : List (Act P N Ib)) : List Effect :=
  Run.outputs exec actor acts

omit [Party P] [Transport N] [Registry N Ib] in
/-- Deliveries go to the actor that they are for, the endpoint stays, and time goes on. -/
def Orderly (actor : KameoActor P N Ib) : Act P N Ib → Prop
  | .Tell (.Deliver delivery) => delivery.target = actor.rt.address actor.name
  | .Elsewhere world =>
    (world actor.rt).endpoint = actor.rt.endpoint ∧ actor.rt.clock ≤ (world actor.rt).clock
  | .Tell _ | .Fire _ | .Handle | .Stop | .Rehash _ => True

omit [Party P] [Transport N] [Registry N Ib] in
instance (actor : KameoActor P N Ib) : (a : Act P N Ib) → Decidable (actor.Orderly a)
  | .Tell (.Deliver _) => inferInstanceAs (Decidable (_ = _))
  | .Elsewhere _ => inferInstanceAs (Decidable (_ ∧ _))
  | .Tell (.Admit _) | .Tell (.Revoke _) | .Tell (.PeerDied _) | .Fire _ | .Handle | .Stop | .Rehash _ =>
    inferInstanceAs (Decidable True)

end KameoActor

/-! ## What no handler changes -/

namespace Host

structure Fixed (host host' : Host P) : Prop where
  address : host'.address = host.address
  kind : host'.kind = host.kind

variable {host host' host'' : Host P}

theorem Fixed.refl (host : Host P) : Fixed host host := ⟨rfl, rfl⟩

theorem Fixed.trans (h : Fixed host host') (h' : Fixed host' host'') : Fixed host host'' :=
  ⟨h'.address.trans h.address, h'.kind.trans h.kind⟩

variable (host) (peer : Address)

theorem fixed_update (f : PeerWaits → PeerWaits × List Task) : Fixed host (host.update peer f) := by
  unfold update
  split <;> exact ⟨rfl, rfl⟩

theorem fixed_arm (posed : Option RequestId) (progress : TurnProgress) (now : Instant) :
    Fixed host (host.arm peer posed progress now) := by
  cases posed <;> cases progress <;> exact ⟨rfl, rfl⟩

variable [Party P]

theorem fixed_handOver (turn : Turn) : Fixed host (host.handOver peer turn).2.1 := by
  unfold handOver
  split <;> exact ⟨rfl, rfl⟩

end Host

namespace KameoRuntime

open Host

section

variable [Party P] (rt : KameoRuntime P N Ib) (host : Host P) (peer : Address)

theorem fixed_failExchange (cause : FailureCause) : Fixed host (rt.failExchange host peer cause).1 := by
  have hfailed := host.fixed_update peer PeerWaits.fail
  unfold failExchange
  dsimp only
  split
  · exact hfailed.trans ⟨rfl, rfl⟩
  · exact hfailed

theorem fixed_failEach (cause : FailureCause) (peers : List Address) :
    Fixed host (rt.failEach host cause peers).1 := by
  induction peers generalizing host with
  | nil => exact .refl host
  | cons peer peers ih => exact (rt.fixed_failExchange host peer cause).trans (ih _)

theorem fixed_onRevoke (endpoint : EndpointId) : Fixed host (rt.onRevoke host endpoint).host := by
  have hrevoked : Fixed host { host with allowlist := host.allowlist.revoke endpoint } := ⟨rfl, rfl⟩
  exact hrevoked.trans (rt.fixed_failEach _ _ _)

theorem fixed_onDeadlineElapsed (report : DeadlineElapsed) :
    Fixed host (rt.onDeadlineElapsed host report).host := by
  rw [onDeadlineElapsed_eq]
  split
  · exact rt.fixed_failExchange host _ _
  · exact .refl host

variable [Transport N]

theorem fixed_answer (reply : Turn) : Fixed host (rt.answer host peer reply).host := by
  have hset : ∀ waits, Fixed host (host.setWaits peer waits) := fun _ => ⟨rfl, rfl⟩
  unfold answer
  dsimp only
  split
  · exact (hset _).trans (rt.fixed_failExchange _ peer _)
  · split
    · exact (hset _).trans (fixed_arm _ peer _ _ _)
    · exact (hset _).trans (fixed_failExchange _ _ peer _)

theorem fixed_takeTurn (turn : Turn) (ack : Option Message) :
    Fixed host (rt.takeTurn host peer turn ack).host := by
  have hsettled : ∀ state, Fixed host (host.settleAll peer state) := fun _ => ⟨rfl, rfl⟩
  unfold takeTurn
  dsimp only
  split
  · exact ⟨rfl, rfl⟩
  · simp only [sendIgnored_host]
    split
    · exact (hsettled _).trans (fixed_handOver _ peer turn)
    · exact ((hsettled _).trans (fixed_handOver _ peer turn)).trans (fixed_answer _ _ peer _)

theorem fixed_onDeliver [Registry N Ib] (delivery : Delivery) :
    Fixed host (rt.onDeliver host delivery).host := by
  unfold onDeliver
  split
  · exact .refl host
  · exact .refl host
  · exact host.fixed_update _ _
  · split
    · exact .refl host
    · simpa using Fixed.refl host
  · exact rt.fixed_takeTurn host _ _ _

end

end KameoRuntime

/-! ## A host and its twin -/

/-- The toy runtime's actor and the Kameo host at `here`, of this kind, are in the same state, if the host is
there. -/
structure Twins (here : Address) (kind : ActorKind) (rt : LocalRuntime P N Ib) (krt : KameoRuntime P N Ib) :
    Prop where
  beside : Beside rt krt
  address : rt.address here.name = here
  quiet : rt.Quiet here.name
  host : ∀ host, krt.host here.name = some host → ∃ toy, rt.actors here.name = some toy ∧
    Seen toy host ∧ host.address = here ∧ host.kind = kind

/-- The message is a command, for an actor that takes commands. The two runtimes part company there: a Kameo
runtime lets go of the address of an actor that it stops only with the actor's pump. -/
def Mail.Commands (kind : ActorKind) : Mail → Prop
  | .Told (.Deliver delivery) => kind = .Harness ∧ ∃ command, delivery.message = .Harness command
  | .Told (.Admit _) | .Told (.Revoke _) | .Told (.PeerDied _) | .DeadlineElapsed _ => False

section

variable {here : Address} {kind : ActorKind} {rt : LocalRuntime P N Ib} {krt : KameoRuntime P N Ib}
  {host : Host P} {toy : LocalActor P Ib}

theorem Seen.due (h : Seen toy host) {task : Task} (htask : task ∈ (host.waits task.report.peer).tasks)
    (hreports : host.Reports) :
    (task.report.peer, task.report.kind, task.due) ∈
      (toy.peer task.report.peer).waits task.report.peer := by
  rw [LocalActor.mem_waits, h.peer]
  refine ⟨rfl, ?_⟩
  have hreport := hreports task.report.peer
  rcases PeerWaits.mem_tasks.mp htask with ⟨id, hack⟩ | hturn
  · refine Or.inl ⟨by rw [hreport.ack hack], id, ?_⟩
    simp only [PeerWaits.abs, hack, Option.map_some]
  · refine Or.inr ⟨by rw [hreport.turn hturn], ?_⟩
    simp only [PeerWaits.abs, hturn, Option.map_some]

theorem Seen.mirror_perm (h : Seen toy host) : host.mirror.entries.Perm toy.conversations.entries := by
  refine List.lookup_ext host.mirror.nodupKeys toy.conversations.nodupKeys fun peer ps => ?_
  have hlookup : host.mirror.lookup peer = toy.conversations.lookup peer := by
    rw [Host.mirror, Assoc.lookup_mapValues, h.lookup]
  change ps ∈ host.mirror.lookup peer ↔ ps ∈ toy.conversations.lookup peer
  rw [hlookup]

theorem Seen.mirror (h : Seen toy host) : Seen { toy with conversations := host.mirror } host :=
  ⟨h.allowlist, h.kind, h.deadlines, h.party, fun _ => Assoc.lookup_mapValues ..⟩

theorem LocalActor.affected_mirror (toy : LocalActor P Ib) (host : Host P) (endpoint : EndpointId) :
    ({ toy with conversations := host.mirror } : LocalActor P Ib).affected (· = endpoint) =
      host.affected endpoint := by
  simp only [LocalActor.affected, Host.affected, Host.mirror, Assoc.keysWhere, Assoc.mapValues,
    List.filter_map, List.map_map, Function.comp_def, PeerWaits.abs, Bool.and_comm]

theorem tracks_delivered [Party P] [Transport N] [Registry N Ib] (hbeside : Beside rt krt)
    (hseen : Seen toy host) (haddress : host.address = rt.address here.name)
    (htoy : rt.actors here.name = some toy) {delivery : Delivery}
    (hplain : ¬ Mail.Commands host.kind (.Told (.Deliver delivery)))
    (htarget : delivery.target = rt.address here.name) {ran : Ran P N Ib Outcome}
    (hran : LocalRuntime.Delivered rt here.name toy delivery ran) :
    Tracks rt krt here.name ran (krt.onDeliver host delivery) := by
  by_cases hmessage : ∀ harness, delivery.message ≠ .Harness harness
  · exact tracks_onDeliver hbeside hseen haddress htoy htarget hmessage hran
  · -- Both refuse a command in the same words.
    obtain ⟨command, hcommand⟩ := not_forall_not.mp hmessage
    have hkind : host.kind ≠ .Harness := fun h => hplain ⟨h, command, hcommand⟩
    have hput : ∀ net, ({ rt with net } : LocalRuntime P N Ib).setActor here.name toy = { rt with net } :=
      fun net => LocalRuntime.setActor_eq_self { rt with net } htoy
    rcases hran with h | ⟨_, _, hother⟩ | ⟨_, _, hother⟩ | ⟨h, harness, hharness, _⟩ |
      ⟨_, _, _, hharness, _⟩ | ⟨_, _, _, hharness, _⟩ | ⟨_, _, hother, _, _⟩
    · rw [hseen.allowlist] at h
      simp only [KameoRuntime.onDeliver, process_denied.mpr h, htarget, haddress, hbeside.emit]
      exact ⟨rfl, ⟨toy, hseen, by rw [← hbeside.net, hput]⟩, rfl, haddress⟩
    · rw [hcommand] at hother
      cases hother
    · rw [hcommand] at hother
      cases hother
    · rw [hseen.allowlist] at h
      simp only [KameoRuntime.onDeliver, process_admitted h, hharness, if_pos hkind,
        KameoRuntime.sendIgnored, haddress, send_beside hbeside, LocalRuntime.sendAndReturn, htarget]
      refine ⟨rfl, ⟨toy, hseen, ?_⟩, rfl, haddress⟩
      rw [hput, LocalRuntime.send_rt]
    · exact absurd (hseen.kind.symm.trans hharness) hkind
    · exact absurd (hseen.kind.symm.trans hharness) hkind
    · rw [hcommand] at hother
      cases hother

theorem beside_setHost (h : Beside rt krt) (name : ActorName) (host : Host P) :
    Beside rt (krt.setHost name host) := by
  unfold KameoRuntime.setHost
  split <;> exact ⟨h.endpoint, h.net, h.clock, h.observer⟩

theorem KameoRuntime.setHost_self {entry : Entry P Ib} {name : ActorName}
    (hentry : krt.roster name = some entry) (host : Host P) : (krt.setHost name host).host name = some host := by
  rw [KameoRuntime.setHost, hentry, KameoRuntime.host, KameoRuntime.setEntry_self]
  rfl

theorem Twins.told {α β : Type} (h : Twins here kind rt krt) (hhost : krt.host here.name = some host)
    (handler : Host P → Handled P N Ib β) {rt' : LocalRuntime P N Ib} (hbeside : Beside rt' krt)
    {ran : Ran P N Ib α} (htracks : Tracks rt' krt here.name ran (handler host))
    (haddress : rt'.address here.name = here) (hquiet : ran.rt.Quiet here.name)
    (hfixed : host.Fixed (handler host).host) :
    ran.effects = (krt.tell here.name handler).2 ∧
      Twins here kind ran.rt (krt.tell here.name handler).1 ∧
      (krt.tell here.name handler).1.clock = krt.clock := by
  obtain ⟨entry, hentry, rfl⟩ := Option.map_eq_some_iff.mp hhost
  obtain ⟨toy, hseen, hrt⟩ := htracks.actor
  obtain ⟨-, -, -, -, hkind⟩ := h.host entry.host hhost
  have hroster : (handler entry.host).rt.roster here.name = some entry := by
    rw [htracks.outside]
    exact hentry
  simp only [KameoRuntime.tell, hentry]
  have hafter : Beside ran.rt (handler entry.host).rt := by
    rw [hrt, htracks.outside]
    exact ⟨hbeside.endpoint, rfl, hbeside.clock, hbeside.observer⟩
  refine ⟨htracks.effects, ⟨beside_setHost hafter _ _, ?_, hquiet, fun host' hhost' => ?_⟩, ?_⟩
  · rw [hrt]
    exact haddress
  · rw [KameoRuntime.setHost_self hroster] at hhost'
    cases hhost'
    refine ⟨toy, ?_, hseen, htracks.address.trans haddress, hfixed.kind.trans hkind⟩
    rw [hrt, LocalRuntime.setActor_self]
  · refine (beside_setHost hafter here.name (handler entry.host).host).clock.symm.trans ?_
    rw [hrt]
    exact hbeside.clock

end

/-! ## One message -/

namespace LocalRuntime

variable [Party P] [Transport N] [Registry N Ib] {rt : LocalRuntime P N Ib} {name : ActorName}

omit [Transport N] [Registry N Ib] in
theorem Quiet.failExchange {toy : LocalActor P Ib} (h : rt.Quiet name) (htoy : rt.actors name = some toy)
    (peer : Address) (cause : FailureCause) : (rt.failExchange name toy peer cause).rt.Quiet name := by
  refine h.of_subset htoy (setActor_self ..) fun p hp hlive => ⟨hp, ?_⟩
  rw [LocalActor.failExchange_peer] at hlive
  split at hlive
  · simp at hlive
  · exact hlive

end LocalRuntime

/-- The asks put out `effects`, their deadlines are over, and they end beside `krt`, no earlier. -/
structure Comes [Party P] [Transport N] [Registry N Ib] (here : Address) (kind : ActorKind)
    (rt : LocalRuntime P N Ib) (asks : List (Asked P N)) (krt : KameoRuntime P N Ib)
    (effects : List Effect) : Prop where
  effects : rt.effectsAsked asks = effects
  twins : Twins here kind (rt.afterAsked asks) krt
  overdue : Run.Along (fun rt asked => (LocalRuntime.ask rt asked).1) LocalRuntime.Overdue rt asks
  clock : rt.clock ≤ krt.clock

section

variable [Party P] [Transport N] [Registry N Ib] {here : Address} {kind : ActorKind}
  {rt : LocalRuntime P N Ib} {krt : KameoRuntime P N Ib}

theorem comes_nil (h : Twins here kind rt krt) : Comes here kind rt [] krt [] :=
  ⟨rfl, h, trivial, h.beside.clock.le⟩

theorem comes_one (hbeside : Beside rt krt) {asked : Asked P N} {krt' : KameoRuntime P N Ib}
    {effects : List Effect} (hoverdue : rt.Overdue asked)
    (h : (rt.ask asked).2 = effects ∧ Twins here kind (rt.ask asked).1 krt' ∧ krt'.clock = krt.clock) :
    Comes here kind rt [asked] krt' effects :=
  ⟨(List.append_nil _).trans h.1, h.2.1, ⟨hoverdue, trivial⟩, (hbeside.clock.trans h.2.2.symm).le⟩

/-- The toy runtime first takes the order of the host's conversations. -/
theorem comes_after_rehash {host : Host P} {toy : LocalActor P Ib} (htoy : rt.actors here.name = some toy)
    (hseen : Seen toy host) {krt' : KameoRuntime P N Ib} {effects : List Effect} {call : Call P N}
    (h : Comes here kind (rt.setActor here.name { toy with conversations := host.mirror }) [.Call call] krt'
      effects) : Comes here kind rt [.Call (.Rehash here.name host.mirror), .Call call] krt' effects := by
  have hrehash : rt.rehash here.name host.mirror =
      rt.setActor here.name { toy with conversations := host.mirror } := by
    simp only [LocalRuntime.rehash, htoy, if_pos hseen.mirror_perm]
  have hask : rt.ask (.Call (.Rehash here.name host.mirror)) =
      (rt.setActor here.name { toy with conversations := host.mirror }, []) := by
    rw [← hrehash]
    rfl
  refine ⟨?_, ?_, ⟨trivial, ?_⟩, h.clock⟩
  · rw [LocalRuntime.effectsAsked, Run.outputs, hask]
    exact h.effects
  · rw [LocalRuntime.afterAsked, Run.after_cons, hask]
    exact h.twins
  · change Run.Along _ _ (rt.ask (.Call (.Rehash here.name host.mirror))).1 _
    rw [hask]
    exact h.overdue

theorem comes_told (h : Twins here kind rt krt) {host : Host P} (hhost : krt.host here.name = some host)
    (told : Told) (hmine : ∀ delivery, told = .Deliver delivery → delivery.target = here)
    (hplain : ¬ Mail.Commands kind (.Told told)) :
    Comes here kind rt ((Mail.Told told).asks here.name host)
      (KameoActor.handle krt here.name (.Told told)).1
      (KameoActor.handle krt here.name (.Told told)).2 := by
  obtain ⟨toy, htoy, hseen, haddress, hkind⟩ := h.host host hhost
  have hself : host.address = rt.address here.name := haddress.trans h.address.symm
  have hdead : ∀ dead, Beside { rt with dead } krt := fun _ =>
    ⟨h.beside.endpoint, h.beside.net, h.beside.clock, h.beside.observer⟩
  let mirrored : LocalActor P Ib := { toy with conversations := host.mirror }
  have hmirrored : (rt.setActor here.name mirrored).actors here.name = some mirrored :=
    LocalRuntime.setActor_self ..
  have hbeside' : Beside (rt.setActor here.name mirrored) krt :=
    ⟨h.beside.endpoint, h.beside.net, h.beside.clock, h.beside.observer⟩
  have hpeers : ∀ p, mirrored.peer p = toy.peer p := fun p => by
    rw [hseen.mirror.peer, hseen.peer]
  have hquiet' : (rt.setActor here.name mirrored).Quiet here.name :=
    h.quiet.of_subset htoy hmirrored fun p hp hlive => ⟨hp, hpeers p ▸ hlive⟩
  cases told with
  | Deliver delivery =>
    have hran := LocalRuntime.deliver_delivered rt here.name toy delivery
    rw [← LocalRuntime.step_delivery rt htoy (h.quiet toy htoy)] at hran
    have htarget : delivery.target = rt.address here.name :=
      (hmine delivery rfl).trans h.address.symm
    have hheard : Beside (rt.heardFrom delivery.origin.endpoint) krt := hdead _
    have htracks : Tracks (rt.heardFrom delivery.origin.endpoint) krt here.name _
        (krt.onDeliver host delivery) :=
      tracks_delivered hheard hseen hself htoy (hkind ▸ hplain) htarget hran
    exact comes_one h.beside trivial (h.told hhost (fun host => krt.onDeliver host delivery) hheard htracks
      h.address (h.quiet.step _) (krt.fixed_onDeliver host delivery))
  | Admit endpoint =>
    have htracks := tracks_onAdmit h.beside hseen hself htoy endpoint
    exact comes_one h.beside trivial (h.told hhost (fun host => krt.onAdmit host endpoint) h.beside htracks
      h.address (h.quiet.admitEndpoint htoy endpoint) ⟨rfl, rfl⟩)
  | Revoke endpoint =>
    have htracks := tracks_onRevoke hbeside' hseen.mirror hself hmirrored
      (toy.affected_mirror host endpoint)
    refine comes_after_rehash htoy hseen (comes_one hbeside' trivial ?_)
    exact h.told hhost (fun host => krt.onRevoke host endpoint) hbeside' htracks h.address
      (hquiet'.revoke hmirrored endpoint) (krt.fixed_onRevoke host endpoint)
  | PeerDied endpoint =>
    have htracks := tracks_onPeerDied hbeside' hseen.mirror hself hmirrored hquiet'
      (toy.affected_mirror host endpoint)
    have hreported : Beside ((rt.setActor here.name mirrored).reportDead endpoint) krt :=
      ⟨h.beside.endpoint, h.beside.net, h.beside.clock, h.beside.observer⟩
    refine comes_after_rehash htoy hseen (comes_one hbeside' trivial ?_)
    exact h.told hhost (fun host => krt.onPeerDied host endpoint) hreported htracks h.address
      (hquiet'.step _) (krt.fixed_failEach ..)

theorem comes_elapsed (h : Twins here kind rt krt) {host : Host P} (hhost : krt.host here.name = some host)
    {task : Task} (hreports : host.Reports) (hover : task.due ≤ krt.clock)
    (hjudged : KameoRuntime.stillPending (host.waits task.report.peer) task.report = true ↔
      task ∈ (host.waits task.report.peer).tasks) :
    Comes here kind rt ((Mail.DeadlineElapsed task).asks here.name host)
      (KameoActor.handle krt here.name (.DeadlineElapsed task)).1
      (KameoActor.handle krt here.name (.DeadlineElapsed task)).2 := by
  obtain ⟨toy, htoy, hseen, haddress, hkind⟩ := h.host host hhost
  have hself : host.address = rt.address here.name := haddress.trans h.address.symm
  by_cases hpending : task ∈ (host.waits task.report.peer).tasks
  · have htracks : Tracks rt krt here.name
        (rt.failExchange here.name toy task.report.peer (.DeadlineElapsed task.report.kind))
        (krt.onDeadlineElapsed host task.report) := by
      rw [KameoRuntime.onDeadlineElapsed_eq, if_pos (hjudged.mpr hpending)]
      exact tracks_failExchange h.beside hseen hself _ _
    have hask : rt.ask (.Elapse here.name task.report.peer task.report.kind) =
        let failed := rt.failExchange here.name toy task.report.peer (.DeadlineElapsed task.report.kind)
        (failed.rt, failed.effects) := by
      simp only [LocalRuntime.ask, htoy]
    rw [Mail.asks, if_pos hpending]
    refine comes_one h.beside ⟨toy, htoy, task.due, hseen.due hpending hreports, h.beside.clock ▸ hover⟩ ?_
    rw [hask]
    exact h.told hhost (fun host => krt.onDeadlineElapsed host task.report) h.beside htracks h.address
      (h.quiet.failExchange htoy _ _) (krt.fixed_onDeadlineElapsed host task.report)
  · -- Its wait is over, so the host ignores it.
    have hstale : krt.onDeadlineElapsed host task.report = ⟨(), krt, host, []⟩ := by
      rw [KameoRuntime.onDeadlineElapsed_eq, if_neg (hpending ∘ hjudged.mp)]
    obtain ⟨entry, hentry, rfl⟩ := Option.map_eq_some_iff.mp hhost
    have hhandled : KameoActor.handle krt here.name (.DeadlineElapsed task) =
        (krt.setHost here.name entry.host, []) := by
      simp only [KameoActor.handle, KameoRuntime.tell, hentry, hstale]
    rw [Mail.asks, if_neg hpending, hhandled]
    refine comes_nil ⟨beside_setHost h.beside _ _, h.address, h.quiet, fun host' hhost' => ?_⟩
    rw [KameoRuntime.setHost_self hentry] at hhost'
    cases hhost'
    exact ⟨toy, htoy, hseen, haddress, hkind⟩

end

/-! ## Every run -/

namespace KameoActor

/-- `late` and `mine` are what is known of the mail: a report was told after its instant, and deliveries are
for this actor. -/
structure Serves (here : Address) (kind : ActorKind) (actor : KameoActor P N Ib) (rt : LocalRuntime P N Ib) :
    Prop where
  twins : Twins here kind rt actor.rt
  name : actor.name = here.name
  holds : Holds actor
  late : ∀ task, .DeadlineElapsed task ∈ actor.mailbox → task.due ≤ actor.rt.clock
  mine : ∀ delivery, .Told (.Deliver delivery) ∈ actor.mailbox → delivery.target = here

/-- Epochs did not wrap around yet. -/
def Young (actor : KameoActor P N Ib) : Prop := ∀ peer, actor.rounds peer < 2 ^ 64

/-- The host takes a command out of its mailbox. -/
def Commanded (kind : ActorKind) (actor : KameoActor P N Ib) (a : Act P N Ib) : Prop :=
  a = .Handle ∧ ∃ mail mailbox, actor.mailbox = mail :: mailbox ∧ mail.Commands kind

theorem not_commanded {kind : ActorKind} (hkind : kind ≠ .Harness) (actor : KameoActor P N Ib)
    (a : Act P N Ib) : ¬ Commanded kind actor a := by
  rintro ⟨-, mail, mailbox, -, hcommands⟩
  rcases mail with (delivery | admitted | revoked | dead) | task
  · exact hkind hcommands.1
  all_goals exact hcommands

variable {here : Address} {kind : ActorKind} {actor : KameoActor P N Ib} {rt : LocalRuntime P N Ib}

@[simp] theorem handled_rt (actor : KameoActor P N Ib) (rt : KameoRuntime P N Ib) (mailbox : List Mail) :
    (actor.handled rt mailbox).rt = rt := by
  unfold handled
  split <;> rfl

section

variable [Party P] [Transport N] [Registry N Ib]

theorem rounds_act (actor : KameoActor P N Ib) (a : Act P N Ib) (peer : Address) :
    (actor.act a).rounds peer ≤ actor.rounds peer + 1 := by
  cases a with
  | Handle =>
    unfold act exec
    dsimp only
    split
    · exact Nat.le_succ _
    · unfold handled
      dsimp only
      split
      · unfold counted
        dsimp only
        split
        · exact Nat.le_succ _
        · exact le_rfl
      · exact Nat.le_succ _
  | Fire task =>
    unfold act exec
    dsimp only
    split <;> exact Nat.le_succ _
  | Tell _ | Stop | Rehash _ | Elsewhere _ => exact Nat.le_succ _

theorem rounds_after (acts : List (Act P N Ib)) (peer : Address) :
    (actor.after acts).rounds peer ≤ actor.rounds peer + acts.length := by
  induction acts generalizing actor with
  | nil => exact le_rfl
  | cons a acts ih =>
    have hfirst := rounds_act actor a peer
    have hrest : (after (actor.act a) acts).rounds peer ≤ (actor.act a).rounds peer + acts.length := ih
    rw [List.length_cons]
    exact hrest.trans (by omega)

theorem name_act (actor : KameoActor P N Ib) (a : Act P N Ib) : (actor.act a).name = actor.name := by
  unfold act exec
  cases a with
  | Handle =>
    dsimp only
    split
    · rfl
    · unfold handled
      split <;> rfl
  | Fire task =>
    dsimp only
    split <;> rfl
  | Tell _ | Stop | Rehash _ | Elsewhere _ => rfl

theorem mem_mailbox_act {a : Act P N Ib} {mail : Mail} (h : mail ∈ (actor.act a).mailbox) :
    mail ∈ actor.mailbox ∨ (∃ told, a = .Tell told ∧ mail = .Told told) ∨
      ∃ task, a = .Fire task ∧ actor.awake task = true ∧ mail = .DeadlineElapsed task := by
  unfold act exec at h
  cases a with
  | Tell told =>
    rcases List.mem_append.mp h with hold | hnew
    · exact Or.inl hold
    · exact Or.inr (Or.inl ⟨told, rfl, List.mem_singleton.mp hnew⟩)
  | Fire task =>
    dsimp only at h
    split at h
    · rename_i hawake
      rcases List.mem_append.mp h with hold | hnew
      · exact Or.inl hold
      · exact Or.inr (Or.inr ⟨task, rfl, hawake, List.mem_singleton.mp hnew⟩)
    · exact Or.inl h
  | Handle =>
    dsimp only at h
    split at h
    · exact Or.inl h
    · rename_i hmailbox
      rw [handled_mailbox] at h
      exact Or.inl (hmailbox ▸ List.mem_cons_of_mem _ h)
  | Stop | Rehash _ | Elsewhere _ => exact Or.inl h

theorem young_along (acts : List (Act P N Ib)) (h : ∀ peer, actor.rounds peer + acts.length < 2 ^ 64) :
    Run.Along act (fun actor _ => Young actor) actor acts := by
  induction acts generalizing actor with
  | nil => trivial
  | cons a acts ih =>
    refine ⟨fun peer => (Nat.le_add_right ..).trans_lt (h peer), ih fun peer => ?_⟩
    have hrounds := rounds_act actor a peer
    have hpeer := h peer
    rw [List.length_cons] at hpeer
    omega

theorem handle_of_none {krt : KameoRuntime P N Ib} {name : ActorName} (h : krt.roster name = none)
    (mail : Mail) : KameoActor.handle krt name mail = (krt, []) := by
  rcases mail with (_ | _ | _ | _) | _ <;> simp only [KameoActor.handle, KameoRuntime.tell, h]

theorem Serves.handle (h : Serves here kind actor rt) (hyoung : Young actor)
    (hplain : ¬ Commanded kind actor .Handle) :
    Comes here kind rt (actor.asks .Handle) (actor.act .Handle).rt (actor.exec .Handle).2 := by
  unfold act exec asks
  dsimp only
  cases hmailbox : actor.mailbox with
  | nil => cases actor.host <;> exact comes_nil h.twins
  | cons mail mailbox =>
    have hmail : mail ∈ actor.mailbox := hmailbox ▸ List.mem_cons_self
    rw [handled_rt]
    cases hhost : actor.host with
    | none =>
      -- Nobody is there any more, so the message is dropped.
      have hnone : actor.rt.roster actor.name = none := Option.map_eq_none_iff.mp hhost
      dsimp only
      rw [handle_of_none hnone mail]
      exact comes_nil h.twins
    | some host =>
      have hhost' : actor.rt.host here.name = some host := h.name ▸ hhost
      simp only [h.name]
      cases mail with
      | Told told =>
        exact comes_told h.twins hhost' told (fun delivery htold => h.mine delivery (htold ▸ hmail))
          fun hcommands => hplain ⟨rfl, _, _, hmailbox, hcommands⟩
      | DeadlineElapsed task =>
        have hsound := h.holds host hhost
        refine comes_elapsed h.twins hhost' hsound.reports (h.late task hmail)
          (hsound.judged hmail ?_)
        exact (hyoung _).trans_le (Nat.le_add_left ..)

/-- It is enough to have a twin of the host. What is known of the mail stays known. -/
theorem Serves.of_twins (h : Serves here kind actor rt) {a : Act P N Ib} (horderly : actor.Orderly a)
    {rt' : LocalRuntime P N Ib} (htwins : Twins here kind rt' (actor.act a).rt)
    (hclock : actor.rt.clock ≤ (actor.act a).rt.clock) : Serves here kind (actor.act a) rt' := by
  have hholds : Holds (actor.act a) := fun host' hhost' => by
    obtain ⟨-, -, hsound, -⟩ := h.holds.act a hhost'
    exact hsound
  refine ⟨htwins, (name_act actor a).trans h.name, hholds, fun task htask => ?_, fun delivery hdelivery => ?_⟩
  · rcases mem_mailbox_act htask with hold | ⟨told, -, hother⟩ | ⟨task', -, hawake, hsame⟩
    · exact (h.late task hold).trans hclock
    · cases hother
    · cases hsame
      obtain ⟨host, -, hawake⟩ := (Option.any_eq_true _ _).mp hawake
      exact (of_decide_eq_true (Bool.and_eq_true_iff.mp hawake).2).trans hclock
  · rcases mem_mailbox_act hdelivery with hold | ⟨told, rfl, hsame⟩ | ⟨task', -, -, hother⟩
    · exact h.mine delivery hold
    · cases hsame
      have haddress : actor.rt.address actor.name = here := by
        rw [← h.twins.address, h.name, KameoRuntime.address, LocalRuntime.address,
          h.twins.beside.endpoint]
      exact horderly.trans haddress
    · cases hother

theorem Serves.act (h : Serves here kind actor rt) (hyoung : Young actor) {a : Act P N Ib}
    (horderly : actor.Orderly a) (hplain : ¬ Commanded kind actor a) :
    Comes here kind rt (actor.asks a) (actor.act a).rt (actor.exec a).2 ∧
      Serves here kind (actor.act a) (rt.afterAsked (actor.asks a)) := by
  have hcomes : Comes here kind rt (actor.asks a) (actor.act a).rt (actor.exec a).2 := by
    have hbeside := h.twins.beside
    cases a with
    | Handle => exact h.handle hyoung hplain
    | Tell told => exact comes_nil h.twins
    | Fire task =>
      unfold KameoActor.act KameoActor.exec
      dsimp only
      split
      · rename_i hawake
        unfold awake at hawake
        obtain ⟨host, hhost, -⟩ := (Option.any_eq_true _ _).mp hawake
        obtain ⟨entry, hentry, rfl⟩ := Option.map_eq_some_iff.mp hhost
        simp only [KameoRuntime.tell, hentry]
        refine comes_nil ⟨beside_setHost hbeside _ _, h.twins.address, h.twins.quiet,
          fun host' hhost' => ?_⟩
        rw [← h.name, KameoRuntime.setHost_self hentry] at hhost'
        cases hhost'
        obtain ⟨toy, htoy, hseen, hrest⟩ := h.twins.host entry.host (h.name ▸ hhost)
        exact ⟨toy, htoy, hseen.abort [task], hrest⟩
      · exact comes_nil h.twins
    | Stop =>
      refine comes_nil ⟨?_, h.twins.address, h.twins.quiet, fun host' hhost' => ?_⟩
      · simp only [KameoActor.act, KameoActor.exec, KameoRuntime.stop]
        split <;> exact ⟨hbeside.endpoint, hbeside.net, hbeside.clock, hbeside.observer⟩
      · have hnone : (actor.rt.stop here.name).2.host here.name = none := host_stop here.name
        rw [KameoActor.act, KameoActor.exec, h.name, hnone] at hhost'
        cases hhost'
    | Rehash conversations =>
      unfold KameoActor.act KameoActor.exec
      dsimp only
      cases hentry : actor.rt.roster actor.name with
      | none =>
        simp only [KameoRuntime.tell, hentry]
        exact comes_nil h.twins
      | some entry =>
        obtain ⟨arranged, hlookup, hrehash⟩ := actor.rt.onRehash_cases entry.host conversations
        simp only [KameoRuntime.tell, hentry, hrehash]
        refine comes_nil ⟨beside_setHost hbeside _ _, h.twins.address, h.twins.quiet,
          fun host' hhost' => ?_⟩
        rw [← h.name, KameoRuntime.setHost_self hentry] at hhost'
        cases hhost'
        have hhost : actor.rt.host here.name = some entry.host := by
          rw [← h.name, KameoRuntime.host, hentry]
          rfl
        obtain ⟨toy, htoy, hseen, hrest⟩ := h.twins.host entry.host hhost
        exact ⟨toy, htoy, ⟨hseen.allowlist, hseen.kind, hseen.deadlines, hseen.party, fun peer => by
          rw [hseen.lookup, hlookup]⟩, hrest⟩
    | Elsewhere world =>
      refine ⟨rfl, ⟨⟨?_, rfl, rfl, rfl⟩, h.twins.address, h.twins.quiet, fun host' hhost' => ?_⟩,
        ⟨trivial, trivial, trivial⟩, ?_⟩
      · exact hbeside.endpoint.trans horderly.1.symm
      · have hroster : (actor.act (.Elsewhere world)).rt.roster actor.name = actor.rt.roster actor.name :=
          Function.update_self ..
        refine h.twins.host host' ?_
        rw [← hhost', ← h.name, KameoRuntime.host, KameoRuntime.host, hroster]
      · rw [hbeside.clock]
        exact horderly.2
  exact ⟨hcomes, h.of_twins horderly hcomes.twins (h.twins.beside.clock ▸ hcomes.clock)⟩

theorem Serves.run (h : Serves here kind actor rt) (hkind : kind ≠ .Harness) (acts : List (Act P N Ib))
    (hshort : ∀ peer, actor.rounds peer + acts.length < 2 ^ 64)
    (horderly : Run.Along KameoActor.act Orderly actor acts) :
    rt.effectsAsked (actor.serial acts) = actor.effects acts ∧
      Serves here kind (actor.after acts) (rt.afterAsked (actor.serial acts)) ∧
      Run.Along (fun rt asked => (LocalRuntime.ask rt asked).1) LocalRuntime.Overdue rt
        (actor.serial acts) := by
  have hok : Run.Along KameoActor.act (fun actor a => Young actor ∧ actor.Orderly a) actor acts :=
    (Run.along_and KameoActor.act actor acts).mpr ⟨young_along acts hshort, horderly⟩
  obtain ⟨heffects, hafter, hoverdue⟩ := Run.simulation_answered exec LocalRuntime.ask asks
    (fun actor rt a h hok => by
      obtain ⟨hcomes, hnext⟩ := Serves.act h hok.1 hok.2 (not_commanded hkind actor a)
      exact ⟨hcomes.effects.symm, hnext, hcomes.overdue⟩) actor rt acts h hok
  exact ⟨heffects.symm, hafter, hoverdue⟩

omit [Party P] [Transport N] in
theorem host_installed {krt : KameoRuntime P N Ib} {name : ActorName} {allowlist : Allowlist}
    {deadlines : Deadlines} {kind : ActorKind} {party : Option (Boxed P)}
    (hinstalled : (krt.installInner name allowlist deadlines kind party).1 = .ok ()) :
    (krt.installInner name allowlist deadlines kind party).2.host name =
      some (.new (krt.address name) allowlist kind deadlines party) := by
  unfold KameoRuntime.installInner at hinstalled ⊢
  split at hinstalled
  · cases hinstalled
  · rename_i hfree
    rw [if_neg hfree]
    split at hinstalled
    · cases hinstalled
    · rename_i inbox net hbind
      simp only [KameoRuntime.host, KameoRuntime.setEntry_self, Option.map_some]

omit [Party P] [Transport N] in
theorem serves_installed {krt : KameoRuntime P N Ib} (hbeside : Beside rt krt)
    (haddress : rt.address here.name = here) (hactor : rt.actors here.name = none)
    (hentry : krt.roster here.name = none) {allowlist : Allowlist} {deadlines : Deadlines}
    {kind : ActorKind} {party : Option (Boxed P)}
    (hinstalled : (krt.installInner here.name allowlist deadlines kind party).1 = .ok ()) :
    Serves here kind (start here.name (krt.installInner here.name allowlist deadlines kind party).2)
      (rt.installInner here.name allowlist deadlines kind party).rt := by
  have hrefines : Refines here _ _ :=
    refines_installInner hbeside haddress hactor hentry allowlist deadlines kind party
  refine ⟨⟨hrefines.beside, hrefines.address, hrefines.quiet, fun host hhost => ?_⟩, rfl,
    holds_installed hinstalled, fun _ h => (List.not_mem_nil h).elim, fun _ h => (List.not_mem_nil h).elim⟩
  have hnew : (krt.installInner here.name allowlist deadlines kind party).2.host here.name =
      some (.new (krt.address here.name) allowlist kind deadlines party) := host_installed hinstalled
  rw [start, hnew] at hhost
  cases hhost
  obtain ⟨entry, hroster, hhost⟩ := Option.map_eq_some_iff.mp hnew
  have hhosts := hrefines.hosts
  rw [hroster] at hhosts
  generalize (rt.installInner here.name allowlist deadlines kind party).rt.actors here.name = toy at *
  rcases hhosts with ⟨hseen, haddress', -⟩ | _
  rw [hhost] at hseen haddress'
  exact ⟨_, rfl, hseen, haddress', rfl⟩

/-- However the messages, the timers and the handlers of a Kameo host interleave, what it does, if it is no
harness, is what the toy runtime does when it is asked for the same one after another: the calls in the order
of the mailbox, and each deadline when its report is handled. No deadline comes before its instant, and none
comes that was settled. The effects are the same in the same order, and so are the allowlist, the party, the
turn machines and the pending waits at the end. -/
theorem concurrent_is_serial {krt : KameoRuntime P N Ib} (hbeside : Beside rt krt)
    (haddress : rt.address here.name = here) (hactor : rt.actors here.name = none)
    (hentry : krt.roster here.name = none) (allowlist : Allowlist) (deadlines : Deadlines)
    (kind : ActorKind) (party : Option (Boxed P)) (hkind : kind ≠ .Harness)
    (hinstalled : (krt.installInner here.name allowlist deadlines kind party).1 = .ok ())
    (acts : List (Act P N Ib)) (hshort : acts.length < 2 ^ 64) :
    let rt := (rt.installInner here.name allowlist deadlines kind party).rt
    let actor := start here.name (krt.installInner here.name allowlist deadlines kind party).2
    let serial := actor.serial acts
    Run.Along act Orderly actor acts →
      rt.effectsAsked serial = actor.effects acts ∧
      Run.Along (fun rt asked => (LocalRuntime.ask rt asked).1) LocalRuntime.Overdue rt serial ∧
      ∀ host, (actor.after acts).host = some host →
        ∃ toy, (rt.afterAsked serial).actors here.name = some toy ∧ Seen toy host := by
  intro rt actor serial horderly
  have hserves : Serves here kind actor rt :=
    serves_installed hbeside haddress hactor hentry hinstalled
  have hshort' : ∀ peer, actor.rounds peer + acts.length < 2 ^ 64 := fun peer => by
    rwa [show actor.rounds peer = 0 from rfl, Nat.zero_add]
  obtain ⟨heffects, hafter, hoverdue⟩ := hserves.run hkind acts hshort' horderly
  refine ⟨heffects, hoverdue, fun host hhost => ?_⟩
  obtain ⟨toy, htoy, hseen, -⟩ := hafter.twins.host host (hafter.name ▸ hhost)
  exact ⟨toy, htoy, hseen⟩

end

section

open Sample

/-- Both timers of Alice's exchange wake before the host comes to the first report, which fails the
exchange. The second one comes to nothing. -/
theorem concurrent_is_serial_late :
    let party : Option (Boxed CountdownParty) := some (.app (.new 2))
    let rt := ((LocalRuntime.new bob.endpoint (Shared.new.register alice).2 0 patience :
      LocalRuntime CountdownParty Shared MemoryInbox).installInner bob.name ⟨{alice.endpoint}⟩ patience
        .Plain party).rt
    let krt := ((KameoRuntime.new bob.endpoint (Shared.new.register alice).2 0 patience :
      KameoRuntime CountdownParty Shared MemoryInbox).installInner bob.name ⟨{alice.endpoint}⟩ patience
        .Plain party).2
    let acts : List (Act CountdownParty Shared MemoryInbox) :=
      [.Tell (.Deliver ⟨alice, bob, .Turn (.Open (request 1))⟩), .Handle,
        .Elsewhere fun rt => { rt with clock := 70 },
        .Fire ⟨0, 5, ⟨alice, .Ack, some ⟨Vector.replicate 16 100⟩, 1⟩⟩,
        .Fire ⟨1, 60, ⟨alice, .Turn, none, 1⟩⟩, .Handle, .Handle]
    let serial := (start bob.name krt).serial acts
    serial.length = 4 ∧ rt.effectsAsked serial = (start bob.name krt).effects acts := by
  intro party rt krt acts serial
  have hbeside : Beside
      (LocalRuntime.new bob.endpoint (Shared.new.register alice).2 0 patience :
        LocalRuntime CountdownParty Shared MemoryInbox)
      (KameoRuntime.new bob.endpoint (Shared.new.register alice).2 0 patience) := ⟨rfl, rfl, rfl, rfl⟩
  have horderly : Run.Along act Orderly (start bob.name krt) acts := by decide +kernel
  have hserial := @concurrent_is_serial _ _ _ bob _ _ _ _ _ hbeside rfl rfl rfl ⟨{alice.endpoint}⟩ patience
    .Plain party (by decide) rfl acts (by decide) horderly
  exact ⟨by decide +kernel, hserial.1⟩

end

end KameoActor

end Kamiroh
