import Kamiroh.Kameo.Timers

/-!
# A host beside its timer tasks

A task that wakes queues its report, and the host handles what is queued, one message at a time. What
happens while a handler runs is, for the host, as if it had happened before the handler or after it.
-/

namespace Kamiroh

/-- What others tell a host. -/
inductive Told
  | Deliver (delivery : Delivery)
  | Admit (endpoint : EndpointId)
  | Revoke (endpoint : EndpointId)
  | PeerDied (endpoint : EndpointId)
deriving DecidableEq

/-- A report lies in the mailbox with the task that sent it, of which the host sees the report only. -/
inductive Mail
  | Told (told : Told)
  | DeadlineElapsed (task : Task)
deriving DecidableEq

/-- A task sleeps until its report is in the mailbox. The last two fields are history: how often the epoch
of a conversation moved on, and how often it had when a task was armed. -/
structure KameoActor (P N Ib : Type) where
  rt : KameoRuntime P N Ib
  name : ActorName
  mailbox : List Mail
  rounds : Address → Nat
  armed : Task → Nat

variable {P N Ib : Type}

def KameoRuntime.host (rt : KameoRuntime P N Ib) (name : ActorName) : Option (Host P) :=
  (rt.roster name).map (·.host)

namespace KameoActor

/-- `Fire` is a task that wakes, `Handle` is the host that takes the first message. `Elsewhere` is
whatever others do to the network and to the rest of the runtime while time passes. -/
inductive Act (P N Ib : Type)
  | Tell (told : Told)
  | Fire (task : Task)
  | Handle
  | Stop
  | Rehash (conversations : Assoc Address PeerWaits)
  | Elsewhere (world : KameoRuntime P N Ib → KameoRuntime P N Ib)

def host (actor : KameoActor P N Ib) : Option (Host P) := actor.rt.host actor.name

def awake (actor : KameoActor P N Ib) (task : Task) : Bool :=
  actor.host.any fun host => task ∈ host.sleeping && task.due ≤ actor.rt.clock

/-- The rounds after a handler that found `host` and left `host'`. It moves an epoch on once at most, see
`Host.Tends`. -/
def counted (actor : KameoActor P N Ib) (host host' : Host P) (peer : Address) : Nat :=
  if (host'.waits peer).epoch = (host.waits peer).epoch then actor.rounds peer
  else actor.rounds peer + 1

/-- The actor after a handler that left `rt`. -/
def handled (actor : KameoActor P N Ib) (rt : KameoRuntime P N Ib) (mailbox : List Mail) :
    KameoActor P N Ib :=
  match actor.host, rt.host actor.name with
  | some host, some host' =>
    { actor with
      rt
      mailbox
      rounds := actor.counted host host'
      armed := fun task =>
        if task.id < host.spawned then actor.armed task
        else actor.counted host host' task.report.peer }
  | _, _ => { actor with rt, mailbox }

variable [Party P] [Transport N] [Registry N Ib]

def handle (rt : KameoRuntime P N Ib) (name : ActorName) :
    Mail → KameoRuntime P N Ib × List Effect
  | .Told (.Deliver delivery) => rt.tell name fun host => rt.onDeliver host delivery
  | .Told (.Admit endpoint) => rt.tell name fun host => rt.onAdmit host endpoint
  | .Told (.Revoke endpoint) => rt.tell name fun host => rt.onRevoke host endpoint
  | .Told (.PeerDied endpoint) => rt.tell name fun host => rt.onPeerDied host endpoint
  | .DeadlineElapsed task => rt.tell name fun host => rt.onDeadlineElapsed host task.report

def exec (actor : KameoActor P N Ib) : Act P N Ib → KameoActor P N Ib × List Effect
  | .Tell told => ({ actor with mailbox := actor.mailbox ++ [.Told told] }, [])
  | .Fire task =>
    if actor.awake task then
      let woken := actor.rt.tell actor.name fun host =>
        (⟨(), actor.rt, host.abort [task], []⟩ : Handled P N Ib Unit)
      ({ actor with rt := woken.1, mailbox := actor.mailbox ++ [.DeadlineElapsed task] }, woken.2)
    else (actor, [])
  | .Handle =>
    match actor.mailbox with
    | [] => (actor, [])
    | mail :: mailbox =>
      let done := handle actor.rt actor.name mail
      (actor.handled done.1 mailbox, done.2)
  | .Stop => ({ actor with rt := (actor.rt.stop actor.name).2 }, [])
  | .Rehash conversations =>
    let rehashed := actor.rt.tell actor.name fun host => actor.rt.onRehash host conversations
    ({ actor with rt := rehashed.1 }, rehashed.2)
  | .Elsewhere world =>
    -- Nobody else holds this host, so its entry stays what it is.
    let rt := world actor.rt
    let roster := Function.update rt.roster actor.name (actor.rt.roster actor.name)
    ({ actor with rt := { rt with roster } }, [])

def act (actor : KameoActor P N Ib) (a : Act P N Ib) : KameoActor P N Ib := (actor.exec a).1

def after (actor : KameoActor P N Ib) (acts : List (Act P N Ib)) : KameoActor P N Ib :=
  Run.after act actor acts

omit [Party P] [Transport N] [Registry N Ib] in
def start (name : ActorName) (rt : KameoRuntime P N Ib) : KameoActor P N Ib :=
  ⟨rt, name, [], fun _ => 0, fun _ => 0⟩

end KameoActor

/-! ## One report -/

namespace PeerWaits

variable {waits : PeerWaits} {peer : Address}

theorem Reporting.epoch (h : waits.Reporting peer) {task : Task} (htask : task ∈ waits.tasks) :
    task.report.epoch = waits.epoch := by
  rcases mem_tasks.mp htask with ⟨id, hack⟩ | hturn
  · rw [h.ack hack]
  · rw [h.turn hturn]

theorem Reporting.eq_of_kind (h : waits.Reporting peer) {task other : Task} (htask : task ∈ waits.tasks)
    (hother : other ∈ waits.tasks) (hkind : other.report.kind = task.report.kind) : other = task := by
  rcases mem_tasks.mp htask with ⟨id, hack⟩ | hturn <;>
    rcases mem_tasks.mp hother with ⟨id', hack'⟩ | hturn'
  · rw [hack] at hack'
    cases hack'
    rfl
  · rw [h.ack hack, h.turn hturn'] at hkind
    cases hkind
  · rw [h.turn hturn, h.ack hack'] at hkind
    cases hkind
  · rw [hturn] at hturn'
    cases hturn'
    rfl

theorem Reporting.of_stillPending (h : waits.Reporting peer) {report : DeadlineElapsed}
    (hpending : KameoRuntime.stillPending waits report = true) :
    report.epoch = waits.epoch ∧ ∃ task ∈ waits.tasks, task.report.kind = report.kind := by
  obtain ⟨peer', kind, ackId, epoch⟩ := report
  obtain ⟨hepoch, hwait⟩ := Bool.and_eq_true_iff.mp hpending
  refine ⟨of_decide_eq_true hepoch, ?_⟩
  cases kind with
  | Turn =>
    obtain ⟨task, hturn⟩ := Option.isSome_iff_exists.mp hwait
    exact ⟨task, mem_tasks.mpr (Or.inr hturn), by rw [h.turn hturn]⟩
  | Ack =>
    cases ackId with
    | none => cases hwait
    | some id =>
      obtain ⟨ack, hack, -⟩ := (Option.any_eq_true _ _).mp hwait
      exact ⟨ack.2, mem_tasks.mpr (Or.inl ⟨ack.1, hack⟩), by rw [h.ack hack]⟩

end PeerWaits

/-- Epochs wrap around. -/
theorem epoch_inj {a b : Nat} (h : UInt64.ofNat a = UInt64.ofNat b) (hle : a ≤ b) (hnear : b < a + 2 ^ 64) :
    a = b := by
  have hmod := congrArg UInt64.toNat h
  rw [UInt64.toNat_ofNat', UInt64.toNat_ofNat'] at hmod
  omega

namespace KameoRuntime

variable [Party P] {host : Host P}

theorem failExchange_tasks (rt : KameoRuntime P N Ib) (host : Host P) (peer : Address)
    (cause : FailureCause) : ((rt.failExchange host peer cause).1.waits peer).tasks = [] := by
  rw [failExchange_waits, Host.update]
  split
  · rw [Host.waits_setWaits_self]
    rfl
  · rename_i hnone
    rw [Host.waits, hnone]
    rfl

omit [Party P] in
@[simp] theorem stillPending_default (report : DeadlineElapsed) : stillPending default report = false := by
  obtain ⟨peer, kind, ackId, epoch⟩ := report
  cases kind <;> cases ackId <;> simp [stillPending, default]

theorem onDeadlineElapsed_eq (rt : KameoRuntime P N Ib) (host : Host P) (report : DeadlineElapsed) :
    rt.onDeadlineElapsed host report =
      if stillPending (host.waits report.peer) report then
        let failed := rt.failExchange host report.peer (.DeadlineElapsed report.kind)
        ⟨(), rt, failed.1, failed.2⟩
      else ⟨(), rt, host, []⟩ := by
  unfold onDeadlineElapsed
  cases hpeer : host.conversations.lookup report.peer with
  | some waits => simp only [Host.waits, hpeer, Option.getD_some]
  | none =>
    simp only [Host.waits, hpeer, Option.getD_none, stillPending_default, Bool.false_eq_true, if_false]

theorem onDeadlineElapsed_spent (rt : KameoRuntime P N Ib) (h : host.Reports) (task : Task) :
    task ∉ ((rt.onDeadlineElapsed host task.report).host.waits task.report.peer).tasks := by
  rw [onDeadlineElapsed_eq]
  split
  · rw [failExchange_tasks]
    exact List.not_mem_nil
  · rename_i hstale
    exact fun hpending => hstale ((h task.report.peer).stillPending hpending)

end KameoRuntime

/-! ## What is known of the tasks -/

namespace KameoActor

/-- `latest` says of a report of the current round that the wait of its kind, if there is one, is its own. -/
structure Sound (actor : KameoActor P N Ib) (host : Host P) : Prop where
  reports : host.Reports
  epoch : ∀ peer, (host.waits peer).epoch = UInt64.ofNat (actor.rounds peer)
  sleeping : ∀ task ∈ host.sleeping, task ∈ (host.waits task.report.peer).tasks
  pending : ∀ peer, ∀ task ∈ (host.waits peer).tasks,
    task ∈ host.sleeping ∨ .DeadlineElapsed task ∈ actor.mailbox
  current : ∀ peer, ∀ task ∈ (host.waits peer).tasks,
    task.id < host.spawned ∧ actor.armed task = actor.rounds peer
  queued : ∀ task, .DeadlineElapsed task ∈ actor.mailbox → task.id < host.spawned ∧
    task.report.epoch = UInt64.ofNat (actor.armed task) ∧
    actor.armed task ≤ actor.rounds task.report.peer
  latest : ∀ task, .DeadlineElapsed task ∈ actor.mailbox →
    actor.armed task = actor.rounds task.report.peer →
    ∀ other ∈ (host.waits task.report.peer).tasks, other.report.kind = task.report.kind → other = task

variable {actor : KameoActor P N Ib} {host host' : Host P} {task : Task}

theorem Sound.judged (h : Sound actor host) (hqueued : .DeadlineElapsed task ∈ actor.mailbox)
    (hnear : actor.rounds task.report.peer < actor.armed task + 2 ^ 64) :
    KameoRuntime.stillPending (host.waits task.report.peer) task.report = true ↔
      task ∈ (host.waits task.report.peer).tasks := by
  have hreports := h.reports task.report.peer
  refine ⟨fun hpending => ?_, hreports.stillPending⟩
  obtain ⟨hepoch, other, hother, hkind⟩ := hreports.of_stillPending hpending
  obtain ⟨-, hreport, hle⟩ := h.queued task hqueued
  rw [hreport, h.epoch] at hepoch
  have hround := epoch_inj hepoch hle hnear
  exact h.latest task hqueued hround other hother hkind ▸ hother

theorem sound_start (name : ActorName) {rt : KameoRuntime P N Ib} (hwaits : ∀ peer, host.waits peer = default)
    (hsleeping : host.sleeping = []) : Sound (start name rt) host where
  reports peer := PeerWaits.reporting_of_unarmed peer (by rw [hwaits]; rfl)
  epoch peer := by rw [hwaits]; rfl
  sleeping task htask := by simp [hsleeping] at htask
  pending peer task htask := by simp [hwaits] at htask
  current peer task htask := by simp [hwaits] at htask
  queued task htask := nomatch htask
  latest task htask := nomatch htask

/-! ### A handler -/

theorem counted_kept (h : Host.Kept host host' peer) : actor.counted host host' peer = actor.rounds peer :=
  if_pos h.epoch

theorem counted_renewed {peer : Address} (h : Host.Renewed host host' peer) :
    actor.counted host host' peer = actor.rounds peer + 1 := by
  refine if_neg fun hsame => ?_
  rw [h.epoch] at hsame
  simp at hsame

theorem rounds_le_counted (peer : Address) : actor.rounds peer ≤ actor.counted host host' peer := by
  unfold counted
  split
  · exact le_rfl
  · exact Nat.le_succ _

section

variable (hhost : actor.host = some host) {rt : KameoRuntime P N Ib}
  (hhost' : rt.host actor.name = some host') (mailbox : List Mail)

include hhost hhost'

theorem handled_rounds (peer : Address) :
    (actor.handled rt mailbox).rounds peer = actor.counted host host' peer := by
  simp only [KameoActor.handled, hhost, hhost']

theorem handled_armed_of_lt (hid : task.id < host.spawned) :
    (actor.handled rt mailbox).armed task = actor.armed task := by
  simp only [KameoActor.handled, hhost, hhost', if_pos hid]

theorem handled_armed_of_le (hid : host.spawned ≤ task.id) :
    (actor.handled rt mailbox).armed task = actor.counted host host' task.report.peer := by
  simp only [KameoActor.handled, hhost, hhost', if_neg hid.not_gt]

end

@[simp] theorem handled_mailbox (actor : KameoActor P N Ib) (rt : KameoRuntime P N Ib)
    (mailbox : List Mail) : (actor.handled rt mailbox).mailbox = mailbox := by
  unfold KameoActor.handled
  split <;> rfl

theorem Sound.handled (h : Sound actor host) (hhost : actor.host = some host)
    {rt : KameoRuntime P N Ib} (hhost' : rt.host actor.name = some host') (htends : Host.Tends host host')
    {mail : Mail} {mailbox : List Mail} (hmailbox : actor.mailbox = mail :: mailbox)
    (hspent : ∀ task, mail = .DeadlineElapsed task → task ∉ (host'.waits task.report.peer).tasks) :
    Sound (actor.handled rt mailbox) host' := by
  have hrounds := handled_rounds hhost hhost' mailbox
  have hold : ∀ task : Task, task.id < host.spawned →
      (actor.handled rt mailbox).armed task = actor.armed task :=
    fun _ => handled_armed_of_lt hhost hhost' mailbox
  have hmail : ∀ task, .DeadlineElapsed task ∈ (actor.handled rt mailbox).mailbox →
      .DeadlineElapsed task ∈ actor.mailbox := fun task htask => by
    rw [handled_mailbox] at htask
    exact hmailbox ▸ List.mem_cons_of_mem mail htask
  refine ⟨htends.reports, fun peer => ?_, fun task htask => ?_, fun peer task htask => ?_,
    fun peer task htask => ?_, fun task htask => ?_, fun task htask hround other hother hkind => ?_⟩
  · rw [hrounds]
    rcases htends.each peer with hkept | hrenewed
    · rw [counted_kept hkept, hkept.epoch]
      exact h.epoch peer
    · rw [counted_renewed hrenewed, hrenewed.epoch, h.epoch, UInt64.ofNat_add]
      rfl
  · rcases htends.each task.report.peer with hkept | hrenewed
    · obtain ⟨hslept, hstill⟩ := (hkept.sleeping task rfl).mp htask
      exact hstill (h.sleeping task hslept)
    · rcases (hrenewed.sleeping task rfl).mp htask with ⟨hslept, hnot⟩ | hnew
      · exact absurd (h.sleeping task hslept) hnot
      · exact hnew
  · have hpeer : task.report.peer = peer := (htends.reports peer).peer htask
    rw [handled_mailbox]
    rcases htends.each peer with hkept | hrenewed
    · rcases h.pending peer task (hkept.tasks task htask) with hslept | hmail
      · exact Or.inl ((hkept.sleeping task hpeer).mpr ⟨hslept, fun _ => htask⟩)
      · rw [hmailbox] at hmail
        rcases List.mem_cons.mp hmail with hhead | hrest
        · exact absurd (hpeer ▸ htask) (hspent task hhead.symm)
        · exact Or.inr hrest
    · exact Or.inl ((hrenewed.sleeping task hpeer).mpr (Or.inr htask))
  · have hpeer : task.report.peer = peer := (htends.reports peer).peer htask
    rw [hrounds]
    rcases htends.each peer with hkept | hrenewed
    · obtain ⟨hid, hround⟩ := h.current peer task (hkept.tasks task htask)
      exact ⟨hid.trans_le htends.spawned, by rw [hold task hid, hround, counted_kept hkept]⟩
    · obtain ⟨hnew, hid⟩ := hrenewed.tasks task htask
      exact ⟨hid, by rw [handled_armed_of_le hhost hhost' mailbox hnew, hpeer]⟩
  · obtain ⟨hid, hreport, hle⟩ := h.queued task (hmail task htask)
    rw [hold task hid, hrounds]
    exact ⟨hid.trans_le htends.spawned, hreport, hle.trans (rounds_le_counted _)⟩
  · obtain ⟨hid, -, hle⟩ := h.queued task (hmail task htask)
    rw [hold task hid, hrounds] at hround
    rcases htends.each task.report.peer with hkept | hrenewed
    · rw [counted_kept hkept] at hround
      exact h.latest task (hmail task htask) hround other (hkept.tasks other hother) hkind
    · rw [counted_renewed hrenewed] at hround
      omega

/-! ### The other steps -/

theorem Sound.congr (h : Sound actor host) {rt : KameoRuntime P N Ib} {mailbox : List Mail}
    (hwaits : ∀ peer, host'.waits peer = host.waits peer) (hsleeping : host'.sleeping = host.sleeping)
    (hspawned : host'.spawned = host.spawned)
    (hmail : ∀ task, .DeadlineElapsed task ∈ mailbox ↔ .DeadlineElapsed task ∈ actor.mailbox) :
    Sound { actor with rt, mailbox } host' := by
  refine ⟨fun peer => ?_, fun peer => ?_, fun task => ?_, fun peer task => ?_, fun peer task => ?_,
    fun task => ?_, fun task => ?_⟩ <;> simp only [hwaits, hsleeping, hspawned, hmail]
  · exact h.reports peer
  · exact h.epoch peer
  · exact h.sleeping task
  · exact h.pending peer task
  · exact h.current peer task
  · exact h.queued task
  · exact h.latest task

theorem sleeping_of_awake (hhost : actor.host = some host) (hawake : actor.awake task = true) :
    task ∈ host.sleeping := by
  unfold awake at hawake
  rw [hhost] at hawake
  exact of_decide_eq_true (Bool.and_eq_true_iff.mp hawake).1

theorem Sound.fire (h : Sound actor host) (htask : task ∈ host.sleeping) (rt : KameoRuntime P N Ib) :
    Sound { actor with rt, mailbox := actor.mailbox ++ [.DeadlineElapsed task] } (host.abort [task]) := by
  have hpending := h.sleeping task htask
  have hmail : ∀ other, .DeadlineElapsed other ∈ actor.mailbox ++ [.DeadlineElapsed task] →
      .DeadlineElapsed other ∈ actor.mailbox ∨ other = task := fun other hother => by
    rcases List.mem_append.mp hother with hother | hother
    · exact Or.inl hother
    · cases List.mem_singleton.mp hother
      exact Or.inr rfl
  refine { h with
    sleeping := fun other hother => h.sleeping other (List.mem_of_mem_filter hother)
    pending := fun peer other hother => ?_, queued := fun other hother => ?_,
    latest := fun other hother hround => ?_ }
  · rcases h.pending peer other hother with hslept | hqueued
    · by_cases hsame : other = task
      · exact Or.inr (List.mem_append_right _ (hsame ▸ List.mem_singleton.mpr rfl))
      · exact Or.inl (List.mem_filter.mpr ⟨hslept, by simpa using hsame⟩)
    · exact Or.inr (List.mem_append_left _ hqueued)
  · rcases hmail other hother with hqueued | rfl
    · exact h.queued other hqueued
    · obtain ⟨hid, hround⟩ := h.current _ other hpending
      refine ⟨hid, ?_, hround.le⟩
      rw [hround, ← h.epoch]
      exact (h.reports _).epoch hpending
  · rcases hmail other hother with hqueued | rfl
    · exact h.latest other hqueued hround
    · exact fun another hanother hkind => (h.reports _).eq_of_kind hpending hanother hkind

/-! ### One step -/

/-- The wait that the task was armed for is not pending any more. -/
def Gone (task : Task) (host : Host P) : Prop :=
  task.id < host.spawned ∧ task ∉ (host.waits task.report.peer).tasks

theorem Gone.tends (h : Gone task host) (htends : Host.Tends host host') : Gone task host' := by
  refine ⟨h.1.trans_le htends.spawned, fun hpending => ?_⟩
  rcases htends.each task.report.peer with hkept | hrenewed
  · exact h.2 (hkept.tasks task hpending)
  · exact absurd h.1 (hrenewed.tasks task hpending).1.not_gt

theorem host_tell {α : Type} {rt : KameoRuntime P N Ib} {name : ActorName}
    {handler : Host P → Handled P N Ib α} (h : (rt.tell name handler).1.host name = some host') :
    ∃ host, rt.host name = some host ∧ host' = (handler host).host := by
  unfold KameoRuntime.tell at h
  split at h
  · rename_i entry hentry
    refine ⟨entry.host, congrArg (Option.map Entry.host) hentry, ?_⟩
    unfold KameoRuntime.setHost at h
    dsimp only at h
    split at h
    · rw [KameoRuntime.host, KameoRuntime.setEntry_self] at h
      cases h
      rfl
    · rename_i hnone
      rw [KameoRuntime.host, hnone] at h
      cases h
  · rename_i hnone
    rw [KameoRuntime.host, hnone] at h
    cases h

variable [Party P] [Transport N] [Registry N Ib]

theorem handle_tends {rt : KameoRuntime P N Ib} {name : ActorName} {mail : Mail}
    (h : (handle rt name mail).1.host name = some host') :
    ∃ host, rt.host name = some host ∧ (host.Reports → Host.Tends host host' ∧
      ∀ task, mail = .DeadlineElapsed task → task ∉ (host'.waits task.report.peer).tasks) := by
  cases mail with
  | Told told =>
    cases told with
    | Deliver delivery =>
      obtain ⟨host, hhost, rfl⟩ := host_tell h
      exact ⟨host, hhost, fun hreports => ⟨rt.tends_onDeliver hreports delivery, nofun⟩⟩
    | Admit endpoint =>
      obtain ⟨host, hhost, rfl⟩ := host_tell h
      exact ⟨host, hhost, fun hreports => ⟨(rt.calm_onAdmit hreports endpoint).tends, nofun⟩⟩
    | Revoke endpoint =>
      obtain ⟨host, hhost, rfl⟩ := host_tell h
      exact ⟨host, hhost, fun hreports => ⟨rt.tends_onRevoke hreports endpoint, nofun⟩⟩
    | PeerDied endpoint =>
      obtain ⟨host, hhost, rfl⟩ := host_tell h
      exact ⟨host, hhost, fun hreports => ⟨rt.tends_onPeerDied hreports endpoint, nofun⟩⟩
  | DeadlineElapsed task =>
    obtain ⟨host, hhost, rfl⟩ := host_tell h
    refine ⟨host, hhost, fun hreports => ⟨rt.tends_onDeadlineElapsed hreports task.report, ?_⟩⟩
    rintro _ ⟨⟩
    exact rt.onDeadlineElapsed_spent hreports task

omit [Party P] [Transport N] [Registry N Ib] in
theorem host_stop {rt : KameoRuntime P N Ib} (name : ActorName) : (rt.stop name).2.host name = none := by
  unfold KameoRuntime.stop
  split
  · simp [KameoRuntime.host]
  · rename_i hnone
    rw [KameoRuntime.host, hnone]
    rfl

omit [Party P] [Transport N] [Registry N Ib] in
@[simp] theorem handled_host (actor : KameoActor P N Ib) (rt : KameoRuntime P N Ib)
    (mailbox : List Mail) : (actor.handled rt mailbox).host = rt.host actor.name := by
  unfold KameoActor.handled
  split <;> rfl

theorem exec_handle {mail : Mail} {mailbox : List Mail} (hmailbox : actor.mailbox = mail :: mailbox) :
    actor.exec .Handle =
      (actor.handled (handle actor.rt actor.name mail).1 mailbox, (handle actor.rt actor.name mail).2) := by
  simp only [exec, hmailbox]

def Holds (actor : KameoActor P N Ib) : Prop := ∀ host, actor.host = some host → Sound actor host

theorem Holds.act (h : Holds actor) (a : Act P N Ib) (hhost' : (actor.act a).host = some host') :
    ∃ host, actor.host = some host ∧ Sound (actor.act a) host' ∧ ∀ task, Gone task host → Gone task host' := by
  cases a with
  | Tell told =>
    refine ⟨host', hhost', (h host' hhost').congr (fun _ => rfl) rfl rfl fun task => ?_, fun _ => id⟩
    simp
  | Fire task =>
    unfold KameoActor.act KameoActor.exec at hhost' ⊢
    dsimp only at hhost' ⊢
    split at hhost'
    · rename_i hawake
      obtain ⟨host, hhost, rfl⟩ := host_tell hhost'
      rw [if_pos hawake]
      exact ⟨host, hhost, (h host hhost).fire (sleeping_of_awake hhost hawake) _, fun _ => id⟩
    · rename_i hasleep
      rw [if_neg hasleep]
      exact ⟨host', hhost', h host' hhost', fun _ => id⟩
  | Handle =>
    unfold KameoActor.act KameoActor.exec at hhost' ⊢
    dsimp only at hhost' ⊢
    split at hhost'
    · exact ⟨host', hhost', h host' hhost', fun _ => id⟩
    · rename_i mail mailbox hmailbox
      dsimp only at hhost'
      rw [handled_host] at hhost'
      obtain ⟨host, hhost, htends⟩ := handle_tends hhost'
      obtain ⟨htends, hspent⟩ := htends (h host hhost).reports
      exact ⟨host, hhost, (h host hhost).handled hhost hhost' htends hmailbox hspent,
        fun task hgone => hgone.tends htends⟩
  | Stop =>
    have hnone : (actor.act .Stop).host = none := host_stop actor.name
    rw [hnone] at hhost'
    cases hhost'
  | Rehash conversations =>
    obtain ⟨host, hhost, rfl⟩ := host_tell hhost'
    obtain ⟨arranged, hlookup, hrehash⟩ := actor.rt.onRehash_cases host conversations
    have hwaits : ∀ peer, (actor.rt.onRehash host conversations).host.waits peer = host.waits peer :=
      fun peer => by rw [hrehash, Host.waits, hlookup, Host.waits]
    have hcalm := actor.rt.calm_onRehash (h host hhost).reports conversations
    refine ⟨host, hhost, (h host hhost).congr hwaits ?_ ?_ fun _ => Iff.rfl,
      fun task hgone => hgone.tends hcalm.tends⟩ <;> rw [hrehash]
  | Elsewhere world =>
    have hroster : (actor.act (.Elsewhere world)).rt.roster actor.name = actor.rt.roster actor.name :=
      Function.update_self ..
    have hhost : actor.host = some host' := by
      rw [← hhost']
      exact congrArg (Option.map Entry.host) hroster.symm
    exact ⟨host', hhost, (h host' hhost).congr (fun _ => rfl) rfl rfl fun _ => Iff.rfl, fun _ => id⟩

/-! ## Every run -/

theorem Holds.after (h : Holds actor) (acts : List (Act P N Ib)) : Holds (actor.after acts) := by
  refine Run.invariant_all KameoActor.act (fun actor a h host' hhost' => ?_) actor acts h
  obtain ⟨-, -, hsound, -⟩ := Holds.act h a hhost'
  exact hsound

def Over (task : Task) (actor : KameoActor P N Ib) : Prop :=
  Holds actor ∧ ∀ host, actor.host = some host → Gone task host

theorem Over.after (h : Over task actor) (acts : List (Act P N Ib)) : Over task (actor.after acts) := by
  refine Run.invariant_all KameoActor.act (fun actor a h => ⟨fun host' hhost' => ?_, fun host' hhost' => ?_⟩)
    actor acts h
  · obtain ⟨-, -, hsound, -⟩ := h.1.act a hhost'
    exact hsound
  · obtain ⟨host, hhost, -, hstill⟩ := h.1.act a hhost'
    exact hstill task (h.2 host hhost)

omit [Party P] [Transport N] in
theorem holds_installed {rt : KameoRuntime P N Ib} {name : ActorName} {allowlist : Allowlist}
    {deadlines : Deadlines} {kind : ActorKind} {party : Option (Boxed P)}
    (hinstalled : (rt.installInner name allowlist deadlines kind party).1 = .ok ()) :
    Holds (start name (rt.installInner name allowlist deadlines kind party).2) := by
  intro host hhost
  unfold KameoRuntime.installInner at hinstalled hhost
  split at hinstalled
  · cases hinstalled
  · rename_i hfree
    rw [if_neg hfree] at hhost
    split at hinstalled
    · cases hinstalled
    · rename_i inbox net hbind
      simp only [hbind, KameoActor.host, start, KameoRuntime.host, KameoRuntime.setEntry_self] at hhost
      cases hhost
      exact sound_start name (fun _ => rfl) rfl

end KameoActor

end Kamiroh
