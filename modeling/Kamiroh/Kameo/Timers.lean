import Kamiroh.Kameo.Host

/-!
# The timer tasks of a host

A handler leaves the epoch of a conversation and arms nothing there, or it moves the epoch on by one and
gives up all that was armed before.
-/

namespace Kamiroh

variable {P N Ib : Type}

namespace PeerWaits

def tasks (waits : PeerWaits) : List Task :=
  (waits.ack.map (·.2)).toList ++ waits.turn.toList

/-- The tasks of a conversation with `peer` report what they were armed for. -/
structure Reporting (waits : PeerWaits) (peer : Address) : Prop where
  ack : ∀ {id task}, waits.ack = some (id, task) → task.report = ⟨peer, .Ack, some id, waits.epoch⟩
  turn : ∀ {task}, waits.turn = some task → task.report = ⟨peer, .Turn, none, waits.epoch⟩

theorem mem_tasks {waits : PeerWaits} {task : Task} :
    task ∈ waits.tasks ↔ (∃ id, waits.ack = some (id, task)) ∨ waits.turn = some task := by
  simp [tasks]

theorem tasks_eq_nil {waits : PeerWaits} :
    waits.tasks = [] ↔ waits.ack = none ∧ waits.turn = none := by
  simp [tasks]

@[simp] theorem default_tasks : (default : PeerWaits).tasks = [] := rfl

theorem reporting_of_unarmed {waits : PeerWaits} (peer : Address) (h : waits.tasks = []) :
    waits.Reporting peer := by
  obtain ⟨hack, hturn⟩ := tasks_eq_nil.mp h
  exact ⟨fun h => by simp [hack] at h, fun h => by simp [hturn] at h⟩

theorem Reporting.peer {waits : PeerWaits} {peer : Address} (h : waits.Reporting peer) {task : Task}
    (htask : task ∈ waits.tasks) : task.report.peer = peer := by
  rcases mem_tasks.mp htask with ⟨id, hack⟩ | hturn
  · rw [h.ack hack]
  · rw [h.turn hturn]

theorem Reporting.stillPending {waits : PeerWaits} {peer : Address} (h : waits.Reporting peer)
    {task : Task} (htask : task ∈ waits.tasks) :
    KameoRuntime.stillPending waits task.report = true := by
  rcases mem_tasks.mp htask with ⟨id, hack⟩ | hturn
  · rw [h.ack hack]
    simp [KameoRuntime.stillPending, hack]
  · rw [h.turn hturn]
    simp [KameoRuntime.stillPending, hturn]

/-- The conversation after some of its waits were settled, with the tasks to abort. -/
structure Settled (peer : Address) (waits : PeerWaits) (settled : PeerWaits × List Task) : Prop where
  reporting : settled.1.Reporting peer
  tasks : ∀ task, task ∈ settled.1.tasks ↔ task ∈ waits.tasks ∧ task ∉ settled.2
  mine : ∀ task ∈ settled.2, task ∈ waits.tasks

theorem settled_all (peer : Address) (waits : PeerWaits) {waits' : PeerWaits}
    (h : waits'.tasks = []) : Settled peer waits (waits', waits.tasks) where
  reporting := reporting_of_unarmed peer h
  tasks task := by simp [h]
  mine _ h := h

theorem settled_settleAck {waits : PeerWaits} {peer : Address} (h : waits.Reporting peer)
    (id : RequestId) : Settled peer waits (waits.settleAck id) := by
  unfold settleAck
  cases hack : waits.ack with
  | none => exact ⟨h, by simp, by simp⟩
  | some ack =>
    obtain ⟨due, acked⟩ := ack
    dsimp only
    split
    · refine ⟨⟨(fun h => nomatch h), h.turn⟩, fun task => ?_, by simp [mem_tasks, hack]⟩
      simp only [mem_tasks, hack, List.mem_singleton]
      constructor
      · rintro (⟨id, hid⟩ | hturn)
        · cases hid
        · refine ⟨Or.inr hturn, ?_⟩
          rintro rfl
          have hkinds := (h.turn hturn).symm.trans (h.ack hack)
          simp at hkinds
      · rintro ⟨⟨id, hid⟩ | hturn, hne⟩
        · cases hid
          exact absurd rfl hne
        · exact Or.inr hturn
    · exact ⟨h, by simp, by simp⟩

@[simp] theorem settleAck_epoch (waits : PeerWaits) (id : RequestId) :
    (waits.settleAck id).1.epoch = waits.epoch := by
  unfold settleAck
  split
  · split <;> rfl
  · rfl

end PeerWaits

/-! ## What a host does to its tasks -/

namespace Host

def Reports (host : Host P) : Prop := ∀ peer, (host.waits peer).Reporting peer

/-- The tasks that sleep are those of the pending waits. -/
structure Tended (host : Host P) : Prop where
  reports : ∀ peer, (host.waits peer).Reporting peer
  sleeping : ∀ task, task ∈ host.sleeping ↔ task ∈ (host.waits task.report.peer).tasks

/-- Some waits may have been settled, and their tasks are aborted. -/
structure Kept (host host' : Host P) (peer : Address) : Prop where
  epoch : (host'.waits peer).epoch = (host.waits peer).epoch
  tasks : ∀ task ∈ (host'.waits peer).tasks, task ∈ (host.waits peer).tasks
  sleeping : ∀ task : Task, task.report.peer = peer → (task ∈ host'.sleeping ↔
    task ∈ host.sleeping ∧ (task ∈ (host.waits peer).tasks → task ∈ (host'.waits peer).tasks))

/-- The epoch moved on. All waits were settled, and the tasks of those that are pending now are new. -/
structure Renewed (host host' : Host P) (peer : Address) : Prop where
  epoch : (host'.waits peer).epoch = (host.waits peer).epoch + 1
  tasks : ∀ task ∈ (host'.waits peer).tasks, host.spawned ≤ task.id ∧ task.id < host'.spawned
  sleeping : ∀ task : Task, task.report.peer = peer → (task ∈ host'.sleeping ↔
    (task ∈ host.sleeping ∧ task ∉ (host.waits peer).tasks) ∨ task ∈ (host'.waits peer).tasks)

/-- What a handler leaves behind. -/
structure Tends (host host' : Host P) : Prop where
  reports : host'.Reports
  spawned : host.spawned ≤ host'.spawned
  each : ∀ peer, Kept host host' peer ∨ Renewed host host' peer

/-- What a handler leaves behind that arms nothing and fails nothing. -/
structure Calm (host host' : Host P) : Prop where
  reports : host'.Reports
  spawned : host'.spawned = host.spawned
  each : ∀ peer, Kept host host' peer

variable {host host' host'' : Host P} {peer : Address}

@[simp] theorem waits_setWaits_self (host : Host P) (peer : Address) (waits : PeerWaits) :
    (host.setWaits peer waits).waits peer = waits := by
  simp [Host.waits, setWaits]

@[simp] theorem waits_setWaits_of_ne (host : Host P) {peer peer' : Address} (waits : PeerWaits)
    (h : peer' ≠ peer) : (host.setWaits peer waits).waits peer' = host.waits peer' := by
  simp [Host.waits, setWaits, AList.lookup_insert_ne h]

theorem tended_new (address : Address) (allowlist : Allowlist) (kind : ActorKind)
    (deadlines : Deadlines) (party : Option (Boxed P)) :
    (new address allowlist kind deadlines party).Tended where
  reports peer := PeerWaits.reporting_of_unarmed peer rfl
  sleeping task := by simp [new, Host.waits]

theorem Tends.tended (h : Tends host host') (htended : host.Tended) : host'.Tended where
  reports := h.reports
  sleeping task := by
    rcases h.each task.report.peer with hkept | hrenewed
    · rw [hkept.sleeping task rfl, htended.sleeping]
      exact ⟨fun ⟨hpending, hstill⟩ => hstill hpending,
        fun hpending => ⟨hkept.tasks task hpending, fun _ => hpending⟩⟩
    · rw [hrenewed.sleeping task rfl, htended.sleeping]
      exact or_iff_right fun ⟨hpending, hnot⟩ => hnot hpending

/-! ### One thing after another -/

theorem Kept.of_eq (hwaits : host'.waits peer = host.waits peer)
    (hsleeping : ∀ task : Task, task.report.peer = peer → (task ∈ host'.sleeping ↔ task ∈ host.sleeping)) :
    Kept host host' peer where
  epoch := by rw [hwaits]
  tasks task htask := hwaits ▸ htask
  sleeping task hpeer := by
    rw [hwaits, hsleeping task hpeer]
    exact (and_iff_left id).symm

theorem Kept.trans (h : Kept host host' peer) (h' : Kept host' host'' peer) : Kept host host'' peer where
  epoch := h'.epoch.trans h.epoch
  tasks task htask := h.tasks task (h'.tasks task htask)
  sleeping task hpeer := by
    rw [h'.sleeping task hpeer, h.sleeping task hpeer]
    have hold := h.tasks task
    have hold' := h'.tasks task
    tauto

theorem Kept.renewed (h : Kept host host' peer) (hspawned : host.spawned ≤ host'.spawned)
    (h' : Renewed host' host'' peer) : Renewed host host'' peer where
  epoch := h'.epoch.trans (congrArg (· + 1) h.epoch)
  tasks task htask := ⟨hspawned.trans (h'.tasks task htask).1, (h'.tasks task htask).2⟩
  sleeping task hpeer := by
    rw [h'.sleeping task hpeer, h.sleeping task hpeer]
    have hold := h.tasks task
    tauto

theorem Renewed.kept (h : Renewed host host' peer) (hspawned : host'.spawned ≤ host''.spawned)
    (hwaits : host''.waits peer = host'.waits peer) (h' : Kept host' host'' peer) :
    Renewed host host'' peer where
  epoch := h'.epoch.trans h.epoch
  tasks task htask := by
    rw [hwaits] at htask
    exact ⟨(h.tasks task htask).1, (h.tasks task htask).2.trans_le hspawned⟩
  sleeping task hpeer := by
    rw [h'.sleeping task hpeer, hwaits, h.sleeping task hpeer]
    exact and_iff_left id

theorem Calm.tends (h : Calm host host') : Tends host host' :=
  ⟨h.reports, h.spawned.ge, fun peer => Or.inl (h.each peer)⟩

theorem Calm.trans (h : Calm host host') (h' : Calm host' host'') : Calm host host'' :=
  ⟨h'.reports, h'.spawned.trans h.spawned, fun peer => (h.each peer).trans (h'.each peer)⟩

theorem Calm.then (h : Calm host host') (h' : Tends host' host'') : Tends host host'' where
  reports := h'.reports
  spawned := h.spawned.ge.trans h'.spawned
  each peer := (h'.each peer).imp (h.each peer).trans ((h.each peer).renewed h.spawned.ge)

theorem Tends.kept (h : Tends host host') (hwaits : host'.waits peer = host.waits peer) :
    Kept host host' peer := by
  rcases h.each peer with hkept | hrenewed
  · exact hkept
  · have hepoch := hrenewed.epoch
    rw [hwaits] at hepoch
    simp at hepoch

theorem Tends.beside (h : Tends host host') (h' : Tends host' host'')
    (hapart : ∀ peer, host'.waits peer = host.waits peer ∨ host''.waits peer = host'.waits peer) :
    Tends host host'' where
  reports := h'.reports
  spawned := h.spawned.trans h'.spawned
  each peer := by
    rcases hapart peer with hwaits | hwaits
    · exact (h'.each peer).imp (h.kept hwaits).trans ((h.kept hwaits).renewed h.spawned)
    · exact (h.each peer).imp (·.trans (h'.kept hwaits)) (·.kept h'.spawned hwaits (h'.kept hwaits))

/-! ### The operations -/

theorem Reports.calm (h : host.Reports) (hwaits : ∀ peer, host'.waits peer = host.waits peer)
    (hsleeping : host'.sleeping = host.sleeping) (hspawned : host'.spawned = host.spawned) :
    Calm host host' where
  reports peer := hwaits peer ▸ h peer
  spawned := hspawned
  each peer := .of_eq (hwaits peer) fun task _ => by rw [hsleeping]

theorem Reports.setWaits (h : host.Reports) (host' : Host P) {waits : PeerWaits}
    (hwaits : waits.Reporting peer) (hconversations : host'.conversations = host.conversations)
    (hother : ∀ task : Task, task.report.peer ≠ peer → (task ∈ host'.sleeping ↔ task ∈ host.sleeping)) :
    (host'.setWaits peer waits).Reports ∧ ∀ p ≠ peer, Kept host (host'.setWaits peer waits) p := by
  have hsame : ∀ p ≠ peer, (host'.setWaits peer waits).waits p = host.waits p := fun p hp => by
    rw [waits_setWaits_of_ne _ _ hp, Host.waits, Host.waits, hconversations]
  refine ⟨fun p => ?_, fun p hp => .of_eq (hsame p hp) fun task hpeer => hother task (hpeer ▸ hp)⟩
  by_cases hp : p = peer
  · subst hp
    rwa [waits_setWaits_self]
  · rw [hsame p hp]
    exact h p

theorem Reports.settle (h : host.Reports) {settled : PeerWaits × List Task}
    (hsettled : PeerWaits.Settled peer (host.waits peer) settled)
    (hepoch : settled.1.epoch = (host.waits peer).epoch) :
    Calm host ((host.abort settled.2).setWaits peer settled.1) := by
  have hother : ∀ task : Task, task.report.peer ≠ peer →
      (task ∈ (host.abort settled.2).sleeping ↔ task ∈ host.sleeping) := fun task hpeer => by
    have hnot : task ∉ settled.2 := fun hmem => hpeer ((h peer).peer (hsettled.mine task hmem))
    simp [abort, hnot]
  obtain ⟨hreports, hkept⟩ := h.setWaits (host.abort settled.2) hsettled.reporting rfl hother
  refine ⟨hreports, rfl, fun p => ?_⟩
  by_cases hp : p = peer
  · subst hp
    refine ⟨?_, fun task htask => ?_, fun task _ => ?_⟩
    · rw [waits_setWaits_self, hepoch]
    · rw [waits_setWaits_self] at htask
      exact ((hsettled.tasks task).mp htask).1
    · have hmine := hsettled.mine task
      rw [waits_setWaits_self, hsettled.tasks]
      simp only [Host.setWaits, abort, List.mem_filter, decide_eq_true_eq]
      tauto
  · exact hkept p hp

theorem Reports.move (h : host.Reports) (peer : Address) (state : TurnState) :
    Calm host (host.setWaits peer { host.waits peer with state }) := by
  have hwaits : PeerWaits.Reporting { host.waits peer with state } peer := ⟨(h peer).ack, (h peer).turn⟩
  obtain ⟨hreports, hkept⟩ := h.setWaits host hwaits rfl fun _ _ => Iff.rfl
  refine ⟨hreports, rfl, fun p => ?_⟩
  by_cases hp : p = peer
  · subst hp
    refine ⟨?_, fun task htask => ?_, fun task _ => ?_⟩ <;> rw [waits_setWaits_self] at *
    · exact htask
    · exact (and_iff_left id).symm
  · exact hkept p hp

theorem Reports.settleAck (h : host.Reports) (peer : Address) (id : RequestId) :
    Calm host (host.settleAck peer id) := by
  unfold Host.settleAck Host.update
  split
  · rename_i waits hpeer
    have hwaits : host.waits peer = waits := by rw [Host.waits, hpeer, Option.getD_some]
    subst hwaits
    exact h.settle (PeerWaits.settled_settleAck (h peer) id) (PeerWaits.settleAck_epoch ..)
  · exact h.calm (fun _ => rfl) rfl rfl

theorem Reports.settleAll (h : host.Reports) (peer : Address) (state : TurnState) :
    Calm host (host.settleAll peer state) :=
  h.settle (PeerWaits.settled_all peer (host.waits peer) rfl) rfl

@[simp] theorem waits_settleAll_self (host : Host P) (peer : Address) (state : TurnState) :
    (host.settleAll peer state).waits peer = ⟨state, none, none, (host.waits peer).epoch⟩ :=
  waits_setWaits_self ..

theorem Reports.renew (h : host.Reports) {waits : PeerWaits} (hwaits : waits.Reporting peer)
    (hepoch : waits.epoch = (host.waits peer).epoch + 1)
    (hconversations : host'.conversations = host.conversations) (hspawned : host.spawned ≤ host'.spawned)
    (hnew : ∀ task ∈ waits.tasks, host.spawned ≤ task.id ∧ task.id < host'.spawned)
    (hsleeping : ∀ task, task ∈ host'.sleeping ↔
      (task ∈ host.sleeping ∧ task ∉ (host.waits peer).tasks) ∨ task ∈ waits.tasks) :
    Tends host (host'.setWaits peer waits) := by
  have hother : ∀ task : Task, task.report.peer ≠ peer →
      (task ∈ host'.sleeping ↔ task ∈ host.sleeping) := fun task hpeer => by
    have hold : task ∉ (host.waits peer).tasks := fun hmem => hpeer ((h peer).peer hmem)
    have hnot : task ∉ waits.tasks := fun hmem => hpeer (hwaits.peer hmem)
    rw [hsleeping, or_iff_left hnot, and_iff_left hold]
  obtain ⟨hreports, hkept⟩ := h.setWaits host' hwaits hconversations hother
  refine ⟨hreports, hspawned, fun p => ?_⟩
  by_cases hp : p = peer
  · subst hp
    refine Or.inr ⟨?_, ?_, fun task _ => ?_⟩ <;> rw [waits_setWaits_self]
    · exact hepoch
    · exact hnew
    · exact hsleeping task
  · exact Or.inl (hkept p hp)

theorem Reports.fail (h : host.Reports) (peer : Address) :
    Tends host (host.update peer PeerWaits.fail) := by
  unfold Host.update
  split
  · rename_i waits hpeer
    have hwaits : host.waits peer = waits := by rw [Host.waits, hpeer, Option.getD_some]
    subst hwaits
    refine h.renew (PeerWaits.reporting_of_unarmed peer rfl) rfl rfl le_rfl nofun fun task => ?_
    have hnone : task ∉ (host.waits peer).fail.1.tasks := List.not_mem_nil
    rw [or_iff_left hnone]
    exact List.mem_filter.trans (and_congr_right fun _ => decide_eq_true_iff)
  · exact (h.calm (fun _ => rfl) rfl rfl).tends

theorem Reports.spawned (h : host.Reports) {waits : PeerWaits} (hwaits : waits.Reporting peer)
    (hunarmed : (host.waits peer).tasks = []) (hepoch : waits.epoch = (host.waits peer).epoch + 1)
    (hconversations : host'.conversations = host.conversations) (hspawned : host.spawned ≤ host'.spawned)
    (hsleeping : host'.sleeping = host.sleeping ++ waits.tasks)
    (hnew : ∀ task ∈ waits.tasks, host.spawned ≤ task.id ∧ task.id < host'.spawned) :
    Tends host (host'.setWaits peer waits) :=
  h.renew hwaits hepoch hconversations hspawned hnew fun task => by
    simp [hsleeping, hunarmed]

theorem Reports.arm (h : host.Reports) {peer : Address} (hunarmed : (host.waits peer).tasks = [])
    (posed : Option RequestId) (progress : TurnProgress) (now : Instant) :
    Tends host (host.arm peer posed progress now) := by
  have hack : (host.waits peer).ack = none := (PeerWaits.tasks_eq_nil.mp hunarmed).1
  simp only [Host.arm, hack]
  cases posed <;> cases progress
  · refine h.spawned ⟨?_, ?_⟩ hunarmed rfl rfl (Nat.le_add_right ..) rfl ?_
    · rintro _ _ ⟨⟩
    · rintro _ ⟨⟩
      rfl
    · simp [spawn, PeerWaits.tasks]
  · refine h.spawned ⟨?_, ?_⟩ hunarmed rfl rfl le_rfl (List.append_nil _).symm nofun
    · rintro _ _ ⟨⟩
    · rintro _ ⟨⟩
  · refine h.spawned ⟨?_, ?_⟩ hunarmed rfl rfl (Nat.le_add_right _ 2) (List.append_assoc ..) ?_
    · rintro _ _ ⟨⟩
      rfl
    · rintro _ ⟨⟩
      rfl
    · intro task htask
      rcases List.mem_pair.mp htask with rfl | rfl
      · exact ⟨le_rfl, Nat.lt_succ_of_lt (Nat.lt_succ_self _)⟩
      · exact ⟨Nat.le_succ _, Nat.lt_succ_self _⟩
  · refine h.spawned ⟨?_, ?_⟩ hunarmed rfl rfl (Nat.le_add_right ..) rfl ?_
    · rintro _ _ ⟨⟩
      rfl
    · rintro _ ⟨⟩
    · simp [spawn, PeerWaits.tasks]

variable [Party P]

@[simp] theorem handOver_waits (host : Host P) (peer peer' : Address) (turn : Turn) :
    (host.handOver peer turn).2.1.waits peer' = host.waits peer' := by
  unfold handOver
  split <;> rfl

theorem Reports.handOver (h : host.Reports) (peer : Address) (turn : Turn) :
    Calm host (host.handOver peer turn).2.1 := by
  unfold Host.handOver
  split <;> exact h.calm (fun _ => rfl) rfl rfl

end Host

/-! ## Handlers -/

namespace KameoRuntime

open Host

variable {host : Host P}

theorem onRehash_cases (rt : KameoRuntime P N Ib) (host : Host P)
    (conversations : Assoc Address PeerWaits) :
    ∃ arranged : Assoc Address PeerWaits,
      (∀ peer, arranged.lookup peer = host.conversations.lookup peer) ∧
        rt.onRehash host conversations = ⟨(), rt, { host with conversations := arranged }, []⟩ := by
  unfold onRehash
  split
  · rename_i hperm
    exact ⟨conversations, fun peer => AList.perm_lookup hperm, rfl⟩
  · exact ⟨host.conversations, fun peer => rfl, rfl⟩

theorem calm_onRehash (rt : KameoRuntime P N Ib) (h : host.Reports)
    (conversations : Assoc Address PeerWaits) : Calm host (rt.onRehash host conversations).host := by
  obtain ⟨arranged, hlookup, heq⟩ := rt.onRehash_cases host conversations
  rw [heq]
  exact h.calm (fun peer => by simp only [Host.waits, hlookup]) rfl rfl

variable [Party P]

theorem failExchange_waits (rt : KameoRuntime P N Ib) (host : Host P) (peer peer' : Address)
    (cause : FailureCause) :
    (rt.failExchange host peer cause).1.waits peer' =
      (host.update peer PeerWaits.fail).waits peer' := by
  unfold failExchange
  dsimp only
  split <;> rfl

theorem failExchange_waits_of_ne (rt : KameoRuntime P N Ib) (host : Host P) {peer peer' : Address}
    (h : peer' ≠ peer) (cause : FailureCause) :
    (rt.failExchange host peer cause).1.waits peer' = host.waits peer' := by
  rw [failExchange_waits, Host.update]
  split
  · exact waits_setWaits_of_ne _ _ h
  · rfl

theorem tends_failExchange (rt : KameoRuntime P N Ib) (h : host.Reports) (peer : Address)
    (cause : FailureCause) : Tends host (rt.failExchange host peer cause).1 := by
  have hfailed := h.fail peer
  have htold : ∀ party, Calm (host.update peer PeerWaits.fail)
      { host.update peer PeerWaits.fail with party } := fun _ =>
    hfailed.reports.calm (fun _ => rfl) rfl rfl
  unfold failExchange
  dsimp only
  split
  · exact hfailed.beside (htold _).tends fun _ => Or.inr rfl
  · exact hfailed

theorem failEach_waits_of_notMem (rt : KameoRuntime P N Ib) (host : Host P) (cause : FailureCause)
    {peers : List Address} {peer : Address} (h : peer ∉ peers) :
    (rt.failEach host cause peers).1.waits peer = host.waits peer := by
  induction peers generalizing host with
  | nil => rfl
  | cons p peers ih =>
    exact (ih _ (List.not_mem_of_not_mem_cons h)).trans
      (rt.failExchange_waits_of_ne host (List.ne_of_not_mem_cons h) cause)

theorem tends_failEach (rt : KameoRuntime P N Ib) (h : host.Reports) (cause : FailureCause)
    {peers : List Address} (hpeers : peers.Nodup) : Tends host (rt.failEach host cause peers).1 := by
  induction peers generalizing host with
  | nil => exact (h.calm (fun _ => rfl) rfl rfl).tends
  | cons peer peers ih =>
    obtain ⟨hnot, hpeers⟩ := List.nodup_cons.mp hpeers
    have hfirst := rt.tends_failExchange h peer cause
    refine hfirst.beside (ih hfirst.reports hpeers) fun p => ?_
    by_cases hp : p = peer
    · subst hp
      exact Or.inr (rt.failEach_waits_of_notMem _ cause hnot)
    · exact Or.inl (rt.failExchange_waits_of_ne host hp cause)

omit [Party P] in
theorem calm_onAdmit (rt : KameoRuntime P N Ib) (h : host.Reports) (endpoint : EndpointId) :
    Calm host (rt.onAdmit host endpoint).host :=
  h.calm (fun _ => rfl) rfl rfl

theorem tends_onRevoke (rt : KameoRuntime P N Ib) (h : host.Reports) (endpoint : EndpointId) :
    Tends host (rt.onRevoke host endpoint).host := by
  have hrevoked : Calm host { host with allowlist := host.allowlist.revoke endpoint } :=
    h.calm (fun _ => rfl) rfl rfl
  exact hrevoked.then (rt.tends_failEach hrevoked.reports .Revoked (Assoc.keysWhere_nodup ..))

theorem tends_onPeerDied (rt : KameoRuntime P N Ib) (h : host.Reports) (endpoint : EndpointId) :
    Tends host (rt.onPeerDied host endpoint).host :=
  rt.tends_failEach h .Disconnected (Assoc.keysWhere_nodup ..)

theorem tends_onDeadlineElapsed (rt : KameoRuntime P N Ib) (h : host.Reports)
    (report : DeadlineElapsed) : Tends host (rt.onDeadlineElapsed host report).host := by
  have hsame : Tends host host := (h.calm (fun _ => rfl) rfl rfl).tends
  unfold onDeadlineElapsed
  split
  · split
    · exact rt.tends_failExchange h _ _
    · exact hsame
  · exact hsame

/-- The wait of a task that wakes is still pending, so the report is not stale. -/
theorem onDeadlineElapsed_awake (h : host.Tended) (rt : KameoRuntime P N Ib) {task : Task}
    (htask : task ∈ host.sleeping) :
    let failed := rt.failExchange host task.report.peer (.DeadlineElapsed task.report.kind)
    rt.onDeadlineElapsed (host.abort [task]) task.report = ⟨(), rt, failed.1, failed.2⟩ := by
  have hpending : task ∈ (host.waits task.report.peer).tasks := (h.sleeping task).mp htask
  have hreports := h.reports task.report.peer
  cases hpeer : host.conversations.lookup task.report.peer with
  | none => simp [Host.waits, hpeer] at hpending
  | some waits =>
    rw [Host.waits, hpeer, Option.getD_some] at hpending hreports
    have hpeer' : (host.abort [task]).conversations.lookup task.report.peer = some waits := hpeer
    have habort : (host.abort [task]).abort waits.tasks = host.abort waits.tasks := by
      simp only [Host.abort, List.filter_filter]
      congr 1
      refine List.filter_congr fun other _ => ?_
      by_cases hother : other = task <;> simp [hother, hpending]
    have hupdate : (host.abort [task]).update task.report.peer PeerWaits.fail =
        host.update task.report.peer PeerWaits.fail := by
      simp only [Host.update, hpeer, hpeer']
      exact congrArg (fun host => Host.setWaits host task.report.peer (PeerWaits.fail waits).1) habort
    have hfailed : ∀ cause, rt.failExchange (host.abort [task]) task.report.peer cause =
        rt.failExchange host task.report.peer cause := fun cause => by
      simp only [failExchange, hupdate]
      rfl
    simp only [onDeadlineElapsed, hpeer', hreports.stillPending hpending, if_true, hfailed]

variable [Transport N]

omit [Party P] in
@[simp] theorem sendIgnored_host (rt : KameoRuntime P N Ib) (host : Host P) (target : Address)
    (message : Option Message) : (rt.sendIgnored host target message).host = host := by
  cases message <;> rfl

theorem tends_answer (rt : KameoRuntime P N Ib) (h : host.Reports) {peer : Address}
    (hunarmed : (host.waits peer).tasks = []) (reply : Turn) :
    Tends host (rt.answer host peer reply).host := by
  have hmoved := h.move peer ((host.waits peer).state.onOutgoing reply).2
  unfold answer
  dsimp only
  split
  · exact hmoved.then (rt.tends_failExchange hmoved.reports peer _)
  · split
    · refine hmoved.then (hmoved.reports.arm ?_ _ _ _)
      rw [waits_setWaits_self]
      exact hunarmed
    · exact hmoved.then (tends_failExchange _ hmoved.reports peer _)

theorem tends_takeTurn (rt : KameoRuntime P N Ib) (h : host.Reports) (peer : Address) (turn : Turn)
    (ack : Option Message) : Tends host (rt.takeTurn host peer turn ack).host := by
  unfold takeTurn
  dsimp only
  split
  · exact (h.move peer _).tends
  · simp only [sendIgnored_host]
    have hsettled := h.settleAll peer ((host.waits peer).state.onIncoming turn).2
    have hhanded := hsettled.trans (hsettled.reports.handOver peer turn)
    split
    · exact hhanded.tends
    · refine hhanded.then (tends_answer _ hhanded.reports ?_ _)
      rw [handOver_waits, waits_settleAll_self]
      rfl

variable [Registry N Ib]

theorem tends_onDeliver (rt : KameoRuntime P N Ib) (h : host.Reports) (delivery : Delivery) :
    Tends host (rt.onDeliver host delivery).host := by
  have hsame : Tends host host := (h.calm (fun _ => rfl) rfl rfl).tends
  unfold onDeliver
  split
  · exact hsame
  · exact hsame
  · exact (h.settleAck _ _).tends
  · split
    · exact hsame
    · simpa using hsame
  · exact rt.tends_takeTurn h _ _ _

end KameoRuntime

end Kamiroh
