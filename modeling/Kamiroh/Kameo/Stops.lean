import Kamiroh.Kameo.Host
import Kamiroh.Runtime.Harness

/-!
# A stopped name

That a name is taken is on record three times: in the roster, with the pump task that owns the inbox, and
in the table of the transport. `stop` clears the first record. The scheduler clears the other two, when
it drops the aborted pump.
-/

namespace Kamiroh

/-! ## The records of one name -/

/-- `ended` tells that the pump on the roster ended by itself, which drops its inbox. `pending` counts
the aborted pumps that still have theirs. -/
structure Records where
  listed : Bool
  ended : Bool
  pending : Nat
  bound : Bool
deriving DecidableEq

namespace Records

/-- What can happen to the records of a name. With `kills`, somebody may take the mailbox away. -/
inductive Step (kills : Prop) : Records → Records → Prop
  | keep (records : Records) : Step kills records records
  | bind (pending : Nat) : Step kills ⟨false, false, pending, false⟩ ⟨true, false, pending, true⟩
  | stop (pending : Nat) (bound : Bool) :
      Step kills ⟨true, false, pending, bound⟩ ⟨false, false, pending + 1, bound⟩
  | forget (pending : Nat) (bound : Bool) :
      Step kills ⟨true, true, pending, bound⟩ ⟨false, false, pending, bound⟩
  | finish (pending : Nat) (bound : Bool) :
      Step kills ⟨true, false, pending, bound⟩ ⟨true, true, pending, false⟩
  | drop (listed ended : Bool) (pending : Nat) (bound : Bool) :
      Step kills ⟨listed, ended, pending + 1, bound⟩ ⟨listed, ended, pending, false⟩
  | kill (hkills : kills) (listed ended : Bool) (pending : Nat) (bound : Bool) :
      Step kills ⟨listed, ended, pending, bound⟩ ⟨listed, ended, pending, false⟩

/-- A pump has an inbox of the name. -/
def Held (records : Records) : Prop :=
  (records.listed = true ∧ records.ended = false) ∨ 0 < records.pending

/-- A mailbox that is there belongs to some pump. -/
def Owned (records : Records) : Prop := records.bound = true → records.Held

/-- No more than one pump has an inbox of the name, and its mailbox is there. -/
structure Exclusive (records : Records) : Prop where
  bound : records.bound = true ↔ records.Held
  once : records.pending ≤ 1
  apart : records.listed = true → records.pending = 0

variable {kills : Prop} {records records' : Records}

theorem Owned.step (h : records.Owned) (hstep : Step kills records records') : records'.Owned := by
  rcases hstep with _ | pending | ⟨pending, bound⟩ | ⟨pending, bound⟩ | _ | _ | _
  · exact h
  · exact fun _ => Or.inl ⟨rfl, rfl⟩
  · exact fun _ => Or.inr (Nat.succ_pos pending)
  · intro hbound
    rcases h hbound with ⟨-, hended⟩ | hpending
    · cases hended
    · exact Or.inr hpending
  all_goals exact fun hbound => by cases hbound

theorem Exclusive.step (h : records.Exclusive) (hstep : Step False records records') :
    records'.Exclusive := by
  obtain ⟨hbound, honce, hapart⟩ := h
  rcases hstep with _ | pending | ⟨pending, bound⟩ | ⟨pending, bound⟩ | ⟨pending, bound⟩ |
    ⟨listed, ended, pending, bound⟩ | hkills
  · exact ⟨hbound, honce, hapart⟩
  · have hnone : ¬ 0 < pending := fun hpending => by cases hbound.mpr (Or.inr hpending)
    exact ⟨by simp [Held], honce, fun _ => by simpa using hnone⟩
  · obtain rfl : pending = 0 := hapart rfl
    exact ⟨by simpa [Held] using hbound, le_rfl, nofun⟩
  · obtain rfl : pending = 0 := hapart rfl
    exact ⟨by simpa [Held] using hbound, honce, nofun⟩
  · obtain rfl : pending = 0 := hapart rfl
    exact ⟨by simp [Held], honce, fun _ => rfl⟩
  · obtain rfl : pending = 0 := by simpa using honce
    have hlisted : listed = false := by
      cases listed with
      | false => rfl
      | true => cases hapart rfl
    exact ⟨by simp [Held, hlisted], Nat.zero_le 1, fun _ => rfl⟩
  · exact absurd hkills not_false

end Records

/-- The operation leaves it to the runtime to bind and to unbind the address `here`. -/
def Shared.Op.Foreign (here : Address) : Shared.Op → Prop
  | .Register address => address ≠ here
  | .Drop inbox => inbox.address ≠ here
  | _ => True

/-! ## What the runtime does -/

namespace KameoRuntime

variable {P : Type}

theorem installInner_cases (rt : KameoRuntime P Shared MemoryInbox) (name : ActorName)
    (allowlist : Allowlist) (deadlines : Deadlines) (kind : ActorKind) (party : Option (Boxed P)) :
    (∃ error, rt.installInner name allowlist deadlines kind party = (.error error, rt) ∧
      ¬ (rt.roster name = none ∧ rt.net.mailboxes.lookup (rt.address name) = none)) ∨
    (∃ entry : Entry P MemoryInbox, entry.inbox = ⟨rt.address name⟩ ∧ rt.roster name = none ∧
      rt.net.mailboxes.lookup (rt.address name) = none ∧
      rt.installInner name allowlist deadlines kind party =
        (.ok (), { rt with
          roster := Function.update rt.roster name (some entry)
          net := { rt.net with mailboxes := rt.net.mailboxes.insert (rt.address name) default } })) := by
  unfold installInner
  cases hentry : rt.roster name with
  | some entry => exact Or.inl ⟨.NameInUse, rfl, fun h => by cases h.1⟩
  | none =>
    cases hmailbox : rt.net.mailboxes.lookup (rt.address name) with
    | some mailbox =>
      refine Or.inl ⟨.Bind RegisterError.AddressInUse.display, ?_, fun h => by cases h.2⟩
      simp only [Option.isSome_none, Bool.false_eq_true, if_false, Registry.bind, Shared.register,
        hmailbox]
      rfl
    | none =>
      refine Or.inr ⟨⟨.new (rt.address name) allowlist kind deadlines party, ⟨rt.address name⟩⟩, rfl, rfl,
        rfl, ?_⟩
      simp only [Option.isSome_none, Bool.false_eq_true, if_false, Registry.bind, Shared.register,
        hmailbox]
      rfl

theorem execute_spawn (rt : KameoRuntime P Shared MemoryInbox) (name : ActorName) (controller : Address) :
    (rt.execute (.Spawn name) controller).2 =
      (rt.installInner name (Allowlist.empty.admitEndpoint controller.endpoint) rt.spawnDeadlines .Plain
        (some (.echo .new))).2 ∧
    ((rt.execute (.Spawn name) controller).1 = some (.Harness (.Spawned name)) ↔
      (rt.installInner name (Allowlist.empty.admitEndpoint controller.endpoint) rt.spawnDeadlines .Plain
        (some (.echo .new))).1 = .ok ()) := by
  simp only [execute, installParty]
  split
  · rename_i hok
    simp [hok]
  · rename_i error herror
    simp [herror]

theorem execute_stop (rt : KameoRuntime P Shared MemoryInbox) (name : ActorName) (controller : Address) :
    (rt.execute (.Stop name) controller).2 = (rt.stop name).2 ∧
    ((rt.execute (.Stop name) controller).1 = some (.Harness (.Stopped name)) ↔
      (rt.stop name).1 = .ok ()) := by
  simp only [execute]
  split
  · rename_i hok
    simp [hok]
  · rename_i error herror
    simp [herror]

end KameoRuntime

/-! ## Hosts, pumps and the network -/

/-- A Kameo runtime on an in-process network. `ended` names the hosted actors whose pump ended by
itself. -/
structure Pumped (P : Type) where
  rt : KameoRuntime P Shared MemoryInbox
  ended : Finset ActorName

namespace Pumped

variable {P : Type}

/-- `Hosted` is whatever the handlers and the timers of an actor make of its host. What they send, and
what the holders of all other handles do, is `Elsewhere`. -/
inductive Act (P : Type)
  | Install (name : ActorName) (allowlist : Allowlist) (deadlines : Deadlines) (kind : ActorKind)
      (party : Option (Boxed P))
  | Stop (name : ActorName)
  | Execute (command : Harness) (controller : Address)
  | Hosted (name : ActorName) (host : Host P)
  | PumpEnds (name : ActorName)
  | Dropped (inbox : MemoryInbox)
  | Elsewhere (op : Shared.Op)

/-- `name` was stopped, which left `rt`. Aborting a pump that ended by itself does nothing. -/
def stopped (pumped : Pumped P) (name : ActorName) (rt : KameoRuntime P Shared MemoryInbox) : Pumped P :=
  if name ∈ pumped.ended then ⟨{ rt with aborted := pumped.rt.aborted }, pumped.ended.erase name⟩
  else { pumped with rt }

def step (pumped : Pumped P) : Act P → Pumped P
  | .Install name allowlist deadlines kind party =>
    { pumped with rt := (pumped.rt.installInner name allowlist deadlines kind party).2 }
  | .Stop name => pumped.stopped name (pumped.rt.stop name).2
  | .Execute (.Stop name) controller =>
    pumped.stopped name (pumped.rt.execute (.Stop name) controller).2
  | .Execute command controller => { pumped with rt := (pumped.rt.execute command controller).2 }
  | .Hosted name host => { pumped with rt := pumped.rt.setHost name host }
  | .PumpEnds name =>
    match pumped.rt.roster name with
    | some entry =>
      if name ∈ pumped.ended then pumped
      else
        ⟨{ pumped.rt with net := Registry.dropInbox pumped.rt.net entry.inbox },
          insert name pumped.ended⟩
    | none => pumped
  | .Dropped inbox =>
    -- The scheduler drops the future of an aborted pump.
    if inbox ∈ pumped.rt.aborted then
      { pumped with
        rt := { pumped.rt with
          aborted := pumped.rt.aborted.erase inbox
          net := Registry.dropInbox pumped.rt.net inbox } }
    else pumped
  | .Elsewhere op => { pumped with rt := { pumped.rt with net := pumped.rt.net.run op } }

def after (pumped : Pumped P) (acts : List (Act P)) : Pumped P := Run.after step pumped acts

def Act.Foreign (here : Address) : Act P → Prop
  | .Elsewhere op => op.Foreign here
  | _ => True

def Act.Kills (endpoint : EndpointId) (act : Act P) : Prop :=
  act = .Elsewhere (.KillMailboxes endpoint)

/-- The act stops `name`, and returns that it did. -/
def Stops (pumped : Pumped P) (name : ActorName) : Act P → Prop
  | .Stop other => other = name ∧ (pumped.rt.stop name).1 = .ok ()
  | .Execute (.Stop other) controller =>
    other = name ∧
      (pumped.rt.execute (.Stop name) controller).1 = some (.Harness (.Stopped name))
  | _ => False

/-- An aborted pump still has the inbox of the name, and its mailbox is still there. -/
def Lingers (pumped : Pumped P) (name : ActorName) : Prop :=
  ⟨pumped.rt.address name⟩ ∈ pumped.rt.aborted ∧
    (pumped.rt.net.mailboxes.lookup (pumped.rt.address name)).isSome

def records (pumped : Pumped P) (name : ActorName) : Records :=
  ⟨(pumped.rt.roster name).isSome, name ∈ pumped.ended,
    pumped.rt.aborted.count ⟨pumped.rt.address name⟩,
    (pumped.rt.net.mailboxes.lookup (pumped.rt.address name)).isSome⟩

/-- Nothing is hosted yet, and `name` is free. -/
structure Fresh (pumped : Pumped P) (name : ActorName) : Prop where
  roster : ∀ name, pumped.rt.roster name = none
  aborted : pumped.rt.aborted = []
  ended : pumped.ended = ∅
  unbound : pumped.rt.net.mailboxes.lookup (pumped.rt.address name) = none

/-- Each pump has the inbox of its actor. -/
structure Sound (pumped : Pumped P) : Prop where
  inbox : ∀ name entry, pumped.rt.roster name = some entry → entry.inbox = ⟨pumped.rt.address name⟩
  ended : ∀ name ∈ pumped.ended, (pumped.rt.roster name).isSome

/-! ### What one act does -/

/-- The cases of an act. -/
inductive Stepped (pumped : Pumped P) : Act P → Pumped P → Prop
  | same (act : Act P) (roster : ActorName → Option (Entry P MemoryInbox))
      (hroster : ∀ name, (roster name).map (·.inbox) = (pumped.rt.roster name).map (·.inbox)) :
      Stepped pumped act { pumped with rt := { pumped.rt with roster } }
  | bound (act : Act P) (name : ActorName) (entry : Entry P MemoryInbox)
      (hfree : pumped.rt.roster name = none)
      (hunbound : pumped.rt.net.mailboxes.lookup (pumped.rt.address name) = none)
      (hinbox : entry.inbox = ⟨pumped.rt.address name⟩) :
      Stepped pumped act
        { pumped with
          rt := { pumped.rt with
            roster := Function.update pumped.rt.roster name (some entry)
            net := { pumped.rt.net with
              mailboxes := pumped.rt.net.mailboxes.insert (pumped.rt.address name) default } } }
  | aborted (act : Act P) (name : ActorName) (entry : Entry P MemoryInbox)
      (hentry : pumped.rt.roster name = some entry) (hended : name ∉ pumped.ended) :
      Stepped pumped act
        { pumped with
          rt := { pumped.rt with
            roster := Function.update pumped.rt.roster name none
            aborted := pumped.rt.aborted ++ [entry.inbox] } }
  | forgot (act : Act P) (name : ActorName) (hended : name ∈ pumped.ended) :
      Stepped pumped act
        ⟨{ pumped.rt with roster := Function.update pumped.rt.roster name none },
          pumped.ended.erase name⟩
  | finished (act : Act P) (name : ActorName) (entry : Entry P MemoryInbox)
      (hentry : pumped.rt.roster name = some entry) (hended : name ∉ pumped.ended) :
      Stepped pumped act
        ⟨{ pumped.rt with net := pumped.rt.net.dropInbox entry.inbox }, insert name pumped.ended⟩
  | dropped (act : Act P) (inbox : MemoryInbox) (haborted : inbox ∈ pumped.rt.aborted) :
      Stepped pumped act
        { pumped with
          rt := { pumped.rt with
            aborted := pumped.rt.aborted.erase inbox
            net := pumped.rt.net.dropInbox inbox } }
  | elsewhere (op : Shared.Op) :
      Stepped pumped (.Elsewhere op) { pumped with rt := { pumped.rt with net := pumped.rt.net.run op } }

theorem stepped_same (pumped : Pumped P) (act : Act P) : Stepped pumped act pumped :=
  .same act pumped.rt.roster fun _ => rfl

theorem stepped_install (pumped : Pumped P) (act : Act P) (name : ActorName) (allowlist : Allowlist)
    (deadlines : Deadlines) (kind : ActorKind) (party : Option (Boxed P)) :
    Stepped pumped act
      { pumped with rt := (pumped.rt.installInner name allowlist deadlines kind party).2 } := by
  rcases pumped.rt.installInner_cases name allowlist deadlines kind party with
    ⟨error, hinstalled, -⟩ | ⟨entry, hinbox, hfree, hunbound, hinstalled⟩
  · rw [hinstalled]
    exact pumped.stepped_same act
  · rw [hinstalled]
    exact .bound act name entry hfree hunbound hinbox

theorem stepped_stop {pumped : Pumped P} (hsound : pumped.Sound) (act : Act P) (name : ActorName) :
    Stepped pumped act (pumped.stopped name (pumped.rt.stop name).2) := by
  unfold stopped KameoRuntime.stop
  cases hentry : pumped.rt.roster name with
  | none =>
    have hended : name ∉ pumped.ended := fun hended => by
      have hlisted := hsound.ended name hended
      rw [hentry] at hlisted
      cases hlisted
    rw [if_neg hended]
    exact pumped.stepped_same act
  | some entry =>
    split
    · exact .forgot act name (by assumption)
    · exact .aborted act name entry hentry (by assumption)

theorem step_stepped {pumped : Pumped P} (hsound : pumped.Sound) (act : Act P) :
    Stepped pumped act (pumped.step act) := by
  cases act with
  | Install name allowlist deadlines kind party => apply stepped_install
  | Stop name => exact stepped_stop hsound ..
  | Execute command controller =>
    cases command with
    | Spawn name =>
      simp only [step, (KameoRuntime.execute_spawn ..).1]
      apply stepped_install
    | Stop name =>
      simp only [step, (KameoRuntime.execute_stop ..).1]
      exact stepped_stop hsound ..
    | Ping | Spawned _ | Stopped _ | Pong | Failed _ => exact pumped.stepped_same _
  | Hosted name host =>
    simp only [step, KameoRuntime.setHost]
    split
    · rename_i entry hentry
      refine .same _ _ fun other => ?_
      by_cases hname : other = name
      · subst hname
        simp [hentry]
      · simp [hname]
    · exact pumped.stepped_same _
  | PumpEnds name =>
    simp only [step]
    split
    · rename_i entry hentry
      split
      · exact pumped.stepped_same _
      · exact .finished _ name entry hentry (by assumption)
    · exact pumped.stepped_same _
  | Dropped inbox =>
    simp only [step]
    split
    · exact .dropped _ inbox (by assumption)
    · exact pumped.stepped_same _
  | Elsewhere op => exact .elsewhere op

section

variable {pumped pumped' : Pumped P} {act : Act P}

theorem Stepped.endpoint (h : Stepped pumped act pumped') :
    pumped'.rt.endpoint = pumped.rt.endpoint := by
  cases h <;> rfl

theorem Stepped.sound (hsound : pumped.Sound) (h : Stepped pumped act pumped') : pumped'.Sound := by
  obtain ⟨hinboxes, hends⟩ := hsound
  rcases h with ⟨act, roster, hroster⟩ | ⟨act, name, entry, hfree, hunbound, hinbox⟩ |
    ⟨act, name, entry, hentry, hended⟩ | ⟨act, name, hended⟩ | ⟨act, name, entry, hentry, hended⟩ |
    ⟨act, inbox, haborted⟩ | op
  · refine ⟨fun other entry' (hentry' : roster other = some entry') => ?_,
      fun other hother => (?_ : (roster other).isSome)⟩
    · have hinbox := hroster other
      rw [hentry', Option.map_some, eq_comm, Option.map_eq_some_iff] at hinbox
      obtain ⟨entry, hentry, hsame⟩ := hinbox
      rw [← hsame]
      exact hinboxes other entry hentry
    · have hsome := congrArg Option.isSome (hroster other)
      simp only [Option.isSome_map] at hsome
      rw [hsome]
      exact hends other hother
  · refine ⟨fun other entry' hentry' => ?_, fun other hother => ?_⟩
    · by_cases hname : other = name
      · subst hname
        simp only [Function.update_self, Option.some.injEq] at hentry'
        rw [← hentry']
        exact hinbox
      · simp only [Function.update_of_ne hname] at hentry'
        exact hinboxes other entry' hentry'
    · by_cases hname : other = name
      · simp [hname]
      · simpa [hname] using hends other hother
  · refine ⟨fun other entry' hentry' => ?_, fun other hother => ?_⟩
    · by_cases hname : other = name
      · simp [hname] at hentry'
      · simp only [Function.update_of_ne hname] at hentry'
        exact hinboxes other entry' hentry'
    · have hname : other ≠ name := fun heq => hended (heq ▸ hother)
      simpa [hname] using hends other hother
  · refine ⟨fun other entry' hentry' => ?_, fun other hother => ?_⟩
    · by_cases hname : other = name
      · simp [hname] at hentry'
      · simp only [Function.update_of_ne hname] at hentry'
        exact hinboxes other entry' hentry'
    · obtain ⟨hname, hother⟩ := Finset.mem_erase.mp hother
      simpa [hname] using hends other hother
  · refine ⟨hinboxes, fun other hother => ?_⟩
    rcases Finset.mem_insert.mp hother with rfl | hother
    · simp [hentry]
    · exact hends other hother
  · exact ⟨hinboxes, hends⟩
  · exact ⟨hinboxes, hends⟩

theorem address_ne (endpoint : EndpointId) {name other : ActorName} (h : other ≠ name) :
    (⟨endpoint, other⟩ : Address) ≠ ⟨endpoint, name⟩ := fun heq => h (congrArg Address.name heq)

theorem bound_run {rt : KameoRuntime P Shared MemoryInbox} {name : ActorName} {op : Shared.Op}
    (hforeign : op.Foreign (rt.address name)) :
    ((rt.net.run op).mailboxes.lookup (rt.address name)).isSome =
        (rt.net.mailboxes.lookup (rt.address name)).isSome ∨
      (op = .KillMailboxes rt.endpoint ∧
        ((rt.net.run op).mailboxes.lookup (rt.address name)).isSome = false) := by
  cases hmailbox : rt.net.mailboxes.lookup (rt.address name) with
  | none =>
    have hop : op ≠ .Register (rt.address name) := fun heq => by
      rw [heq] at hforeign
      exact hforeign rfl
    exact Or.inl (by rw [Shared.run_unbound hmailbox op hop])
  | some mailbox =>
    by_cases hremoves : Shared.Removes (rt.address name) op
    · cases op with
      | Drop inbox => exact absurd hremoves hforeign
      | KillMailboxes endpoint =>
        obtain rfl : rt.endpoint = endpoint := hremoves
        refine Or.inr ⟨rfl, ?_⟩
        simp only [Shared.run, Shared.killMailboxes_lookup, KameoRuntime.address, if_true,
          Option.isSome_none]
      | Register _ | Send _ _ _ | OpenMany _ _ _ _ | Partition _ _ | Heal _ _ | DeathWatch
      | PushDeath _ _ | PollNext _ _ | PollDeath _ _ => exact absurd hremoves not_false
    · obtain ⟨mailbox', -, hmailbox', -⟩ := Shared.run_queue hmailbox op hremoves
      exact Or.inl (by rw [hmailbox']; rfl)

theorem Stepped.moves {kills : Prop} (hsound : pumped.Sound) (h : Stepped pumped act pumped')
    {own : ActorName} (hforeign : act.Foreign (pumped.rt.address own))
    (hkills : act.Kills pumped.rt.endpoint → kills) : Records.Step kills (pumped.records own) (pumped'.records own) := by
  have hkeep : ∀ {pumped'' : Pumped P}, pumped''.records own = pumped.records own →
      Records.Step kills (pumped.records own) (pumped''.records own) := fun heq => heq ▸ .keep _
  rcases h with ⟨act, roster, hroster⟩ | ⟨act, name, entry, hfree, hunbound, hinbox⟩ |
    ⟨act, name, entry, hentry, hended⟩ | ⟨act, name, hended⟩ | ⟨act, name, entry, hentry, hended⟩ |
    ⟨act, inbox, haborted⟩ | op
  · have hsome := congrArg Option.isSome (hroster own)
    simp only [Option.isSome_map] at hsome
    exact hkeep (by simp [records, hsome, KameoRuntime.address])
  · by_cases hname : own = name
    · subst hname
      have hended : own ∉ pumped.ended := fun hended => by
        simpa [hfree] using hsound.ended own hended
      unfold KameoRuntime.address at hunbound
      simp only [records, KameoRuntime.address, hfree, hended, hunbound, Function.update_self,
        AList.lookup_insert, Option.isSome_none, Option.isSome_some, decide_false]
      exact .bind _
    · have hne := address_ne pumped.rt.endpoint hname
      exact hkeep (by simp [records, KameoRuntime.address, hname, AList.lookup_insert_ne hne])
  · have hinbox := hsound.inbox name entry hentry
    unfold KameoRuntime.address at hinbox
    by_cases hname : own = name
    · subst hname
      simp only [records, KameoRuntime.address, hentry, hended, hinbox, Function.update_self,
        List.count_append, List.count_singleton_self, Option.isSome_none, Option.isSome_some, decide_false]
      exact .stop _ _
    · exact hkeep (by simp [records, KameoRuntime.address, hname, hinbox, List.count_append,
        Ne.symm hname])
  · by_cases hname : own = name
    · subst hname
      have hlisted := hsound.ended own hended
      simp only [records, KameoRuntime.address, hlisted, hended, Function.update_self,
        Option.isSome_none, decide_true, Finset.notMem_erase, decide_false]
      exact .forget _ _
    · exact hkeep (by simp [records, KameoRuntime.address, hname])
  · have hinbox := hsound.inbox name entry hentry
    unfold KameoRuntime.address at hinbox
    by_cases hname : own = name
    · subst hname
      simp only [records, KameoRuntime.address, hentry, hended, hinbox, Shared.dropInbox,
        AList.lookup_erase, Finset.mem_insert_self, decide_true, decide_false, Option.isSome_none,
        Option.isSome_some]
      exact .finish _ _
    · have hne := address_ne pumped.rt.endpoint hname
      exact hkeep (by simp [records, KameoRuntime.address, hname, hinbox, Shared.dropInbox,
        AList.lookup_erase_ne hne])
  · by_cases hinbox : inbox = ⟨⟨pumped.rt.endpoint, own⟩⟩
    · subst hinbox
      obtain ⟨pending, hpending⟩ := Nat.exists_eq_succ_of_ne_zero (List.count_pos_iff.mpr haborted).ne'
      simp only [records, KameoRuntime.address, hpending, Shared.dropInbox, List.count_erase_self,
        AList.lookup_erase, Option.isSome_none]
      exact .drop _ _ pending _
    · have hne : (⟨pumped.rt.endpoint, own⟩ : Address) ≠ inbox.address := fun heq =>
        hinbox (by rw [heq])
      exact hkeep (by simp [records, KameoRuntime.address, Shared.dropInbox, AList.lookup_erase_ne hne,
        List.count_erase_of_ne (Ne.symm hinbox)])
  · rcases bound_run hforeign with hsame | ⟨rfl, hgone⟩
    · unfold KameoRuntime.address at hsame
      exact hkeep (by simp [records, KameoRuntime.address, hsame])
    · unfold KameoRuntime.address at hgone
      simp only [records, KameoRuntime.address, hgone]
      exact .kill (hkills rfl) _ _ _ _

end

/-! ### Runs -/

section

variable {kept : Records → Prop} {here : Address}

/-- What is kept of the records of the address `here`, in the runtime of its endpoint. -/
structure Tracked (kept : Records → Prop) (here : Address) (pumped : Pumped P) : Prop where
  endpoint : pumped.rt.endpoint = here.endpoint
  sound : pumped.Sound
  records : kept (pumped.records here.name)

theorem Fresh.tracked {pumped : Pumped P} {name : ActorName} (h : pumped.Fresh name)
    (hkept : kept ⟨false, false, 0, false⟩) : Tracked kept (pumped.rt.address name) pumped := by
  refine ⟨rfl, ⟨fun name entry hentry => ?_, fun name hended => ?_⟩, ?_⟩
  · rw [h.roster name] at hentry
    cases hentry
  · rw [h.ended] at hended
    cases hended
  · have hunbound := h.unbound
    unfold KameoRuntime.address at hunbound
    simpa [Pumped.records, KameoRuntime.address, h.roster, h.ended, h.aborted, hunbound] using hkept

theorem Tracked.after {pumped : Pumped P} (h : Tracked kept here pumped) (kills : Prop)
    (hkept : ∀ records records', kept records → Records.Step kills records records' → kept records')
    (acts : List (Act P)) (hforeign : ∀ act ∈ acts, act.Foreign here)
    (hkills : ∀ act ∈ acts, act.Kills here.endpoint → kills) :
    Tracked kept here (pumped.after acts) := by
  have halong : Run.Along step (fun _ act => act.Foreign here ∧ (act.Kills here.endpoint → kills))
      pumped acts :=
    Run.along_of_mem step (fun _ act hact => ⟨hforeign act hact, hkills act hact⟩) pumped
  refine Run.invariant step ?_ pumped acts h halong
  rintro pumped act ⟨hendpoint, hsound, hrecords⟩ ⟨hforeign, hkills⟩
  have hhere : here = pumped.rt.address here.name := by rw [KameoRuntime.address, hendpoint]
  have hstepped := step_stepped hsound act
  rw [hhere] at hforeign
  rw [← hendpoint] at hkills
  exact ⟨hstepped.endpoint.trans hendpoint, hstepped.sound hsound,
    hkept _ _ hrecords (hstepped.moves hsound hforeign hkills)⟩

end

/-! ### A name that is off the roster -/

section

variable {pumped : Pumped P} {name : ActorName}

theorem lingers_iff (howned : (pumped.records name).Owned) (hnone : pumped.rt.roster name = none) :
    pumped.Lingers name ↔ (pumped.rt.net.mailboxes.lookup (pumped.rt.address name)).isSome := by
  refine ⟨And.right, fun hbound => ⟨?_, hbound⟩⟩
  rcases howned hbound with ⟨hlisted, -⟩ | hpending
  · simp [records, hnone] at hlisted
  · exact List.count_pos_iff.mp hpending

theorem lingers_of_exclusive (hexclusive : (pumped.records name).Exclusive)
    (haborted : ⟨pumped.rt.address name⟩ ∈ pumped.rt.aborted) : pumped.Lingers name :=
  ⟨haborted, hexclusive.bound.mpr (Or.inr (List.count_pos_iff.mpr haborted))⟩

theorem installInner_ok_iff (howned : (pumped.records name).Owned)
    (hnone : pumped.rt.roster name = none) (allowlist : Allowlist) (deadlines : Deadlines)
    (kind : ActorKind) (party : Option (Boxed P)) :
    (pumped.rt.installInner name allowlist deadlines kind party).1 = .ok () ↔ ¬ pumped.Lingers name := by
  rw [lingers_iff howned hnone, Option.not_isSome_iff_eq_none]
  rcases pumped.rt.installInner_cases name allowlist deadlines kind party with
    ⟨error, hinstalled, htaken⟩ | ⟨entry, -, -, hunbound, hinstalled⟩
  · rw [hinstalled]
    exact ⟨nofun, fun hunbound => absurd ⟨hnone, hunbound⟩ htaken⟩
  · rw [hinstalled]
    exact ⟨fun _ => hunbound, fun _ => rfl⟩

theorem spawned_iff (howned : (pumped.records name).Owned) (hnone : pumped.rt.roster name = none)
    (controller : Address) :
    (pumped.rt.execute (.Spawn name) controller).1 = some (.Harness (.Spawned name)) ↔
      ¬ pumped.Lingers name := by
  rw [(pumped.rt.execute_spawn name controller).2]
  exact installInner_ok_iff howned hnone ..

theorem Stops.step {act : Act P} (h : pumped.Stops name act) :
    (pumped.step act).rt.roster name = none ∧ (pumped.step act).rt.net = pumped.rt.net ∧
      (pumped.step act).rt.endpoint = pumped.rt.endpoint := by
  have hstop : (pumped.rt.stop name).1 = .ok () ∧
      pumped.step act = pumped.stopped name (pumped.rt.stop name).2 := by
    cases act with
    | Stop other =>
      obtain ⟨rfl, hok⟩ := h
      exact ⟨hok, rfl⟩
    | Execute command controller =>
      cases command with
      | Stop other =>
        obtain ⟨rfl, hok⟩ := h
        have hexecute := pumped.rt.execute_stop other controller
        exact ⟨hexecute.2.mp hok, congrArg (pumped.stopped other) hexecute.1⟩
      | Ping | Spawn _ | Spawned _ | Stopped _ | Pong | Failed _ => exact absurd h not_false
    | Install _ _ _ _ _ | Hosted _ _ | PumpEnds _ | Dropped _ | Elsewhere _ => exact absurd h not_false
  obtain ⟨hok, hstep⟩ := hstop
  rw [hstep]
  unfold stopped KameoRuntime.stop at *
  cases hentry : pumped.rt.roster name with
  | none => simp [hentry] at hok
  | some entry => split <;> simp

theorem Stops.lingers_iff {act : Act P} (h : pumped.Stops name act)
    (howned : ((pumped.step act).records name).Owned) :
    (pumped.step act).Lingers name ↔
      (pumped.rt.net.mailboxes.lookup (pumped.rt.address name)).isSome := by
  obtain ⟨hgone, hnet, hendpoint⟩ := h.step
  rw [Pumped.lingers_iff howned hgone, hnet, KameoRuntime.address, hendpoint]
  rfl

end

end Pumped

/-! ## The reference runtime -/

/-- In `LocalRuntime`, the mailbox is gone when the reply is there. -/
theorem LocalRuntime.unbound_of_stopped {P : Type} [Party P] {rt : LocalRuntime P Shared MemoryInbox}
    (hfresh : rt.Fresh) (calls : List (Call P Shared)) {name : ActorName} {controller : Address}
    (hstopped : ((rt.after calls).execute (.Stop name) controller).result =
      some (.Harness (.Stopped name))) :
    let stopped := ((rt.after calls).execute (.Stop name) controller).rt
    stopped.actors name = none ∧ stopped.net.mailboxes.lookup (stopped.address name) = none := by
  intro stopped
  have hopens : opens (.Harness (.Stop name)) = true := rfl
  obtain ⟨reply, hreply, hexecuted⟩ := (rt.after calls).execute_executed hopens controller
  obtain ⟨rfl⟩ : reply = .Stopped name := by simpa [hstopped, eq_comm] using hreply
  have hmoored := moored_after hfresh calls
  change Executed (rt.after calls) controller (.Stop name) (.Stopped name) stopped at hexecuted
  generalize stopped = stopped at hexecuted
  rcases hexecuted with _ | _ | _ | ⟨_, actor, hactor⟩ | _
  refine ⟨Function.update_self .., ?_⟩
  have haddress : actor.inbox.address = (rt.after calls).address name := hmoored name actor hactor
  simp only [Registry.dropInbox, Shared.dropInbox, haddress]
  exact AList.lookup_erase ..

theorem LocalRuntime.installInner_ok {P : Type} {rt : LocalRuntime P Shared MemoryInbox}
    {name : ActorName} (hnone : rt.actors name = none)
    (hunbound : rt.net.mailboxes.lookup (rt.address name) = none) (allowlist : Allowlist)
    (deadlines : Deadlines) (kind : ActorKind) (party : Option (Boxed P)) :
    (rt.installInner name allowlist deadlines kind party).result = .ok () := by
  simp only [installInner, hnone, Registry.bind, Shared.register, hunbound]
  rfl

/-- The reference runtime frees the name before it replies, and it stays free whatever others do. -/
theorem LocalRuntime.free_of_stopped {P : Type} [Party P] {rt : LocalRuntime P Shared MemoryInbox}
    (hfresh : rt.Fresh) (calls : List (Call P Shared)) (name : ActorName) (controller : Address)
    (ops : List Shared.Op) :
    let ran := (rt.after calls).execute (.Stop name) controller
    let now := { ran.rt with net := Run.after Shared.run ran.rt.net ops }
    ran.result = some (.Harness (.Stopped name)) → (∀ op ∈ ops, op.Foreign (ran.rt.address name)) →
      (∀ allowlist deadlines kind party,
        (now.installInner name allowlist deadlines kind party).result = .ok ()) ∧
      ∀ controller, (now.execute (.Spawn name) controller).result =
        some (.Harness (.Spawned name)) := by
  intro ran now hstopped hforeign
  obtain ⟨hnone, hunbound⟩ := unbound_of_stopped hfresh calls hstopped
  have hstill : now.net.mailboxes.lookup (now.address name) = none := by
    refine Shared.runs_unbound hunbound ops fun op hop heq => ?_
    have hop := hforeign op hop
    rw [heq] at hop
    exact hop rfl
  have hinstalls : ∀ allowlist deadlines kind party,
      (now.installInner name allowlist deadlines kind party).result = .ok () :=
    installInner_ok hnone hstill
  refine ⟨hinstalls, fun controller => ?_⟩
  simp only [execute, installParty, hinstalls]

namespace Pumped

/-- After a stop, the name is free just when the scheduler dropped the pump that the stop aborted, or its
mailbox was taken away in another way. The reference runtime frees it before it replies. -/
theorem free_once_dropped {P : Type} [Party P] {fresh : Pumped P} {name : ActorName}
    (hfresh : fresh.Fresh name) (before later : List (Act P)) (stopping : Act P)
    (hforeign : ∀ act ∈ before ++ stopping :: later, act.Foreign (fresh.rt.address name))
    (hstops : (fresh.after before).Stops name stopping)
    (hoff : (((fresh.after before).step stopping).after later).rt.roster name = none) :
    (let stopped := (fresh.after before).step stopping
      let now := stopped.after later
      stopped.rt.roster name = none ∧
      (stopped.Lingers name ↔ ((fresh.after before).rt.net.mailboxes.lookup
        ((fresh.after before).rt.address name)).isSome) ∧
      (∀ allowlist deadlines kind party,
        (now.rt.installInner name allowlist deadlines kind party).1 = .ok () ↔ ¬ now.Lingers name) ∧
      (∀ controller, (now.rt.execute (.Spawn name) controller).1 = some (.Harness (.Spawned name)) ↔
        ¬ now.Lingers name) ∧
      ((∀ act ∈ before ++ stopping :: later, ¬ act.Kills fresh.rt.endpoint) →
        (now.Lingers name ↔ ⟨now.rt.address name⟩ ∈ now.rt.aborted))) ∧
    ∀ rt : LocalRuntime P Shared MemoryInbox, rt.Fresh → ∀ calls name controller ops,
      let ran := (rt.after calls).execute (.Stop name) controller
      let now := { ran.rt with net := Run.after Shared.run ran.rt.net ops }
      ran.result = some (.Harness (.Stopped name)) → (∀ op ∈ ops, op.Foreign (ran.rt.address name)) →
        (∀ allowlist deadlines kind party,
          (now.installInner name allowlist deadlines kind party).result = .ok ()) ∧
        ∀ controller, (now.execute (.Spawn name) controller).result =
          some (.Harness (.Spawned name)) := by
  refine ⟨?_, ?_⟩
  · intro stopped now
    have hlast : now = fresh.after (before ++ stopping :: later) := by
      simp [now, stopped, after]
    have hsplit : ∀ act ∈ before ++ [stopping], act ∈ before ++ stopping :: later := by
      intro act hact
      rw [List.mem_append, List.mem_singleton] at hact
      rw [List.mem_append, List.mem_cons]
      exact hact.imp_right Or.inl
    have howned : Tracked Records.Owned (fresh.rt.address name) fresh := hfresh.tracked nofun
    have hstopped : Tracked Records.Owned (fresh.rt.address name) stopped := by
      have h := howned.after True (fun _ _ => Records.Owned.step) (before ++ [stopping])
        (fun act hact => hforeign act (hsplit act hact)) (fun _ _ _ => trivial)
      simpa [stopped, after] using h
    have hnow : Tracked Records.Owned (fresh.rt.address name) now := by
      rw [hlast]
      exact howned.after True (fun _ _ => Records.Owned.step) _ hforeign (fun _ _ _ => trivial)
    refine ⟨hstops.step.1, hstops.lingers_iff hstopped.records, installInner_ok_iff hnow.records hoff,
      spawned_iff hnow.records hoff, fun hspared => ?_⟩
    have hexclusive : Tracked Records.Exclusive (fresh.rt.address name) now := by
      rw [hlast]
      exact (hfresh.tracked ⟨by simp [Records.Held], Nat.zero_le 1, nofun⟩).after False
        (fun _ _ => Records.Exclusive.step) _ hforeign hspared
    exact ⟨And.left, lingers_of_exclusive hexclusive.records⟩
  · intro rt hfresh calls name controller ops
    exact LocalRuntime.free_of_stopped hfresh calls name controller ops

open Sample

/-- Alice had dave spawned at bob's endpoint. -/
def hosting : Pumped Empty :=
  (Pumped.mk (.new bob.endpoint .new 0 patience) ∅).after [.Execute (.Spawn dave.name) alice]

/-- Alice stops dave, and can spawn him again when the scheduler dropped his pump. -/
theorem free_once_dropped_dave :
    (hosting.step (.Stop dave.name)).Lingers dave.name ∧
      (((hosting.step (.Stop dave.name)).after [.Dropped ⟨dave⟩]).rt.execute (.Spawn dave.name)
        alice).1 = some (.Harness (.Spawned dave.name)) := by
  have hfresh : (Pumped.mk (.new bob.endpoint .new 0 patience) ∅ : Pumped Empty).Fresh dave.name :=
    ⟨fun _ => rfl, rfl, rfl, rfl⟩
  have hforeign : ∀ act ∈ ([.Execute (.Spawn dave.name) alice, .Stop dave.name,
      .Dropped ⟨dave⟩] : List (Act Empty)), act.Foreign dave := by
    simp [Act.Foreign]
  have hstops : hosting.Stops dave.name (.Stop dave.name) := ⟨rfl, by decide +kernel⟩
  have hoff : ((hosting.step (.Stop dave.name)).after [.Dropped ⟨dave⟩]).rt.roster dave.name = none := rfl
  obtain ⟨⟨-, hlingers, -, hspawn, -⟩, -⟩ := free_once_dropped hfresh
    [.Execute (.Spawn dave.name) alice] [.Dropped ⟨dave⟩] (.Stop dave.name) hforeign hstops hoff
  refine ⟨hlingers.mpr (by decide +kernel), (hspawn alice).mpr fun hstill => ?_⟩
  have hgone : (⟨dave⟩ : MemoryInbox) ∉
      ((hosting.step (.Stop dave.name)).after [.Dropped ⟨dave⟩]).rt.aborted := by decide +kernel
  exact hgone hstill.1

/-- Alice stops dave and spawns him again, before the scheduler does anything. The name is taken still,
and with the reference runtime it is free. -/
theorem stopped_still_bound :
    (hosting.rt.execute (.Stop dave.name) alice).1 = some (.Harness (.Stopped dave.name)) ∧
      ((hosting.step (.Execute (.Stop dave.name) alice)).rt.execute (.Spawn dave.name) alice).1 =
        some (.Harness (.Failed "binding failed: an actor with this address is already registered")) ∧
      let reference := ((bobsRuntime Empty).execute (.Spawn dave.name) alice).rt
      let stopped := reference.execute (.Stop dave.name) alice
      stopped.result = some (.Harness (.Stopped dave.name)) ∧
        (stopped.rt.execute (.Spawn dave.name) alice).result =
          some (.Harness (.Spawned dave.name)) := by
  decide +kernel

end Pumped

end Kamiroh
