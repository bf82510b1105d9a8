import Kamiroh.Conversation
import Kamiroh.Mailboxes
import Kamiroh.Runtime.Conversations

/-!
# Harness commands and their replies

A harness actor answers each command with one message. The message completes the exchange on the
initiator's side, and says what became of the roster.
-/

namespace Kamiroh

/-! ## Bound addresses -/

/-- Which addresses of a network are bound. `bind` binds one, dropping the inbox unbinds it, and a send
does neither. -/
class Binds (N : Type) (Ib : outParam Type) [Transport N] [Registry N Ib] where
  bound : N → Address → Prop
  address : Ib → Address
  bind_ok : ∀ {net net' : N} {here : Address} {inbox : Ib},
    Registry.bind net here = (.ok inbox, net') → address inbox = here ∧ bound net' here
  bound_dropInbox : ∀ (net : N) (inbox : Ib), ¬ bound (Registry.dropInbox net inbox) (address inbox)
  bound_send : ∀ (net : N) (origin target : Address) (message : Message) (here : Address),
    bound (Transport.send net origin target message).2 here ↔ bound net here

instance : Binds Shared MemoryInbox where
  bound net here := (net.mailboxes.lookup here).isSome
  address := MemoryInbox.address
  bind_ok h := by
    obtain ⟨-, rfl, rfl⟩ := Shared.bind_ok h
    simp
  bound_dropInbox net inbox := by simp [Registry.dropInbox, Shared.dropInbox]
  bound_send net origin target message here := by
    simp only [Transport.send, Shared.send]
    split
    · rfl
    · split
      · simp [Shared.push_lookup]
      · rfl

namespace LocalRuntime

variable {P N Ib : Type} [Registry N Ib]

/-! ## What a command does -/

theorem installInner_cases (rt : LocalRuntime P N Ib) (name : ActorName) (allowlist : Allowlist)
    (deadlines : Deadlines) (kind : ActorKind) (party : Option (Boxed P)) :
    (∃ error net, rt.installInner name allowlist deadlines kind party =
        ⟨.error error, { rt with net }, []⟩) ∨
      ∃ inbox net, rt.actors name = none ∧
        Registry.bind rt.net (rt.address name) = (.ok inbox, net) ∧
        rt.installInner name allowlist deadlines kind party =
          ⟨.ok (), { rt with net }.setActor name ⟨inbox, allowlist, kind, deadlines, party, ∅⟩, []⟩ := by
  unfold installInner
  split
  · exact Or.inl ⟨.NameInUse, rt.net, rfl⟩
  · rename_i hfree
    split
    · exact Or.inl ⟨_, _, rfl⟩
    · rename_i inbox net hbind
      exact Or.inr ⟨inbox, net, by simpa using hfree, hbind, rfl⟩

/-- The cases of a command: the command, its reply, and the runtime after it. -/
inductive Executed (rt : LocalRuntime P N Ib) (controller : Address) :
    Harness → Harness → LocalRuntime P N Ib → Prop
  | pinged : Executed rt controller .Ping .Pong rt
  | spawned (name : ActorName) (hfree : rt.actors name = none) (inbox : Ib) (net : N)
      (hbind : Registry.bind rt.net (rt.address name) = (.ok inbox, net)) :
      Executed rt controller (.Spawn name) (.Spawned name)
        ({ rt with net }.setActor name ⟨inbox, Allowlist.empty.admitEndpoint controller.endpoint, .Plain,
          rt.spawnDeadlines, some (.echo .new), ∅⟩)
  | refused (name : ActorName) (error : RuntimeError) (net : N) :
      Executed rt controller (.Spawn name) (.Failed error.display) { rt with net }
  | stopped (name : ActorName) (actor : LocalActor P Ib) (hactor : rt.actors name = some actor) :
      Executed rt controller (.Stop name) (.Stopped name)
        { rt with
          actors := Function.update rt.actors name none
          net := Registry.dropInbox rt.net actor.inbox }
  | missing (name : ActorName) (hnone : rt.actors name = none) :
      Executed rt controller (.Stop name) (.Failed "no such actor") rt

theorem execute_executed (rt : LocalRuntime P N Ib) {command : Harness}
    (hcommand : opens (.Harness command) = true) (controller : Address) :
    ∃ reply, (rt.execute command controller).result = some (.Harness reply) ∧
      Executed rt controller command reply (rt.execute command controller).rt := by
  cases command with
  | Spawned _ | Stopped _ | Pong | Failed _ => cases hcommand
  | Ping => exact ⟨.Pong, rfl, .pinged⟩
  | Spawn name =>
    simp only [execute, installParty]
    rcases rt.installInner_cases name (Allowlist.empty.admitEndpoint controller.endpoint)
      rt.spawnDeadlines .Plain (some (.echo .new)) with
      ⟨error, net, hinstalled⟩ | ⟨inbox, net, hfree, hbind, hinstalled⟩
    · simp only [hinstalled]
      exact ⟨_, rfl, .refused name error net⟩
    · simp only [hinstalled]
      exact ⟨_, rfl, .spawned name hfree inbox net hbind⟩
  | Stop name =>
    simp only [execute]
    split
    · rename_i actor hactor
      exact ⟨_, rfl, .stopped name actor hactor⟩
    · rename_i hnone
      exact ⟨_, rfl, .missing name hnone⟩

theorem execute_ignored (rt : LocalRuntime P N Ib) {command : Harness}
    (hcommand : opens (.Harness command) = false) (controller : Address) :
    rt.execute command controller = ⟨none, rt, []⟩ := by
  cases command with
  | Spawn _ | Stop _ | Ping => cases hcommand
  | Spawned _ | Stopped _ | Pong | Failed _ => rfl

theorem completes_failed {command : Harness} (hcommand : opens (.Harness command) = true)
    (reason : String) : completes (.Harness command) (.Harness (.Failed reason)) = true := by
  cases command with
  | Spawn _ | Stop _ | Ping => rfl
  | Spawned _ | Stopped _ | Pong | Failed _ => cases hcommand

theorem Executed.completes {rt rt' : LocalRuntime P N Ib} {controller : Address}
    {command reply : Harness} (h : Executed rt controller command reply rt') :
    completes (.Harness command) (.Harness reply) = true := by
  cases h <;> simp [Kamiroh.completes]

/-! ## Each actor has its own inbox -/

variable [Transport N] [Binds N Ib]

def Moored (rt : LocalRuntime P N Ib) : Prop :=
  ∀ name actor, rt.actors name = some actor → Binds.address N actor.inbox = rt.address name

section

variable {rt rt' : LocalRuntime P N Ib}

theorem Moored.of_same (h : rt.Moored) (hactors : rt'.actors = rt.actors)
    (hendpoint : rt'.endpoint = rt.endpoint) : rt'.Moored := by
  intro name actor hactor
  rw [hactors] at hactor
  rw [h name actor hactor, address, address, hendpoint]

theorem Moored.setActor (h : rt.Moored) {own : ActorName} {actor : LocalActor P Ib}
    (hinbox : Binds.address N actor.inbox = rt.address own) : (rt.setActor own actor).Moored := by
  intro name actor' hactor'
  by_cases hname : name = own
  · subst hname
    rw [setActor_self] at hactor'
    cases hactor'
    exact hinbox
  · rw [setActor_of_ne rt actor hname] at hactor'
    exact h name actor' hactor'

theorem Moored.installInner (h : rt.Moored) (name : ActorName) (allowlist : Allowlist)
    (deadlines : Deadlines) (kind : ActorKind) (party : Option (Boxed P)) :
    (rt.installInner name allowlist deadlines kind party).rt.Moored := by
  rcases rt.installInner_cases name allowlist deadlines kind party with
    ⟨error, net, hinstalled⟩ | ⟨inbox, net, hfree, hbind, hinstalled⟩
  · rw [hinstalled]
    exact h.of_same rfl rfl
  · rw [hinstalled]
    have hnet : ({ rt with net } : LocalRuntime P N Ib).Moored := h.of_same rfl rfl
    exact hnet.setActor (Binds.bind_ok hbind).1

theorem Executed.moored (h : rt.Moored) {controller : Address} {command reply : Harness}
    (hexecuted : Executed rt controller command reply rt') : rt'.Moored := by
  rcases hexecuted with _ | ⟨name, hfree, inbox, net, hbind⟩ | ⟨name, error, net⟩ |
    ⟨name, actor, hactor⟩ | _
  · exact h
  · have hnet : ({ rt with net } : LocalRuntime P N Ib).Moored := h.of_same rfl rfl
    exact hnet.setActor (Binds.bind_ok hbind).1
  · exact h.of_same rfl rfl
  · intro other actor' hactor'
    by_cases hname : other = name
    · subst hname
      simp at hactor'
    · exact h other actor' (by simpa [hname] using hactor')
  · exact h

theorem Moored.execute (h : rt.Moored) (command : Harness) (controller : Address) :
    (rt.execute command controller).rt.Moored := by
  cases hcommand : opens (.Harness command) with
  | true =>
    obtain ⟨reply, -, hexecuted⟩ := rt.execute_executed hcommand controller
    exact hexecuted.moored h
  | false =>
    rw [rt.execute_ignored hcommand controller]
    exact h

theorem Moored.retake (h : rt.Moored) {own : ActorName} {actor actor' : LocalActor P Ib}
    (hactor : rt.actors own = some actor) (hinbox : actor'.inbox = actor.inbox) :
    (rt.setActor own actor').Moored :=
  h.setActor (by rw [hinbox]; exact h own actor hactor)

variable [Party P]

theorem Moored.deliver (h : rt.Moored) {own : ActorName} {actor : LocalActor P Ib}
    (hactor : rt.actors own = some actor) {delivery : Delivery} {ran : Ran P N Ib Outcome}
    (hran : Delivered rt own actor delivery ran) : ran.rt.Moored := by
  rcases hran with ⟨hno⟩ | ⟨hok, request, hm⟩ | ⟨hok, ack, hm⟩ | ⟨hok, harness, hm, hkind⟩ |
    ⟨hok, harness, hm, hkind, reply, hreply⟩ | ⟨hok, harness, hm, hkind, hreply⟩ |
    ⟨hok, turn, hm, ran, hran⟩
  · exact h
  · simp only [sendAndReturn, send_rt]
    exact h.of_same rfl rfl
  · exact h.retake hactor rfl
  · simp only [sendAndReturn, send_rt]
    exact h.of_same rfl rfl
  · simp only [sendAndReturn, send_rt]
    exact (h.execute harness delivery.origin).of_same rfl rfl
  · exact h.execute harness delivery.origin
  · obtain ⟨net, actor', hrt, hsame⟩ := hran.same
    have hnet : ({ rt with net } : LocalRuntime P N Ib).Moored := h.of_same rfl rfl
    simp only [hrt]
    exact hnet.retake hactor hsame.inbox

theorem Moored.step (h : rt.Moored) (own : ActorName) (waited : Waited) :
    (rt.step own waited).rt.Moored := by
  cases hactor : rt.actors own with
  | none =>
    simp only [LocalRuntime.step, hactor]
    exact h
  | some actor =>
    have hdid := step_did hactor waited
    generalize rt.step own waited = ran at hdid
    rcases hdid with ⟨_, endpoint, hdead, hlive, _, rfl⟩ | ⟨endpoint, hquiet, _, rfl⟩ |
      ⟨hquiet, peer, kind, due, hdue, _, rfl⟩ | ⟨hquiet, hdue⟩ | ⟨hquiet⟩ |
      ⟨hquiet, delivery, ran, hran⟩
    · exact h.retake hactor (failEach_same ..).inbox
    · have hreported : (rt.reportDead endpoint).Moored := h.of_same rfl rfl
      exact hreported.retake hactor (failEach_same ..).inbox
    · exact h.retake hactor (LocalActor.SameActor.failExchange ..).inbox
    · exact h
    · exact h
    · have hheard : (rt.heardFrom delivery.origin.endpoint).Moored := h.of_same rfl rfl
      exact hheard.deliver hactor hran

theorem Moored.exec (h : rt.Moored) (call : Call P N) : (rt.exec call).1.Moored := by
  cases call with
  | Install name allowlist deadlines kind => exact h.installInner name allowlist deadlines kind none
  | InstallParty name allowlist deadlines party =>
    exact h.installInner name allowlist deadlines .Plain (some party)
  | Step name waited => exact h.step name waited
  | Elsewhere net clock => exact h.of_same rfl rfl
  | Admit name endpoint =>
    simp only [LocalRuntime.exec, admitEndpoint]
    split
    · rename_i actor hactor
      exact h.retake hactor rfl
    · exact h
  | Revoke name endpoint =>
    simp only [LocalRuntime.exec, revoke]
    split
    · rename_i actor hactor
      exact h.retake hactor (failEach_same ..).inbox
    · exact h
  | Rehash name conversations =>
    simp only [LocalRuntime.exec, rehash]
    split
    · rename_i actor hactor
      split
      · exact h.retake hactor rfl
      · exact h
    · exact h

theorem moored_after (hfresh : rt.Fresh) (calls : List (Call P N)) : (rt.after calls).Moored :=
  Run.invariant_all next (fun _ call h => h.exec call) rt calls fun name actor hactor => by
    rw [hfresh.actors name] at hactor
    cases hactor

end

/-! ## The reply tells what became of the roster -/

structure Truthful (rt : LocalRuntime P N Ib) (controller : Address) (reply : Harness)
    (rt' : LocalRuntime P N Ib) : Prop where
  spawned : ∀ name, reply = .Spawned name ↔
    rt.actors name = none ∧ ∃ actor, rt'.actors name = some actor ∧
      Binds.bound rt'.net (rt.address name) ∧
      ∀ endpoint, actor.allowlist.allows endpoint = true ↔ endpoint = controller.endpoint
  stopped : ∀ name, reply = .Stopped name ↔
    (rt.actors name).isSome ∧ rt'.actors name = none ∧ ¬ Binds.bound rt'.net (rt.address name)
  others : ∀ name, reply ≠ .Spawned name → reply ≠ .Stopped name → rt'.actors name = rt.actors name

section

variable {rt rt' : LocalRuntime P N Ib} {controller : Address}

theorem Truthful.same {reply : Harness} (hactors : rt'.actors = rt.actors)
    (hspawned : ∀ name, reply ≠ .Spawned name) (hstopped : ∀ name, reply ≠ .Stopped name) :
    Truthful rt controller reply rt' := by
  refine ⟨fun name => ⟨fun h => absurd h (hspawned name), ?_⟩,
    fun name => ⟨fun h => absurd h (hstopped name), ?_⟩, fun name _ _ => by rw [hactors]⟩
  · rintro ⟨hnone, actor, hactor, -⟩
    rw [hactors, hnone] at hactor
    cases hactor
  · rintro ⟨hsome, hnone, -⟩
    rw [hactors] at hnone
    rw [hnone] at hsome
    cases hsome

theorem Truthful.spawn {own : ActorName} (hothers : ∀ name, name ≠ own → rt'.actors name = rt.actors name)
    (hfree : rt.actors own = none) {actor : LocalActor P Ib} (hactor : rt'.actors own = some actor)
    (hbound : Binds.bound rt'.net (rt.address own))
    (hallows : ∀ endpoint, actor.allowlist.allows endpoint = true ↔ endpoint = controller.endpoint) :
    Truthful rt controller (.Spawned own) rt' := by
  refine ⟨fun name => ⟨?_, ?_⟩, fun name => ⟨nofun, ?_⟩, fun name hname _ => ?_⟩
  · rintro ⟨⟩
    exact ⟨hfree, actor, hactor, hbound, hallows⟩
  · rintro ⟨hnone, actor', hactor', -⟩
    by_cases hname : name = own
    · rw [hname]
    · rw [hothers name hname, hnone] at hactor'
      cases hactor'
  · rintro ⟨hsome, hnone, -⟩
    by_cases hname : name = own
    · rw [hname, hactor] at hnone
      cases hnone
    · rw [hothers name hname] at hnone
      rw [hnone] at hsome
      cases hsome
  · exact hothers name fun h => hname (by rw [h])

theorem Truthful.stop {own : ActorName} (hothers : ∀ name, name ≠ own → rt'.actors name = rt.actors name)
    {actor : LocalActor P Ib} (hactor : rt.actors own = some actor) (hgone : rt'.actors own = none)
    (hunbound : ¬ Binds.bound rt'.net (rt.address own)) :
    Truthful rt controller (.Stopped own) rt' := by
  refine ⟨fun name => ⟨nofun, ?_⟩, fun name => ⟨?_, ?_⟩, fun name _ hname => ?_⟩
  · rintro ⟨hnone, actor', hactor', -⟩
    by_cases hname : name = own
    · rw [hname, hactor] at hnone
      cases hnone
    · rw [hothers name hname, hnone] at hactor'
      cases hactor'
  · rintro ⟨⟩
    exact ⟨by rw [hactor]; rfl, hgone, hunbound⟩
  · rintro ⟨hsome, hnone, -⟩
    by_cases hname : name = own
    · rw [hname]
    · rw [hothers name hname] at hnone
      rw [hnone] at hsome
      cases hsome
  · exact hothers name fun h => hname (by rw [h])

theorem Executed.truthful (hmoored : rt.Moored) {command reply : Harness}
    (h : Executed rt controller command reply rt') : Truthful rt controller reply rt' := by
  rcases h with _ | ⟨name, hfree, inbox, net, hbind⟩ | ⟨name, error, net⟩ | ⟨name, actor, hactor⟩ |
    ⟨name, hnone⟩
  · exact .same rfl nofun nofun
  · exact .spawn (fun other hother => setActor_of_ne _ _ hother) hfree (setActor_self ..)
      (Binds.bind_ok hbind).2 (by simp)
  · exact .same rfl nofun nofun
  · refine .stop (fun other hother => Function.update_of_ne hother ..) hactor (Function.update_self ..) ?_
    rw [← hmoored name actor hactor]
    exact Binds.bound_dropInbox rt.net actor.inbox
  · exact .same rfl nofun nofun

theorem Truthful.heardFrom {endpoint : EndpointId} {reply : Harness}
    (h : Truthful (rt.heardFrom endpoint) controller reply rt') : Truthful rt controller reply rt' :=
  ⟨h.spawned, h.stopped, h.others⟩

theorem Truthful.send {reply : Harness} (h : Truthful rt controller reply rt') (origin target : Address)
    (message : Message) : Truthful rt controller reply (rt'.sendAndReturn origin target message).rt := by
  have hbound (here : Address) := Binds.bound_send rt'.net origin target message here
  simp only [sendAndReturn, send_rt]
  exact ⟨fun name => by simp only [hbound]; exact h.spawned name,
    fun name => by simp only [hbound]; exact h.stopped name, h.others⟩

end

omit [Registry N Ib] [Binds N Ib] in
theorem sent_of_accepted {rt : LocalRuntime P N Ib} {origin target : Address} {message : Message}
    (h : ∀ message', .Sent origin target message' false ∉ (rt.sendAndReturn origin target message).effects) :
    (rt.sendAndReturn origin target message).effects = [.Sent origin target message true] := by
  simp only [sendAndReturn, send_effects] at h ⊢
  cases hok : (rt.send origin target message).result.isOk with
  | true => rfl
  | false => exact absurd (by rw [hok]; exact List.mem_singleton_self _) (h message)

/-- A command that an actor takes from an admitted address, in a step that has nothing to sweep, is
answered by one message to that address. -/
theorem replies_truthful [Party P] {rt : LocalRuntime P N Ib} (hfresh : rt.Fresh)
    (calls : List (Call P N)) {name : ActorName} {actor : LocalActor P Ib}
    (hactor : (rt.after calls).actors name = some actor)
    (hquiet : actor.affected (· ∈ (rt.after calls).dead) = []) {controller self : Address}
    (hadmitted : actor.allowlist.allows controller.endpoint = true) {command : Harness}
    (hcommand : opens (.Harness command) = true)
    (hsent : ∀ message, .Sent self controller message false ∉
      ((rt.after calls).step name (.Delivery (some ⟨controller, self, .Harness command⟩))).effects) :
    let ran := (rt.after calls).step name (.Delivery (some ⟨controller, self, .Harness command⟩))
    ∃ reply, ran.effects = [.Sent self controller (.Harness reply) true] ∧
      (∀ conversation begun : Conversation, conversation.begin (.Harness command) = (.ok (), begun) →
        begun.conclude (.Harness reply) = (.ok (), conversation)) ∧
      Truthful (rt.after calls) controller reply ran.rt := by
  intro ran
  have hran : ran = (rt.after calls).step name _ := rfl
  rw [← hran] at hsent
  rw [step_delivery _ hactor hquiet] at hran
  have hdelivered := deliver_delivered (rt.after calls) name actor
    ⟨controller, self, .Harness command⟩
  rw [← hran] at hdelivered
  have hmoored : ((rt.after calls).heardFrom controller.endpoint).Moored :=
    (moored_after hfresh calls).of_same rfl rfl
  generalize ran = ran at hsent hdelivered
  rcases hdelivered with ⟨hno⟩ | ⟨hok, request, hm⟩ | ⟨hok, ack, hm⟩ | ⟨hok, harness, hm, hkind⟩ |
    ⟨hok, harness, hm, hkind, reply, hreply⟩ | ⟨hok, harness, hm, hkind, hreply⟩ |
    ⟨hok, turn, hm, ran, hran⟩
  · cases hno.symm.trans hadmitted
  · cases hm
  · cases hm
  · refine ⟨.Failed "not a harness actor", sent_of_accepted hsent, fun conversation begun hbegun => ?_, ?_⟩
    · exact Conversation.conclude_of_begin hbegun (completes_failed hcommand _)
    · have hsame : Truthful ((rt.after calls).heardFrom controller.endpoint) controller
          (.Failed "not a harness actor") ((rt.after calls).heardFrom controller.endpoint) :=
        .same rfl nofun nofun
      exact (hsame.send self controller _).heardFrom
  · cases hm
    obtain ⟨reply', hreply', hexecuted⟩ :=
      ((rt.after calls).heardFrom controller.endpoint).execute_executed hcommand controller
    cases hreply.symm.trans hreply'
    refine ⟨reply', sent_of_accepted hsent, fun conversation begun hbegun =>
      Conversation.conclude_of_begin hbegun hexecuted.completes, ?_⟩
    exact ((hexecuted.truthful hmoored).send self controller (.Harness reply')).heardFrom
  · cases hm
    obtain ⟨reply', hreply', -⟩ :=
      ((rt.after calls).heardFrom controller.endpoint).execute_executed hcommand controller
    cases hreply.symm.trans hreply'
  · cases hm

open Sample

/-- Alice has a mailbox, and bob is a harness actor that admits her. -/
def commandable : List (Call Empty Shared) :=
  [.Elsewhere (fun net => (net.register alice).2) 0,
    .Install bob.name (Allowlist.empty.admitEndpoint alice.endpoint) patience .Harness]

/-- Alice tells bob to stop himself. -/
theorem replies_truthful_bob :
    ∃ reply, (((bobsRuntime Empty).after commandable).step bob.name
        (.Delivery (some ⟨alice, bob, .Harness (.Stop bob.name)⟩))).effects =
          [.Sent bob alice (.Harness reply) true] ∧
      Truthful ((bobsRuntime Empty).after commandable) alice reply
        (((bobsRuntime Empty).after commandable).step bob.name
          (.Delivery (some ⟨alice, bob, .Harness (.Stop bob.name)⟩))).rt := by
  obtain ⟨actor, hactor⟩ : ∃ actor, ((bobsRuntime Empty).after commandable).actors bob.name = some actor :=
    ⟨_, rfl⟩
  have hfacts : (((bobsRuntime Empty).after commandable).actors bob.name).all (fun actor =>
      (actor.affected (· ∈ ((bobsRuntime Empty).after commandable).dead) = [] : Bool) &&
        actor.allowlist.allows alice.endpoint) = true := by decide +kernel
  rw [hactor, Option.all_some, Bool.and_eq_true, decide_eq_true_eq] at hfacts
  have haccepted : ∀ message, .Sent bob alice message false ∉
      (((bobsRuntime Empty).after commandable).step bob.name
        (.Delivery (some ⟨alice, bob, .Harness (.Stop bob.name)⟩))).effects := by
    have heffects : (((bobsRuntime Empty).after commandable).step bob.name
        (.Delivery (some ⟨alice, bob, .Harness (.Stop bob.name)⟩))).effects =
          [.Sent bob alice (.Harness (.Stopped bob.name)) true] := by decide +kernel
    rw [heffects]
    simp
  obtain ⟨reply, hsent, -, htruthful⟩ := replies_truthful (bobsRuntime_fresh Empty) commandable hactor
    hfacts.1 hfacts.2 (by rfl) haccepted
  exact ⟨reply, hsent, htruthful⟩

end LocalRuntime

end Kamiroh
