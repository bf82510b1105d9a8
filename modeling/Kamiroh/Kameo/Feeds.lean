import Kamiroh.Kameo.Flows

/-!
# What a host is fed

Every delivery that arrives and every death that is reported comes to the host once and in order, whatever
the tasks do in between.
-/

namespace Kamiroh

variable {P : Type}

/-! ## What the report of a death comes to -/

namespace KameoRuntime

variable [Party P] (rt : KameoRuntime P Shared MemoryInbox) (cause : FailureCause)

end KameoRuntime

namespace Fed

variable {here : Address} {watch : WatchId} {fed : Fed P} [Party P]

def handledBy (fed : Fed P) (acts : List (Act P)) : List Mail :=
  Run.outputs (fun fed a => (fed.step a, fed.handled a)) fed acts

/-- All deliveries that came to the mailbox of the network. -/
def arrivedBy (fed : Fed P) (acts : List (Act P)) : List Delivery :=
  Run.outputs (fun fed a => (fed.step a, fed.arrived a)) fed acts

omit [Party P] in
/-- A hosted actor whose pump starts. -/
def launch (name : ActorName) (rt : KameoRuntime P Shared MemoryInbox) (watch : WatchId) (watching : Watching) :
    Fed P :=
  ⟨.start name rt, .Polling, watch, watching⟩

/-- What one line hands to the next, and the mailbox of the host to the host. -/
theorem handled_line {ω : Type} (f : Mail → List ω) {content : Fed P → List ω} {added : Fed P → Act P → List ω}
    (line : Run.Line step Lawful (Sound here watch) Hosted content (fun fed a => (fed.told a).flatMap f) added)
    (h : Sound here watch fed) (hempty : fed.actor.mailbox = []) (hhosted : fed.Hosted) {acts : List (Act P)}
    (hacts : Run.Along step Lawful fed acts) :
    (fed.handledBy acts).flatMap f <+:
        content fed ++ Run.outputs (fun fed a => (fed.step a, added fed a)) fed acts ∧
      ((fed.after acts).Hosted →
        (fed.handledBy acts).flatMap f ++ (fed.after acts).actor.mailbox.flatMap f ++ content (fed.after acts) =
          content fed ++ Run.outputs (fun fed a => (fed.step a, added fed a)) fed acts) := by
  have htold := Run.outputs_flatMap (fun (fed : Fed P) a => (fed.step a, fed.told a)) f fed acts
  constructor
  · have hhandled := (host_line.taken_prefix fed acts h hacts hhosted).flatMap f
    rw [hempty, List.nil_append, htold] at hhandled
    exact hhandled.trans (line.taken_prefix fed acts h hacts hhosted)
  · intro hlast
    have hhandled := congrArg (List.flatMap f) (host_line.conserved fed acts h hacts hlast).2
    rw [hempty, List.nil_append, htold, List.flatMap_append] at hhandled
    rw [← (line.conserved fed acts h hacts hlast).2]
    exact congrArg (· ++ _) hhandled

section

variable {krt : KameoRuntime P Shared MemoryInbox} {name : ActorName} {allowlist : Allowlist}
  {deadlines : Deadlines} {kind : ActorKind} {party : Option (Boxed P)}

/-- A runtime where each pump has the inbox of its actor, and no aborted one still has that of `name`. -/
structure Clear (krt : KameoRuntime P Shared MemoryInbox) (name : ActorName) : Prop where
  moored : ∀ name entry, krt.roster name = some entry → entry.inbox = ⟨krt.address name⟩
  aborted : ⟨krt.address name⟩ ∉ krt.aborted

omit [Party P] in
theorem sound_launch (hclear : Clear krt name)
    (hinstalled : (krt.installInner name allowlist deadlines kind party).1 = .ok ())
    (hwatch : watch < krt.net.deathWatchers.length) {watching : Watching}
    (hnames : ∀ endpoint names, watching = .Telling endpoint names → names.Nodup) :
    let fed := launch name (krt.installInner name allowlist deadlines kind party).2 watch watching
    Sound (krt.address name) watch fed ∧ fed.Hosted ∧ fed.queue = [] ∧ fed.Bound ∧
      fed.deaths = krt.net.deaths watch := by
  intro fed
  rcases krt.installInner_cases name allowlist deadlines kind party with
    ⟨error, hcases, -⟩ | ⟨entry, hinbox, hfree, hunbound, hcases⟩
  · rw [hcases] at hinstalled
    cases hinstalled
  · have hroster : fed.rt.roster = Function.update krt.roster name (some entry) := by
      simp only [fed, launch, Fed.rt, KameoActor.start, hcases]
    have hnet : fed.rt.net = { krt.net with
        mailboxes := krt.net.mailboxes.insert (krt.address name) default } := by
      simp only [fed, launch, Fed.rt, KameoActor.start, hcases]
    have hrest : fed.rt.endpoint = krt.endpoint ∧ fed.rt.aborted = krt.aborted := by
      simp only [fed, launch, Fed.rt, KameoActor.start, hcases, and_self]
    have hhere : fed.here = krt.address name := by
      unfold here KameoRuntime.address
      rw [hrest.1]
      rfl
    have hmailbox : fed.rt.net.mailboxes.lookup fed.here = some default := by
      rw [hnet, hhere]
      exact AList.lookup_insert _
    refine ⟨⟨hrest.1, rfl, rfl, ?_, fun other entry' hentry' => ?_, fun haborted => ?_, hnames⟩, ?_, ?_, ?_, ?_⟩
    · rw [hnet]
      exact hwatch
    · rw [hroster] at hentry'
      rw [KameoRuntime.address, hrest.1]
      by_cases hother : other = name
      · subst hother
        rw [Function.update_self] at hentry'
        cases hentry'
        exact hinbox
      · rw [Function.update_of_ne hother] at hentry'
        exact hclear.moored other entry' hentry'
    · rw [hrest.2] at haborted
      exact absurd haborted hclear.aborted
    · unfold Hosted KameoActor.host KameoRuntime.host
      change (fed.rt.roster name).map Entry.host ≠ none
      rw [hroster, Function.update_self]
      exact Option.some_ne_none _
    · rw [queue, hmailbox]
      rfl
    · rw [Bound, hmailbox]
      rfl
    · rw [deaths, hnet]
      rfl

/-- What arrives in the mailbox of a hosted actor is handled once and in order. Between the network and the
handler, nothing is lost as long as the actor is on the roster and its mailbox is in the network: what is
not handled yet is in the mailbox of the host, with the pump, or in the mailbox of the network. Whatever
ends the actor or its mailbox, what was handled is what arrived first. -/
theorem deliveries_pass_in_order (hclear : Clear krt name)
    (hinstalled : (krt.installInner name allowlist deadlines kind party).1 = .ok ())
    (hwatch : watch < krt.net.deathWatchers.length) {watching : Watching}
    (hnames : ∀ endpoint names, watching = .Telling endpoint names → names.Nodup) (acts : List (Act P)) :
    let start := launch name (krt.installInner name allowlist deadlines kind party).2 watch watching
    let fed := start.after acts
    let handled := (start.handledBy acts).flatMap Mail.delivery
    let waiting := fed.actor.mailbox.flatMap Mail.delivery ++ fed.pump.held
    Run.Along step Lawful start acts →
      handled <+: start.arrivedBy acts ∧
      (fed.Hosted → handled ++ waiting <+: start.arrivedBy acts) ∧
      (fed.Hosted → fed.Bound → start.arrivedBy acts = handled ++ waiting ++ fed.queue) := by
  intro start fed handled waiting hacts
  obtain ⟨hsound, hhosted, hqueue, hbound, -⟩ := sound_launch hclear hinstalled hwatch hnames
  obtain ⟨hstarts, hconserved⟩ := handled_line Mail.delivery pump_line hsound rfl hhosted hacts
  have hdrawn := mailbox_line.taken_prefix start acts hsound hacts hbound
  rw [hqueue, List.nil_append] at hdrawn
  refine ⟨hstarts.trans hdrawn, fun hlast => ?_, fun hlast hbound => ?_⟩
  · rw [← List.append_assoc]
    exact (hconserved hlast) ▸ hdrawn
  · have harrived := (mailbox_line.conserved start acts hsound hacts hbound).2
    rw [hqueue, List.nil_append] at harrived
    rw [← List.append_assoc]
    refine harrived.symm.trans (congrArg (· ++ fed.queue) ?_)
    exact (hconserved hlast).symm

open Sample in
/-- Alice says three things. Bob's host handles the first one, while the pump tells it the second. -/
theorem deliveries_pass_in_order_alice :
    let net := ((Shared.new.register alice).2.deathWatch).2
    let krt : KameoRuntime CountdownParty Shared MemoryInbox := .new bob.endpoint net 0 patience
    let party : Option (Boxed CountdownParty) := some (.app (.new 2))
    let start := launch bob.name (krt.installInner bob.name ⟨{alice.endpoint}⟩ patience .Plain party).2 0 .Waiting
    let say (n : UInt8) : Act CountdownParty :=
      .Elsewhere (.Send alice bob (.Turn (.Open (request n)))) 0 fun _ => none
    let acts := [say 1, .Poll 0, .Hand false, say 2, say 3, .Poll 0, .Host .Handle]
    let fed := start.after acts
    start.arrivedBy acts = (start.handledBy acts).flatMap Mail.delivery ++
      (fed.actor.mailbox.flatMap Mail.delivery ++ fed.pump.held) ++ fed.queue ∧
      ((start.handledBy acts).length, fed.pump.held.length, fed.queue.length) = (1, 1, 1) := by
  intro net krt party start say acts fed
  have hclear : Clear krt bob.name := ⟨fun _ _ h => (Option.some_ne_none _ h.symm).elim, List.not_mem_nil⟩
  have hsay : ∀ n (fed : Fed CountdownParty), fed.Lawful (say n) := by
    refine fun n fed => ⟨trivial, fun waker => ⟨fun h => ?_, fun h => ?_⟩, fun _ _ h => ?_⟩ <;> cases h
  have hacts : Run.Along step Lawful start acts :=
    ⟨hsay 1 _, trivial, trivial, hsay 2 _, hsay 3 _, trivial, trivial, trivial⟩
  have hall := deliveries_pass_in_order hclear rfl (by decide) (fun _ _ h => (by cases h)) acts hacts
  refine ⟨hall.2.2 (Option.isSome_iff_ne_none.mp ?_) ?_, ?_⟩ <;> decide +kernel

end

end Fed

end Kamiroh
