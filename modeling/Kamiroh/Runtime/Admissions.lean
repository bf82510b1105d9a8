import Kamiroh.Runtime.Conversations

/-!
# Who is admitted, and since when

A call changes the roster and the allowlists in the ways that `Roster` lists, and in no other. So each
endpoint on an allowlist was put there by an event of the run, and nothing took it off since.
-/

namespace Kamiroh.LocalRuntime

variable {P N Ib : Type}

/-- The call is a step in which a harness actor takes `command` from an endpoint that it admits. -/
inductive Commands (rt : LocalRuntime P N Ib) (command : Harness) (endpoint : EndpointId) :
    Call P N → Prop
  | step (harness : ActorName) (actor : LocalActor P Ib) (hactor : rt.actors harness = some actor)
      (hkind : actor.kind = .Harness) (hadmitted : actor.allowlist.allows endpoint = true)
      (delivery : Delivery) (horigin : delivery.origin.endpoint = endpoint)
      (hmessage : delivery.message = .Harness command) :
      Commands rt command endpoint (.Step harness (.Delivery (some delivery)))

/-- What a call makes of the actor `name`. -/
inductive Roster (rt : LocalRuntime P N Ib) (name : ActorName) (call : Call P N) :
    Option (LocalActor P Ib) → Option (LocalActor P Ib) → Prop
  | absent : Roster rt name call none none
  | kept (actor actor' : LocalActor P Ib) (hkind : actor'.kind = actor.kind)
      (hallows : ∀ endpoint, actor'.allowlist.allows endpoint = true →
        actor.allowlist.allows endpoint = true ∨ call = .Admit name endpoint)
      (hrevoked : ∀ endpoint, call = .Revoke name endpoint →
        actor'.allowlist.allows endpoint = false) :
      Roster rt name call (some actor) (some actor')
  | installed (actor : LocalActor P Ib)
      (hcall : (∃ deadlines, call = .Install name actor.allowlist deadlines actor.kind) ∨
        actor.kind = .Plain ∧
          ∃ deadlines party, call = .InstallParty name actor.allowlist deadlines party) :
      Roster rt name call none (some actor)
  | spawned (endpoint : EndpointId) (h : Commands rt (.Spawn name) endpoint call)
      (actor : LocalActor P Ib) (hkind : actor.kind = .Plain)
      (hallows : ∀ endpoint', actor.allowlist.allows endpoint' = true → endpoint' = endpoint) :
      Roster rt name call none (some actor)
  | stopped (endpoint : EndpointId) (h : Commands rt (.Stop name) endpoint call)
      (actor : LocalActor P Ib) : Roster rt name call (some actor) none

section

variable {rt : LocalRuntime P N Ib} {name : ActorName} {call : Call P N}

theorem Roster.same (hcall : ∀ endpoint, call ≠ .Revoke name endpoint)
    (actor : Option (LocalActor P Ib)) : Roster rt name call actor actor := by
  cases actor with
  | none => exact .absent
  | some actor =>
    exact .kept actor actor rfl (fun _ h => Or.inl h) fun endpoint h => absurd h (hcall endpoint)

theorem Roster.setActor (hcall : ∀ endpoint, call ≠ .Revoke name endpoint) {own : ActorName}
    {actor actor' : LocalActor P Ib} (hactor : rt.actors own = some actor)
    (hsame : actor.SameActor actor') {rt' : LocalRuntime P N Ib} (hrt : rt'.actors = rt.actors) :
    Roster rt name call (rt.actors name) ((rt'.setActor own actor').actors name) := by
  by_cases hname : name = own
  · subst hname
    rw [hactor, setActor_self]
    refine .kept actor actor' hsame.kind (fun endpoint h => ?_) fun e h => absurd h (hcall e)
    rw [hsame.allowlist] at h
    exact Or.inl h
  · rw [setActor_of_ne rt' actor' hname, hrt]
    exact .same hcall _

end

/-! ## The inversion -/

variable [Party P] [Transport N] [Registry N Ib]

omit [Party P] [Transport N] in
theorem execute_roster {rt rt' : LocalRuntime P N Ib} (hrt : rt'.actors = rt.actors)
    {harness : ActorName} {actor : LocalActor P Ib} (hactor : rt.actors harness = some actor)
    (hkind : actor.kind = .Harness) {delivery : Delivery}
    (hadmitted : actor.allowlist.allows delivery.origin.endpoint = true) {command : Harness}
    (hmessage : delivery.message = .Harness command) (name : ActorName) :
    Roster rt name (.Step harness (.Delivery (some delivery))) (rt.actors name)
      ((rt'.execute command delivery.origin).rt.actors name) := by
  have hsame : Roster rt name (.Step harness (.Delivery (some delivery)) : Call P N) (rt.actors name)
      (rt'.actors name) := by
    rw [hrt]
    exact .same (by simp) _
  cases command with
  | Ping | Spawned _ | Stopped _ | Pong | Failed _ => exact hsame
  | Spawn spawned =>
    have hspawned : (rt'.execute (.Spawn spawned) delivery.origin).rt =
        (rt'.installInner spawned (Allowlist.empty.admitEndpoint delivery.origin.endpoint)
          rt'.spawnDeadlines .Plain (some (.echo .new))).rt := by
      simp only [execute, installParty]
      split <;> rfl
    rw [hspawned]
    rcases rt'.installInner_actors spawned (Allowlist.empty.admitEndpoint delivery.origin.endpoint)
      rt'.spawnDeadlines .Plain (some (.echo .new)) name with hkept | ⟨rfl, hfree, inbox, hactor'⟩
    · rw [hkept]
      exact hsame
    · rw [hactor', ← hrt, hfree]
      exact .spawned delivery.origin.endpoint ⟨harness, actor, hactor, hkind, hadmitted, delivery, rfl,
        hmessage⟩ _ rfl fun endpoint' h => by simpa using h
  | Stop stopped =>
    simp only [execute]
    split
    · rename_i gone hgone
      by_cases hname : name = stopped
      · subst hname
        have hnone : Function.update rt'.actors name none name = none := Function.update_self ..
        simp only [← hrt, hgone, hnone]
        exact .stopped delivery.origin.endpoint ⟨harness, actor, hactor, hkind, hadmitted, delivery, rfl,
          hmessage⟩ gone
      · simp only [Function.update_of_ne hname]
        exact hsame
    · exact hsame

theorem step_roster (rt : LocalRuntime P N Ib) (own : ActorName) (waited : Waited) (name : ActorName) :
    Roster rt name (.Step own waited) (rt.actors name) ((rt.step own waited).rt.actors name) := by
  have hcall : ∀ endpoint, (Call.Step own waited : Call P N) ≠ .Revoke name endpoint :=
    fun _ h => nomatch h
  cases hactor : rt.actors own with
  | none =>
    simp only [step, hactor]
    exact .same hcall _
  | some actor =>
    have hdid := step_did hactor waited
    generalize rt.step own waited = ran at hdid
    rcases hdid with ⟨_, endpoint, hdead, hlive, _, rfl⟩ | ⟨endpoint, hquiet, _, rfl⟩ |
      ⟨hquiet, peer, kind, due, hdue, _, rfl⟩ | ⟨hquiet, hdue⟩ | ⟨hquiet⟩ |
      ⟨hquiet, delivery, ran, hran⟩
    · exact .setActor hcall hactor (failEach_same ..) rfl
    · exact .setActor hcall hactor (failEach_same ..) rfl
    · exact .setActor hcall hactor (.failExchange ..) rfl
    · exact .same hcall _
    · exact .same hcall _
    · have hheard : (rt.heardFrom delivery.origin.endpoint).actors = rt.actors := rfl
      rcases hran with ⟨hno⟩ | ⟨hok, request, hm⟩ | ⟨hok, ack, hm⟩ | ⟨hok, harness, hm, hkind⟩ |
        ⟨hok, harness, hm, hkind, reply, hreply⟩ | ⟨hok, harness, hm, hkind, hreply⟩ |
        ⟨hok, turn, hm, ran, hran⟩
      · exact .same hcall _
      · simp only [sendAndReturn, send_rt]
        exact .same hcall _
      · have hsame : actor.SameActor { actor with
            conversations := actor.conversations.modify delivery.origin fun ps => ps.settleAck ack.id } :=
          ⟨rfl, rfl, rfl, rfl⟩
        exact .setActor hcall hactor hsame rfl
      · simp only [sendAndReturn, send_rt]
        exact .same hcall _
      · simp only [sendAndReturn, send_rt]
        exact execute_roster hheard hactor hkind hok hm name
      · exact execute_roster hheard hactor hkind hok hm name
      · obtain ⟨net, actor', hrt, hsame⟩ := hran.same
        simp only [hrt]
        exact .setActor hcall hactor hsame rfl

omit [Party P] [Transport N] [Registry N Ib] in
theorem admit_roster (rt : LocalRuntime P N Ib) (own : ActorName) (endpoint : EndpointId)
    (name : ActorName) :
    Roster rt name (.Admit own endpoint) (rt.actors name)
      ((rt.admitEndpoint own endpoint).rt.actors name) := by
  have hcall : ∀ e, (Call.Admit own endpoint : Call P N) ≠ .Revoke name e := by simp
  simp only [admitEndpoint]
  split
  · rename_i actor hactor
    by_cases hname : name = own
    · subst hname
      simp only [hactor, setActor_self]
      refine .kept actor _ rfl (fun e h => ?_) fun e h => absurd h (hcall e)
      simp only [Allowlist.allows_admitEndpoint, Bool.or_eq_true, decide_eq_true_eq] at h
      rcases h with rfl | h
      · exact Or.inr rfl
      · exact Or.inl h
    · rw [setActor_of_ne rt _ hname]
      exact .same hcall _
  · exact .same hcall _

omit [Transport N] [Registry N Ib] in
theorem revoke_roster (rt : LocalRuntime P N Ib) (own : ActorName) (endpoint : EndpointId)
    (name : ActorName) :
    Roster rt name (.Revoke own endpoint) (rt.actors name)
      ((rt.revoke own endpoint).rt.actors name) := by
  simp only [revoke]
  split
  · rename_i actor hactor
    have hsame := failEach_same rt own { actor with allowlist := actor.allowlist.revoke endpoint }
      .Revoked
      ({ actor with allowlist := actor.allowlist.revoke endpoint }.affected (· = endpoint))
    by_cases hname : name = own
    · subst hname
      simp only [hactor, setActor_self]
      refine .kept actor _ hsame.kind (fun e h => ?_) fun e h => ?_
      · rw [hsame.allowlist, Allowlist.allows_revoke, Bool.and_eq_true] at h
        exact Or.inl h.2
      · cases h
        rw [hsame.allowlist]
        simp
    · rw [setActor_of_ne rt _ hname]
      exact .same (fun e h => hname (by cases h; rfl)) _
  · rename_i hnone
    by_cases hname : name = own
    · subst hname
      simp only [hnone]
      exact .absent
    · exact .same (fun e h => hname (by cases h; rfl)) _

theorem exec_roster (rt : LocalRuntime P N Ib) (call : Call P N) (name : ActorName) :
    Roster rt name call (rt.actors name) ((rt.exec call).1.actors name) := by
  cases call with
  | Install own allowlist deadlines kind =>
    rcases rt.installInner_actors own allowlist deadlines kind none name with
      hkept | ⟨rfl, hfree, inbox, hactor⟩
    · simp only [exec, install, hkept]
      exact .same (by simp) _
    · simp only [exec, install, hactor, hfree]
      exact .installed _ (Or.inl ⟨deadlines, rfl⟩)
  | InstallParty own allowlist deadlines party =>
    rcases rt.installInner_actors own allowlist deadlines .Plain (some party) name with
      hkept | ⟨rfl, hfree, inbox, hactor⟩
    · simp only [exec, installParty, hkept]
      exact .same (by simp) _
    · simp only [exec, installParty, hactor, hfree]
      exact .installed _ (Or.inr ⟨rfl, deadlines, party, rfl⟩)
  | Admit own endpoint => exact admit_roster rt own endpoint name
  | Revoke own endpoint => exact revoke_roster rt own endpoint name
  | Step own waited => exact step_roster rt own waited name
  | Rehash own conversations =>
    have hcall : ∀ e, (Call.Rehash own conversations : Call P N) ≠ .Revoke name e := by simp
    simp only [exec, rehash]
    split
    · rename_i actor hactor
      split
      · have hsame : actor.SameActor { actor with conversations } := ⟨rfl, rfl, rfl, rfl⟩
        exact .setActor hcall hactor hsame rfl
      · exact .same hcall _
    · exact .same hcall _
  | Elsewhere net clock => exact .same (by simp) _

/-! ## Justified admissions -/

/-- The call puts `endpoint` on the allowlist of the actor `name`: it installs the actor with a list
that has it, it is the command of an admitted controller at `endpoint` that spawns the actor, or it is
the owner's. -/
inductive Grants (rt : LocalRuntime P N Ib) (name : ActorName) (endpoint : EndpointId) :
    Call P N → Prop
  | install (allowlist : Allowlist) (h : allowlist.allows endpoint = true) (deadlines : Deadlines)
      (kind : ActorKind) (hfree : rt.actors name = none) :
      Grants rt name endpoint (.Install name allowlist deadlines kind)
  | installParty (allowlist : Allowlist) (h : allowlist.allows endpoint = true)
      (deadlines : Deadlines) (party : Boxed P) (hfree : rt.actors name = none) :
      Grants rt name endpoint (.InstallParty name allowlist deadlines party)
  | spawn (call : Call P N) (h : Commands rt (.Spawn name) endpoint call)
      (hfree : rt.actors name = none) : Grants rt name endpoint call
  | admitted (hinstalled : (rt.actors name).isSome = true) : Grants rt name endpoint (.Admit name endpoint)

/-- The actor stays installed through the call, and the call does not revoke the endpoint. -/
def Keeps (name : ActorName) (endpoint : EndpointId) (rt : LocalRuntime P N Ib) (call : Call P N) : Prop :=
  call ≠ .Revoke name endpoint ∧ (rt.actors name).isSome = true ∧
    ((rt.next call).actors name).isSome = true

/-- Some call of the run granted the admission, and nothing undid it. -/
def Justified (rt : LocalRuntime P N Ib) (calls : List (Call P N)) (name : ActorName)
    (endpoint : EndpointId) : Prop :=
  ∃ pre call post, calls = pre ++ call :: post ∧ Grants (rt.after pre) name endpoint call ∧
    (((rt.after pre).next call).actors name).isSome = true ∧
    Run.Along next (Keeps name endpoint) ((rt.after pre).next call) post

omit [Party P] [Transport N] [Registry N Ib] in
theorem Roster.grants {rt : LocalRuntime P N Ib} {name : ActorName} {call : Call P N}
    {before after : Option (LocalActor P Ib)} (h : Roster rt name call before after)
    (hbefore : rt.actors name = before) {actor : LocalActor P Ib} (hafter : after = some actor)
    {endpoint : EndpointId} (hallows : actor.allowlist.allows endpoint = true) :
    Grants rt name endpoint call ∨
      call ≠ .Revoke name endpoint ∧
        ∃ actor₀, rt.actors name = some actor₀ ∧ actor₀.allowlist.allows endpoint = true := by
  rcases h with _ | ⟨actor₀, actor', hkind, hgrows, hrevoked⟩ | ⟨actor', hcall⟩ |
    ⟨endpoint', h, actor', hkind, honly⟩ | _ <;> cases hafter
  · rcases hgrows endpoint hallows with h | rfl
    · refine Or.inr ⟨fun hcall => ?_, actor₀, hbefore, h⟩
      rw [hrevoked endpoint hcall] at hallows
      cases hallows
    · exact Or.inl (.admitted (by rw [hbefore]; rfl))
  · rcases hcall with ⟨deadlines, rfl⟩ | ⟨-, deadlines, party, rfl⟩
    · exact Or.inl (.install _ hallows deadlines _ hbefore)
    · exact Or.inl (.installParty _ hallows deadlines party hbefore)
  · obtain rfl := honly endpoint hallows
    exact Or.inl (.spawn call h hbefore)

theorem justified_of_allows {rt : LocalRuntime P N Ib} (hfresh : rt.Fresh) (calls : List (Call P N)) :
    ∀ name actor endpoint, (rt.after calls).actors name = some actor →
      actor.allowlist.allows endpoint = true → Justified rt calls name endpoint := by
  induction calls using List.reverseRecOn with
  | nil =>
    intro name actor endpoint hactor
    rw [LocalRuntime.after, Run.after_nil, hfresh.actors name] at hactor
    cases hactor
  | append_singleton calls call ih =>
    intro name actor endpoint hactor hallows
    have hafter : rt.after (calls ++ [call]) = (rt.after calls).next call := Run.after_append ..
    rw [hafter] at hactor
    rcases ((rt.after calls).exec_roster call name).grants rfl hactor hallows with
      hgrants | ⟨hrevoke, actor₀, hactor₀, hallows₀⟩
    · exact ⟨calls, call, [], rfl, hgrants, by rw [hactor]; rfl, trivial⟩
    · obtain ⟨pre, grant, post, rfl, hgrants, hinstalled, hkeeps⟩ := ih name actor₀ endpoint hactor₀ hallows₀
      refine ⟨pre, grant, post ++ [call], by simp, hgrants, hinstalled, ?_⟩
      rw [Run.along_append]
      have hend : Run.after next ((rt.after pre).next grant) post = rt.after (pre ++ grant :: post) := by
        simp only [LocalRuntime.after, Run.after_append, Run.after_cons]
      rw [hend]
      exact ⟨hkeeps, ⟨hrevoke, by rw [hactor₀]; rfl, by rw [hactor]; rfl⟩, trivial⟩

/-- How a call may change which actors there are: the owner installs, or a controller that a harness
actor admits commands it, and what is spawned is plain. No call changes the kind of an actor. -/
structure Licensed (rt : LocalRuntime P N Ib) (name : ActorName) (call : Call P N) : Prop where
  created : ∀ actor, rt.actors name = none → (rt.next call).actors name = some actor →
    (∃ allowlist deadlines, call = .Install name allowlist deadlines actor.kind) ∨
      (∃ allowlist deadlines party, call = .InstallParty name allowlist deadlines party) ∨
      ∃ endpoint, Commands rt (.Spawn name) endpoint call ∧ actor.kind = .Plain
  removed : ∀ actor, rt.actors name = some actor → (rt.next call).actors name = none →
    ∃ endpoint, Commands rt (.Stop name) endpoint call
  kind : ∀ actor actor', rt.actors name = some actor → (rt.next call).actors name = some actor' →
    actor'.kind = actor.kind

theorem licensed (rt : LocalRuntime P N Ib) (name : ActorName) (call : Call P N) :
    Licensed rt name call := by
  have h := rt.exec_roster call name
  refine ⟨fun actor hnone hsome => ?_, fun actor hsome hnone => ?_, fun actor actor' hsome hsome' => ?_⟩
  · rw [hnone, ← LocalRuntime.next, hsome] at h
    rcases h with _ | _ | ⟨_, ⟨deadlines, hcall⟩ | ⟨-, deadlines, party, hcall⟩⟩ |
      ⟨endpoint, hcommands, _, hkind, -⟩
    · exact Or.inl ⟨_, deadlines, hcall⟩
    · exact Or.inr (Or.inl ⟨_, deadlines, party, hcall⟩)
    · exact Or.inr (Or.inr ⟨endpoint, hcommands, hkind⟩)
  · rw [hsome, ← LocalRuntime.next, hnone] at h
    rcases h with _ | _ | _ | _ | ⟨endpoint, hcommands, _⟩
    exact ⟨endpoint, hcommands⟩
  · rw [hsome, ← LocalRuntime.next, hsome'] at h
    rcases h with _ | ⟨_, _, hkind, -, -⟩
    exact hkind

/-- An endpoint is on the allowlist of an actor only by a grant that nothing undid, and nobody but the
owner and the controllers of harness actors changes which actors there are. -/
theorem admission_justified {rt : LocalRuntime P N Ib} (hfresh : rt.Fresh) (calls : List (Call P N)) :
    (∀ name actor endpoint, (rt.after calls).actors name = some actor →
      actor.allowlist.allows endpoint = true → Justified rt calls name endpoint) ∧
      Run.Along next (fun rt call => ∀ name, Licensed rt name call) rt calls :=
  ⟨justified_of_allows hfresh calls,
    Run.along_of_forall next (fun rt call name => rt.licensed name call) rt calls⟩

/-- Alice has Dave spawned, by Bob, who is a harness actor. -/
theorem admission_justified_dave :
    let calls : List (Call Empty Shared) :=
      [.Install Sample.bob.name ⟨{Sample.alice.endpoint}⟩ Sample.patience .Harness,
        .Step Sample.bob.name
          (.Delivery (some ⟨Sample.alice, Sample.bob, .Harness (.Spawn Sample.dave.name)⟩))]
    (((Sample.bobsRuntime Empty).after calls).actors Sample.dave.name).isSome = true ∧
      Justified (Sample.bobsRuntime Empty) calls Sample.dave.name Sample.alice.endpoint := by
  intro calls
  refine ⟨rfl, ?_⟩
  exact (admission_justified (Sample.bobsRuntime_fresh Empty) calls).1 _ _ _ rfl (by decide)

end Kamiroh.LocalRuntime
