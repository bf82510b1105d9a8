import Kamiroh.Wire.Steps

/-!
# An inbox and its registration

An inbox knows its mailbox by the address only. After a `kill_endpoint` the address can be registered
again while the old inbox is still there, and then the old inbox reads from the new mailbox, and unbinds
it when it is dropped.
-/

namespace Kamiroh.Wire

/-! ## Registrations -/

/-- What the numbers of the registrations say: those to come are greater than all there are, and a mailbox
that a kill would have taken away is younger than the kill. -/
structure Numbered (w : Wire) : Prop where
  handles : ∀ handle ∈ w.handles, handle.id < w.registered
  kills : ∀ kill ∈ w.kills, kill.registered ≤ w.registered
  younger : ∀ kill ∈ w.kills, ∀ address box, w.boxes.lookup address = some box →
    address.endpoint = kill.endpoint → kill.registered ≤ box.owner

theorem Numbered.act {w : Wire} (h : Numbered w) (a : Act) : Numbered (w.act a) := by
  have hdid := w.act_did a
  have hmore := registered_act hdid
  refine ⟨fun handle hhandle => ?_, fun kill hkill => ?_, fun kill hkill address box hbox heq => ?_⟩
  · rcases handles_act hdid hhandle with hhandle | ⟨-, -, hid, hregistered⟩
    · exact lt_of_lt_of_le (h.handles handle hhandle) hmore
    · omega
  · rcases kills_act hdid hkill with hkill | ⟨-, -, hregistered⟩
    · exact (h.kills kill hkill).trans hmore
    · omega
  · rcases kills_act hdid hkill with hkill | ⟨hkilled, -⟩
    · rcases box_act hdid hbox with ⟨box₀, hbox₀, howner, -⟩ | ⟨-, -, howner, -⟩
      · exact howner ▸ h.younger kill hkill address box₀ hbox₀ heq
      · exact howner ▸ h.kills kill hkill
    · rw [hkilled, lookup_kill, if_pos heq] at hbox
      cases hbox

theorem Numbered.new : Numbered new := ⟨by simp [Wire.new], by simp [Wire.new], by simp [Wire.new]⟩

/-! ## Handles -/

/-- The mailbox that the inbox reads from, and takes away when it is dropped, is the one that its own
registration created. Once a kill has taken that one away, the inbox is closed and unbinds nothing. -/
structure TouchesOwn (w : Wire) (handle : Handle) : Prop where
  own : ∀ box, w.boxes.lookup handle.address = some box → box.owner = handle.id
  closed : ∀ kill ∈ w.kills, kill.endpoint = handle.address.endpoint → handle.id < kill.registered →
    (∀ waker, w.pollNext handle waker = (.Ready none, w)) ∧ (w.drop handle).boxes = w.boxes

/-- A registration that succeeds finds no inbox of an earlier one at its address. -/
def RegistersReleased (w : Wire) : Act → Prop
  | .Register address =>
    w.boxes.lookup address = none → ∀ handle ∈ w.handles, handle.address ≠ address
  | _ => True

theorem touchesOwn_of_own {w : Wire} {handle : Handle} (hnumbered : Numbered w)
    (h : ∀ box, w.boxes.lookup handle.address = some box → box.owner = handle.id) :
    TouchesOwn w handle := by
  refine ⟨h, fun kill hkill heq hlt => ?_⟩
  have hnone : w.boxes.lookup handle.address = none := by
    refine Option.eq_none_iff_forall_ne_some.mpr fun box hbox => ?_
    have hyounger := hnumbered.younger kill hkill handle.address box hbox heq.symm
    have hown := h box hbox
    omega
  constructor
  · intro waker
    simp only [pollNext, hnone]
  · exact AList.ext (List.kerase_of_notMem_keys (AList.lookup_eq_none.mp hnone))

theorem touchesOwn_act {w : Wire} (hnumbered : Numbered w) (h : ∀ handle ∈ w.handles, TouchesOwn w handle)
    (a : Act) :
    (∀ handle ∈ (w.act a).handles, TouchesOwn (w.act a) handle) ↔ RegistersReleased w a := by
  have hdid := w.act_did a
  constructor
  · intro hafter
    cases a with
    | Register address =>
      rintro hfree handle hhandle rfl
      have hstill : handle ∈ (w.act (.Register handle.address)).handles := by
        simp only [act, register, hfree]
        exact List.mem_append_left _ hhandle
      have hbox : (w.act (.Register handle.address)).boxes.lookup handle.address =
          some ⟨w.registered, [], none⟩ := by
        simp only [act, register, hfree, AList.lookup_insert]
      have hown := (hafter handle hstill).own _ hbox
      have hlt := hnumbered.handles handle hhandle
      simp only at hown
      omega
    | _ => trivial
  · intro hok handle hhandle
    refine touchesOwn_of_own (hnumbered.act a) fun box hbox => ?_
    rcases handles_act hdid hhandle with hold | ⟨-, hfree, hid, -⟩
    · rcases box_act hdid hbox with ⟨box₀, hbox₀, howner, -⟩ | ⟨rfl, hfree, howner, -⟩
      · exact howner.trans ((h handle hold).own box₀ hbox₀)
      · exact absurd rfl (hok hfree handle hold)
    · rcases box_act hdid hbox with ⟨box₀, hbox₀, -⟩ | ⟨-, -, howner, -⟩
      · rw [hfree] at hbox₀
        cases hbox₀
      · rw [howner, hid]

/-- Every inbox keeps to its own registration in every state of a run, exactly when no address is
registered again while an inbox of an earlier registration is not dropped yet. -/
theorem touches_own_iff (acts : List Act) :
    (∀ start, start <+: acts → ∀ handle ∈ (new.after start).handles,
      TouchesOwn (new.after start) handle) ↔ Run.Along act RegistersReleased new acts := by
  refine Run.along_iff (I := Numbered) (P := fun w => ∀ handle ∈ w.handles, TouchesOwn w handle)
    act (fun w a h => h.act a) (fun w a hnumbered h => touchesOwn_act hnumbered h a) new acts
    Numbered.new ?_
  simp [new]

open Sample

/-- Bob's address is registered again after a kill, before the first inbox is dropped. -/
def rebound : Wire :=
  new.after [.Register bob, .Kill bob.endpoint, .Register bob,
    .Send alice bob (.Turn (.Open (request 1)))]

theorem old_inbox_reads_and_unbinds :
    (¬ ∀ handle ∈ rebound.handles, TouchesOwn rebound handle) ∧
      rebound.handles = [⟨0, bob⟩, ⟨1, bob⟩] ∧
      (rebound.boxes.lookup bob).map (·.owner) = some 1 ∧
      (rebound.pollNext ⟨0, bob⟩ 0).1 =
        .Ready (some ⟨⟨alice, bob, .Turn (.Open (request 1))⟩, 0, false⟩) ∧
      (rebound.drop ⟨0, bob⟩).boxes.lookup bob = none := by
  refine ⟨fun h => ?_, by decide, by decide, by decide, by decide⟩
  have hbox : rebound.boxes.lookup bob =
      some ⟨1, [⟨⟨alice, bob, .Turn (.Open (request 1))⟩, 0, false⟩], none⟩ := by decide
  have hown := (h ⟨0, bob⟩ (by decide)).own _ hbox
  cases hown

end Kamiroh.Wire
