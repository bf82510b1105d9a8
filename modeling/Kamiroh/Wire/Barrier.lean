import Kamiroh.Wire.Conservation
import Kamiroh.Wire.Handles

/-!
# A kill as a barrier

`kill_endpoint` empties the mailboxes of the endpoint, not the list of the held deliveries. A heal puts
those into whatever mailbox is at their address by then.
-/

namespace Kamiroh.Wire

/-- No inbox received a delivery that was accepted before a kill of its target's endpoint and is itself
registered after that kill. -/
def Barrier (w : Wire) : Prop :=
  ∀ entry ∈ w.received, ∀ kill ∈ w.kills, kill.endpoint = entry.2.target.endpoint →
    kill.registered ≤ entry.1.id → kill.accepted ≤ entry.2.stamp

/-- No mailbox holds a delivery that was accepted before a kill of its endpoint. -/
def Fresh (w : Wire) : Prop :=
  ∀ address box, w.boxes.lookup address = some box → ∀ parcel ∈ box.queue,
    ∀ kill ∈ w.kills, kill.endpoint = address.endpoint → kill.accepted ≤ parcel.stamp

/-- A heal releases into a mailbox only what was accepted after the last kill of its endpoint. -/
def HealsFresh (w : Wire) : Act → Prop
  | .Heal a b => ∀ parcel ∈ w.held, between a b parcel = true →
    (w.boxes.lookup parcel.target).isSome = true →
      ∀ kill ∈ w.kills, kill.endpoint = parcel.target.endpoint → kill.accepted ≤ parcel.stamp
  | _ => True

/-! ## The mailboxes -/

/-- The kills so far were before what is to come. -/
def Past (w : Wire) : Prop := ∀ kill ∈ w.kills, kill.accepted ≤ w.accepted.length

theorem accepted_act {w w' : Wire} {a : Act} (hdid : Did w a w') :
    w.accepted.length ≤ w'.accepted.length := by
  cases hdid with
  | held _ parcels haccepts hpartition => simp
  | placed _ parcels haccepts hpartition => simp
  | healed c d => simp [heal]
  | _ => exact le_rfl

theorem past_act {w w' : Wire} {a : Act} (hdid : Did w a w') (h : Past w) : Past w' := by
  intro kill hkill
  have hmore := accepted_act hdid
  rcases kills_act hdid hkill with hkill | ⟨-, haccepted, -⟩
  · exact (h kill hkill).trans hmore
  · omega

theorem fresh_did {w w' : Wire} {a : Act} (hdid : Did w a w') (hpast : Past w) (h : Fresh w)
    (hok : HealsFresh w a) : Fresh w' := by
  intro address box hbox parcel hparcel kill hkill heq
  rcases kills_act hdid hkill with hkill | ⟨hkilled, -⟩
  · rcases box_act hdid hbox with ⟨box₀, hbox₀, -, hqueue⟩ | ⟨-, -, -, hempty⟩
    · rcases hqueue parcel hparcel with hold | ⟨hnew | ⟨c, d, rfl, hheld, hbetween⟩, htarget⟩
      · exact h address box₀ hbox₀ parcel hold kill hkill heq
      · exact (hpast kill hkill).trans hnew
      · subst htarget
        exact hok parcel hheld hbetween (by rw [hbox₀]; rfl) kill hkill heq
    · rw [hempty] at hparcel
      cases hparcel
  · rw [hkilled, lookup_kill, if_pos heq.symm] at hbox
    cases hbox

theorem fresh_act {w : Wire} (hpast : Past w) (h : Fresh w) (a : Act) :
    Fresh (w.act a) ↔ HealsFresh w a := by
  refine ⟨fun hafter => ?_, fresh_did (w.act_did a) hpast h⟩
  cases a with
  | Heal c d =>
    intro parcel hheld hbetween hbox kill hkill heq
    obtain ⟨box, hbox⟩ := Option.isSome_iff_exists.mp hbox
    have hlookup := lookup_placeAll { w with
      partitions := (w.partitions.erase (c, d)).erase (d, c)
      held := w.held.filter fun parcel => !between c d parcel } (w.held.filter (between c d))
      parcel.target
    simp only [hbox, Option.map_some] at hlookup
    have hparcel : parcel ∈ (w.held.filter (between c d)).filter
        fun parcel' => parcel'.target = parcel.target := by
      simp [hheld, hbetween]
    refine hafter parcel.target _ hlookup parcel (List.mem_append_right _ hparcel) kill ?_ heq
    simpa [act, heal] using hkill
  | _ => trivial

/-- A mailbox never holds what was accepted before a kill of its endpoint, in every state of a run,
exactly when each heal keeps to it. -/
theorem mailboxes_fresh_iff (acts : List Act) :
    (∀ start, start <+: acts → Fresh (new.after start)) ↔ Run.Along act HealsFresh new acts := by
  refine Run.along_iff (I := Past) (P := Fresh) act (fun w a h => past_act (w.act_did a) h)
    (fun w a hpast h => fresh_act hpast h a) new acts ?_ ?_
  · simp [Past, new]
  · simp [Fresh, new]

/-! ## The inboxes -/

structure Guarded (w : Wire) : Prop where
  custody : Custody w
  numbered : Numbered w
  past : Past w
  fresh : Fresh w
  older : ∀ entry ∈ w.received, entry.1.id < w.registered
  barrier : Barrier w

theorem Guarded.act {w : Wire} (h : Guarded w) (a : Act) (hok : HealsFresh w a) :
    Guarded (w.act a) := by
  have hdid := w.act_did a
  have hmore := registered_act hdid
  refine ⟨h.custody.act a, h.numbered.act a, past_act hdid h.past, fresh_did hdid h.past h.fresh hok,
    fun entry hentry => ?_, fun entry hentry kill hkill heq hlater => ?_⟩
  · rcases received_act hdid hentry with hold | ⟨hhandle, -⟩
    · exact lt_of_lt_of_le (h.older entry hold) hmore
    · exact lt_of_lt_of_le (h.numbered.handles _ hhandle) hmore
  · rcases kills_act hdid hkill with hkill | ⟨-, -, hregistered⟩
    · rcases received_act hdid hentry with hold | ⟨-, box, hbox, hparcel⟩
      · exact h.barrier entry hold kill hkill heq hlater
      · have htarget := h.custody.addressed _ box hbox _ hparcel
        exact h.fresh _ box hbox _ hparcel kill hkill (htarget ▸ heq)
    · -- an inbox that has received something is older than the kill of this step
      have holder : entry.1.id < w.registered := by
        rcases received_act hdid hentry with hold | ⟨hhandle, -⟩
        · exact h.older entry hold
        · exact h.numbered.handles _ hhandle
      omega

theorem Guarded.new : Guarded new :=
  ⟨Custody.new, Numbered.new, by simp [Past, Wire.new], by simp [Fresh, Wire.new], by simp [Wire.new],
    by simp [Barrier, Wire.new]⟩

/-- As long as no heal releases into a mailbox what was accepted before a kill of its endpoint, no inbox
that is registered after a kill receives anything that was accepted before it. -/
theorem kill_is_barrier (acts : List Act) (h : Run.Along act HealsFresh new acts) :
    Barrier (new.after acts) :=
  (Run.invariant act (fun _ a hguarded hok => hguarded.act a hok) new acts Guarded.new h).barrier

open Sample

/-- Bob's endpoint dies and comes back before the partition holds the delivery. -/
theorem kill_is_barrier_bob :
    Barrier (new.after [.Register alice, .Register bob, .Kill bob.endpoint, .Drop 1, .Register bob,
      .Partition alice.endpoint bob.endpoint, .Send alice bob (.Turn (.Open (request 1))),
      .Heal alice.endpoint bob.endpoint, .PollNext 2 0]) := by
  refine kill_is_barrier _ ⟨trivial, trivial, trivial, trivial, trivial, trivial, trivial, ?_, trivial,
    trivial⟩
  simp only [HealsFresh]
  decide

/-- Bob's endpoint dies while a partition holds the delivery, and comes back before the heal. -/
def ghost : Wire :=
  new.after [.Register alice, .Register bob, .Partition alice.endpoint bob.endpoint,
    .Send alice bob (.Turn (.Open (request 1))), .Kill bob.endpoint, .Drop 1, .Register bob,
    .Heal alice.endpoint bob.endpoint, .PollNext 2 0]

theorem ghost_exchange :
    (¬ Barrier ghost) ∧
      ghost.received = [(⟨2, bob⟩, ⟨⟨alice, bob, .Turn (.Open (request 1))⟩, 0, false⟩)] ∧
      ghost.kills = [⟨bob.endpoint, 1, 2⟩] := by
  have hreceived : ghost.received =
      [(⟨2, bob⟩, ⟨⟨alice, bob, .Turn (.Open (request 1))⟩, 0, false⟩)] := by decide
  have hkills : ghost.kills = [⟨bob.endpoint, 1, 2⟩] := by decide
  refine ⟨fun h => ?_, hreceived, hkills⟩
  have hle : 1 ≤ 0 := h _ (hreceived ▸ List.mem_singleton_self _) _
    (hkills ▸ List.mem_singleton_self _) rfl le_rfl
  omega

end Kamiroh.Wire
