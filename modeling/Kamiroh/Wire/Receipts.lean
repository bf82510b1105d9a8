import Kamiroh.Wire.Steps

/-!
# The receipt of a batch

`open_many` asks whether the endpoint lives, and a partition can hold the receipt back until after the
endpoint's death.
-/

namespace Kamiroh.Wire

/-- Every receipt that was put into a mailbox found its endpoint alive. -/
def Truthful (w : Wire) : Prop :=
  ∀ placement ∈ w.placements, placement.parcel.receipt = true → placement.alive = true

/-- A heal puts no receipt of an endpoint without a mailbox into a mailbox. -/
def HealsToLiving (w : Wire) : Act → Prop
  | .Heal a b => ∀ parcel ∈ w.held, between a b parcel = true → parcel.receipt = true →
    (w.boxes.lookup parcel.target).isSome = true → w.lives parcel.origin = true
  | _ => True

theorem truthful_placeAll (w : Wire) (parcels : List Parcel) (h : Truthful w) :
    Truthful (w.placeAll parcels) ↔
      ∀ parcel ∈ parcels, parcel.receipt = true → (w.boxes.lookup parcel.target).isSome = true →
        w.lives parcel.origin = true := by
  simp only [Truthful, placements_placeAll, List.mem_append, List.mem_map, List.mem_filter]
  constructor
  · intro hall parcel hparcel hreceipt hbox
    exact hall ⟨parcel, w.lives parcel.origin⟩ (Or.inr ⟨parcel, ⟨hparcel, hbox⟩, rfl⟩) hreceipt
  · rintro hall placement (hplacement | ⟨parcel, ⟨hparcel, hbox⟩, rfl⟩) hreceipt
    · exact h placement hplacement hreceipt
    · exact hall parcel hparcel hreceipt hbox

theorem truthful_did {w w' : Wire} {a : Act} (hdid : Did w a w') (hheal : ∀ c d, a ≠ .Heal c d)
    (h : Truthful w) : Truthful w' := by
  cases hdid with
  | placed _ parcels haccepts hpartition =>
    refine (truthful_placeAll _ parcels ?_).mpr fun parcel hparcel hreceipt _ => ?_
    · exact h
    · exact haccepts.lives parcel hparcel hreceipt
  | healed c d => exact absurd rfl (hheal c d)
  | _ => exact h

theorem truthful_act {w : Wire} (h : Truthful w) (a : Act) :
    Truthful (w.act a) ↔ HealsToLiving w a := by
  cases a with
  | Heal c d =>
    refine (truthful_placeAll _ (w.held.filter (between c d)) ?_).trans ?_
    · exact h
    · simp only [HealsToLiving, List.mem_filter, and_imp]
      rfl
  | _ => exact iff_of_true (truthful_did (w.act_did _) (by simp) h) trivial

/-- A receipt is put into a mailbox only while its endpoint lives, in every state of a run, exactly when
each heal keeps to it. -/
theorem receipts_truthful_iff (acts : List Act) :
    (∀ start, start <+: acts → Truthful (new.after start)) ↔
      Run.Along act HealsToLiving new acts := by
  refine Run.along_iff (I := fun _ => True) (P := Truthful) act (fun _ _ _ => trivial)
    (fun w a _ h => truthful_act h a) new acts trivial ?_
  simp [Truthful, new]

open Sample

/-- Bob's endpoint dies while a partition holds the batch for it and the receipt back. -/
def heldReceipt : Wire :=
  new.after [.Register alice, .Register bob, .Partition alice.endpoint bob.endpoint,
    .OpenMany alice bob.endpoint [bob.name] (request 1), .Kill bob.endpoint,
    .Heal alice.endpoint bob.endpoint]

theorem receipt_of_the_dead :
    (¬ Truthful heldReceipt) ∧ heldReceipt.lives bob.endpoint = false ∧
      (heldReceipt.boxes.lookup alice).map (·.queue) =
        some [⟨⟨batchReceiptSender bob.endpoint, alice, .Ack ⟨(request 1).id⟩⟩, 0, true⟩] := by
  refine ⟨fun h => ?_, by decide, by decide⟩
  have hplaced : heldReceipt.placements =
      [⟨⟨⟨batchReceiptSender bob.endpoint, alice, .Ack ⟨(request 1).id⟩⟩, 0, true⟩, false⟩] := by
    decide
  have halive := h _ (hplaced ▸ List.mem_singleton_self _) rfl
  cases halive

end Kamiroh.Wire
