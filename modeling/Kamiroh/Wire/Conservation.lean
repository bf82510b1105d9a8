import Kamiroh.Wire.Steps

/-!
# No delivery is lost, repeated or overtaken

`Custody` is the invariant: an accepted delivery is in one place, what is held is held by a partition
that still stands, and between two endpoints each mailbox sees its deliveries in the order in which they
were sent.
-/

namespace Kamiroh.Wire

/-- Every place where an accepted delivery can be. -/
def whereabouts (w : Wire) : List Parcel :=
  w.boxes.gathered (·.queue) ++ w.held ++ w.received.map (·.2) ++ w.unplaced ++ w.removed

def travels (origin : EndpointId) (target : Address) (parcel : Parcel) : Bool :=
  parcel.origin = origin && parcel.target = target

/-- What was received, what the mailbox still holds and what is held back, from one endpoint to one
address. -/
def stream (w : Wire) (origin : EndpointId) (target : Address) : List Parcel :=
  (w.received.map (·.2) ++ w.boxes.heldAt (·.queue) target ++ w.held).filter (travels origin target)

structure Custody (w : Wire) : Prop where
  stamps : w.accepted.map (·.stamp) = List.range w.accepted.length
  places : w.whereabouts.Perm w.accepted
  addressed : ∀ address box, w.boxes.lookup address = some box →
    ∀ parcel ∈ box.queue, parcel.target = address
  symmetric : ∀ a b, (a, b) ∈ w.partitions → (b, a) ∈ w.partitions
  partitioned : ∀ parcel ∈ w.held, (parcel.origin, parcel.target.endpoint) ∈ w.partitions
  ordered : ∀ origin target,
    (w.stream origin target).Sublist (w.accepted.filter (travels origin target))

/-! ## Where the deliveries are -/

theorem gathered_place (w : Wire) (parcel : Parcel) :
    ((w.place parcel).boxes.gathered (·.queue) ++ (w.place parcel).unplaced).Perm
      (w.boxes.gathered (·.queue) ++ w.unplaced ++ [parcel]) := by
  unfold place
  cases hbox : w.boxes.lookup parcel.target with
  | none => exact .of_eq (by simp)
  | some box =>
    have hinsert := w.boxes.gathered_insert (·.queue) parcel.target
      { box with queue := box.queue ++ [parcel], waker := none }
    simp only [Assoc.heldAt, hbox, Option.elim_some, List.append_assoc] at hinsert
    have hmore := (List.perm_append_left_iff box.queue).mp hinsert
    refine (hmore.append_right w.unplaced).trans ?_
    rw [List.append_assoc, List.append_assoc]
    exact List.perm_append_comm.trans (.of_eq (List.append_assoc ..))

theorem gathered_placeAll (w : Wire) (parcels : List Parcel) :
    ((w.placeAll parcels).boxes.gathered (·.queue) ++ (w.placeAll parcels).unplaced).Perm
      (w.boxes.gathered (·.queue) ++ w.unplaced ++ parcels) := by
  induction parcels generalizing w with
  | nil => exact .of_eq (by simp [placeAll])
  | cons parcel parcels ih =>
    refine (ih (w.place parcel)).trans ?_
    refine ((w.gathered_place parcel).append_right parcels).trans (.of_eq ?_)
    simp

theorem gathered_replace {w : Wire} {address : Address} {box : Box}
    (h : w.boxes.lookup address = some box) (box' : Box) :
    (box.queue ++ Assoc.gathered (w.boxes.insert address box') (·.queue)).Perm
      (box'.queue ++ w.boxes.gathered (·.queue)) := by
  have hinsert := w.boxes.gathered_insert (·.queue) address box'
  simpa only [Assoc.heldAt, h, Option.elim_some] using hinsert

theorem places_act {w w' : Wire} {a : Act} (hdid : Did w a w')
    (h : w.whereabouts.Perm w.accepted) : w'.whereabouts.Perm w'.accepted := by
  rw [List.perm_iff_count] at h ⊢
  intro parcel
  have hcount := h parcel
  simp only [whereabouts, List.count_append] at hcount ⊢
  cases hdid with
  | same _ deathWatchers => exact hcount
  | parted c d => exact hcount
  | bound address hfree =>
    have hinsert := (w.boxes.gathered_insert (·.queue) address ⟨w.registered, [], none⟩).count_eq parcel
    simp only [Assoc.heldAt, hfree, Option.elim_none, List.nil_append] at hinsert
    simp only
    omega
  | dropped id handle hhandle =>
    have herase := (w.boxes.gathered_erase (·.queue) handle.address).count_eq parcel
    rw [List.count_append] at herase
    simp only [drop, List.count_append]
    omega
  | held _ parcels haccepts hpartition =>
    simp only [List.count_append]
    omega
  | placed _ parcels haccepts hpartition =>
    have hplace := (gathered_placeAll { w with accepted := w.accepted ++ parcels } parcels).count_eq
      parcel
    simp only [List.count_append] at hplace
    simp only [placeAll_held, placeAll_received, placeAll_removed, placeAll_accepted,
      List.count_append]
    omega
  | healed c d =>
    have hplace := (gathered_placeAll { w with
      partitions := (w.partitions.erase (c, d)).erase (d, c)
      held := w.held.filter fun parcel => !between c d parcel }
      (w.held.filter (between c d))).count_eq parcel
    have hsplit := (List.filter_append_perm (between c d) w.held).count_eq parcel
    simp only [List.count_append] at hplace hsplit
    simp only [heal, placeAll_held, placeAll_received, placeAll_removed, placeAll_accepted]
    omega
  | killed endpoint =>
    have herase := (w.boxes.gathered_eraseAll (·.queue)
      (w.boxes.keysWhere fun address _ => address.endpoint = endpoint)
      (w.boxes.keysWhere_nodup _)).count_eq parcel
    rw [List.count_append] at herase
    simp only [kill, List.count_append]
    omega
  | waits _ address box hbox waker =>
    have hreplace := (gathered_replace hbox { box with waker }).count_eq parcel
    simp only [List.count_append] at hreplace
    simp only
    omega
  | received id waker handle hhandle box hbox first queue hqueue =>
    have hreplace := (gathered_replace hbox { box with queue }).count_eq parcel
    rw [hqueue, ← List.singleton_append] at hreplace
    simp only [List.count_append] at hreplace
    simp only [List.map_append, List.map_cons, List.map_nil, List.count_append]
    omega

/-! ## The mailboxes and the partitions -/

theorem addressed_act {w w' : Wire} {a : Act} (hdid : Did w a w')
    (h : ∀ address box, w.boxes.lookup address = some box →
      ∀ parcel ∈ box.queue, parcel.target = address)
    {address : Address} {box : Box} (hbox : w'.boxes.lookup address = some box) :
    ∀ parcel ∈ box.queue, parcel.target = address := by
  intro parcel hparcel
  rcases box_act hdid hbox with ⟨box₀, hbox₀, -, hqueue⟩ | ⟨-, -, -, hempty⟩
  · rcases hqueue parcel hparcel with hold | ⟨-, htarget⟩
    · exact h address box₀ hbox₀ parcel hold
    · exact htarget
  · rw [hempty] at hparcel
    cases hparcel

theorem between_iff {a b : EndpointId} {parcel : Parcel} :
    between a b parcel = true ↔
      (parcel.origin, parcel.target.endpoint) = (a, b) ∨
        (parcel.origin, parcel.target.endpoint) = (b, a) := by
  simp only [between, Shared.between, Bool.or_eq_true, Bool.and_eq_true, decide_eq_true_eq,
    Prod.mk.injEq]
  rfl

theorem symmetric_act {w w' : Wire} {a : Act} (hdid : Did w a w')
    (h : ∀ c d, (c, d) ∈ w.partitions → (d, c) ∈ w.partitions) :
    ∀ c d, (c, d) ∈ w'.partitions → (d, c) ∈ w'.partitions := by
  cases hdid with
  | placed _ parcels haccepts hpartition => simpa only [placeAll_partitions] using h
  | parted c d =>
    intro e f hpair
    simp only [partition, Finset.mem_insert, Prod.mk.injEq] at hpair ⊢
    rcases hpair with ⟨rfl, rfl⟩ | ⟨rfl, rfl⟩ | hpair
    · exact Or.inr (Or.inl ⟨rfl, rfl⟩)
    · exact Or.inl ⟨rfl, rfl⟩
    · exact Or.inr (Or.inr (h e f hpair))
  | healed c d =>
    intro e f hpair
    simp only [heal, placeAll_partitions, Finset.mem_erase, ne_eq, Prod.mk.injEq] at hpair ⊢
    exact ⟨fun heq => hpair.2.1 ⟨heq.2, heq.1⟩, fun heq => hpair.1 ⟨heq.2, heq.1⟩, h e f hpair.2.2⟩
  | _ => exact h

theorem partitioned_act {w w' : Wire} {a : Act} (hdid : Did w a w') (h : Custody w) :
    ∀ parcel ∈ w'.held, (parcel.origin, parcel.target.endpoint) ∈ w'.partitions := by
  cases hdid with
  | held _ parcels haccepts hpartition =>
    intro parcel hparcel
    rcases List.mem_append.mp hparcel with hparcel | hparcel
    · exact h.partitioned parcel hparcel
    · rcases between_iff.mp (haccepts.pair parcel hparcel) with hpair | hpair
      · exact hpair ▸ hpartition
      · exact hpair ▸ h.symmetric _ _ hpartition
  | placed _ parcels haccepts hpartition =>
    simpa only [placeAll_held, placeAll_partitions] using h.partitioned
  | parted c d =>
    intro parcel hparcel
    exact Finset.mem_insert_of_mem (Finset.mem_insert_of_mem (h.partitioned parcel hparcel))
  | healed c d =>
    intro parcel hparcel
    simp only [heal, placeAll_held, placeAll_partitions, List.mem_filter, Bool.not_eq_true',
      ← Bool.not_eq_true, between_iff, not_or] at hparcel ⊢
    obtain ⟨hheld, hne⟩ := hparcel
    exact Finset.mem_erase.mpr ⟨hne.2, Finset.mem_erase.mpr ⟨hne.1, h.partitioned parcel hheld⟩⟩
  | _ => exact h.partitioned

/-! ## The order -/

theorem between_or_not (a b origin : EndpointId) (target : Address) :
    (∀ parcel, travels origin target parcel = true → between a b parcel = true) ∨
      ∀ parcel, travels origin target parcel = true → between a b parcel = false := by
  have htravels : ∀ parcel, travels origin target parcel = true →
      (parcel.origin, parcel.target.endpoint) = (origin, target.endpoint) := by
    intro parcel h
    simp only [travels, Bool.and_eq_true, decide_eq_true_eq] at h
    rw [h.1, h.2]
  by_cases hpair : (origin, target.endpoint) = (a, b) ∨ (origin, target.endpoint) = (b, a)
  · refine Or.inl fun parcel h => between_iff.mpr ?_
    rwa [htravels parcel h]
  · refine Or.inr fun parcel h => Bool.eq_false_of_not_eq_true fun hbetween => hpair ?_
    rw [← htravels parcel h]
    exact between_iff.mp hbetween

theorem heldAt_placeAll (w : Wire) (parcels : List Parcel) (address : Address) :
    ((w.placeAll parcels).boxes.heldAt (·.queue) address).Sublist
      (w.boxes.heldAt (·.queue) address ++ parcels.filter fun parcel => parcel.target = address) := by
  simp only [Assoc.heldAt, lookup_placeAll]
  cases w.boxes.lookup address with
  | none => exact List.nil_sublist _
  | some box => exact .refl _

theorem stream_placeAll (w : Wire) (parcels : List Parcel) (origin : EndpointId) (target : Address) :
    ((w.placeAll parcels).stream origin target).Sublist
      ((w.received.map (·.2) ++ w.boxes.heldAt (·.queue) target).filter (travels origin target) ++
        (parcels.filter (travels origin target) ++ w.held.filter (travels origin target))) := by
  have htarget : (parcels.filter fun parcel => parcel.target = target).filter (travels origin target) =
      parcels.filter (travels origin target) := by
    rw [List.filter_filter]
    refine List.filter_congr fun parcel _ => ?_
    simp only [travels, Bool.and_assoc, Bool.and_self]
  have hqueue := (w.heldAt_placeAll parcels target).filter (travels origin target)
  rw [List.filter_append, htarget] at hqueue
  simp only [stream, placeAll_received, placeAll_held, List.filter_append, List.append_assoc]
  refine List.Sublist.append_left ?_ _
  rw [← List.append_assoc]
  exact hqueue.append_right _

theorem filter_nil_of_not_between {a b origin : EndpointId} {target : Address} {parcels : List Parcel}
    (h : ∀ parcel, travels origin target parcel = true → between a b parcel = false)
    (hparcels : ∀ parcel ∈ parcels, between a b parcel = true) :
    parcels.filter (travels origin target) = [] := by
  refine List.filter_eq_nil_iff.mpr fun parcel hparcel htravels => ?_
  have hfalse := h parcel htravels
  rw [hparcels parcel hparcel] at hfalse
  cases hfalse

theorem filter_nil_of_between {a b origin : EndpointId} {target : Address} {parcels : List Parcel}
    (h : ∀ parcel, travels origin target parcel = true → between a b parcel = true)
    (hparcels : ∀ parcel ∈ parcels, between a b parcel = false) :
    parcels.filter (travels origin target) = [] := by
  refine List.filter_eq_nil_iff.mpr fun parcel hparcel htravels => ?_
  have htrue := h parcel htravels
  rw [hparcels parcel hparcel] at htrue
  cases htrue

theorem Custody.held_not_between {w : Wire} (h : Custody w) {a b : EndpointId}
    (hpartition : (a, b) ∉ w.partitions) : ∀ parcel ∈ w.held, between a b parcel = false := by
  intro parcel hparcel
  refine Bool.eq_false_of_not_eq_true fun hbetween => hpartition ?_
  have hstands := h.partitioned parcel hparcel
  rcases between_iff.mp hbetween with hpair | hpair
  · exact hpair ▸ hstands
  · exact h.symmetric _ _ (hpair ▸ hstands)

theorem filter_split (held : List Parcel) (a b origin : EndpointId) (target : Address) :
    (held.filter (between a b)).filter (travels origin target) ++
        (held.filter fun parcel => !between a b parcel).filter (travels origin target) =
      held.filter (travels origin target) := by
  have hkept : ∀ (keep : Parcel → Bool), (∀ parcel, travels origin target parcel = true →
      keep parcel = true) → (held.filter keep).filter (travels origin target) =
        held.filter (travels origin target) := by
    intro keep hkeep
    rw [List.filter_filter]
    refine List.filter_congr fun parcel _ => ?_
    cases htravels : travels origin target parcel with
    | false => rfl
    | true => rw [hkeep parcel htravels]; rfl
  rcases between_or_not a b origin target with hpair | hpair
  · have hrest : ∀ parcel ∈ held.filter (fun parcel => !between a b parcel),
        between a b parcel = false := by simp
    rw [filter_nil_of_between hpair hrest, List.append_nil, hkept _ hpair]
  · have hflushed : ∀ parcel ∈ held.filter (between a b), between a b parcel = true := by simp
    rw [filter_nil_of_not_between hpair hflushed, List.nil_append, hkept]
    intro parcel htravels
    rw [hpair parcel htravels]
    rfl

theorem stream_sublist {w w' : Wire} {origin : EndpointId} {target : Address} {parcels : List Parcel}
    (h : (w.stream origin target).Sublist parcels) (hreceived : w'.received = w.received)
    (hheld : w'.held = w.held)
    (hqueue : (w'.boxes.heldAt (·.queue) target).Sublist (w.boxes.heldAt (·.queue) target)) :
    (w'.stream origin target).Sublist parcels := by
  simp only [stream, hreceived, hheld] at h ⊢
  exact (((hqueue.append_left _).append_right _).filter _).trans h

theorem heldAt_insert {w : Wire} {address : Address} {box' : Box}
    (hqueue : box'.queue = w.boxes.heldAt (·.queue) address) (target : Address) :
    Assoc.heldAt (w.boxes.insert address box') (·.queue) target = w.boxes.heldAt (·.queue) target := by
  by_cases haddress : target = address
  · subst haddress
    simpa only [Assoc.heldAt, AList.lookup_insert, Option.elim_some] using hqueue
  · simp only [Assoc.heldAt, AList.lookup_insert_ne haddress]

theorem stream_received {w : Wire} (h : Custody w) {handle : Handle} {box : Box} {first : Parcel}
    {queue : List Parcel} (hbox : w.boxes.lookup handle.address = some box)
    (hqueue : box.queue = first :: queue) (origin : EndpointId) (target : Address) :
    stream { w with
      boxes := w.boxes.insert handle.address { box with queue }
      received := w.received ++ [(handle, first)] } origin target = w.stream origin target := by
  simp only [stream, List.map_append, List.map_cons, List.map_nil, List.append_assoc]
  by_cases haddress : target = handle.address
  · subst haddress
    simp only [Assoc.heldAt, AList.lookup_insert, hbox, Option.elim_some, hqueue, List.cons_append,
      List.nil_append]
  · have hother : travels origin target first = false := by
      have hfirst := h.addressed handle.address box hbox first (by rw [hqueue]; simp)
      simp [travels, hfirst, Ne.symm haddress]
    simp only [Assoc.heldAt, AList.lookup_insert_ne haddress, List.filter_append, List.filter_cons,
      hother, List.filter_nil]
    rfl

theorem ordered_act {w w' : Wire} {a : Act} (hdid : Did w a w') (h : Custody w) (origin : EndpointId)
    (target : Address) :
    (w'.stream origin target).Sublist (w'.accepted.filter (travels origin target)) := by
  have hbefore := h.ordered origin target
  cases hdid with
  | same _ deathWatchers => exact hbefore
  | parted c d => exact hbefore
  | bound address hfree =>
    have hqueue : (⟨w.registered, [], none⟩ : Box).queue = w.boxes.heldAt (·.queue) address := by
      simp [Assoc.heldAt, hfree]
    exact stream_sublist hbefore rfl rfl (heldAt_insert hqueue target ▸ .refl _)
  | dropped id handle hhandle =>
    refine stream_sublist hbefore rfl rfl ?_
    simp only [Assoc.heldAt, lookup_drop]
    split
    · exact List.nil_sublist _
    · exact .refl _
  | killed endpoint =>
    refine stream_sublist hbefore rfl rfl ?_
    simp only [Assoc.heldAt, lookup_kill]
    split
    · exact List.nil_sublist _
    · exact .refl _
  | waits _ address box hbox waker =>
    have hqueue : ({ box with waker } : Box).queue = w.boxes.heldAt (·.queue) address := by
      simp [Assoc.heldAt, hbox]
    exact stream_sublist hbefore rfl rfl (heldAt_insert hqueue target ▸ .refl _)
  | held _ parcels haccepts hpartition =>
    simp only [stream, ← List.append_assoc] at hbefore ⊢
    rw [List.filter_append _ parcels, List.filter_append _ parcels]
    exact hbefore.append_right _
  | placed _ parcels haccepts hpartition =>
    refine (stream_placeAll _ parcels origin target).trans ?_
    rw [placeAll_accepted, List.filter_append w.accepted parcels]
    have hswap : parcels.filter (travels origin target) ++ w.held.filter (travels origin target) =
        w.held.filter (travels origin target) ++ parcels.filter (travels origin target) := by
      rcases between_or_not _ _ origin target with hpair | hpair
      · rw [filter_nil_of_between hpair (h.held_not_between hpartition)]
        simp
      · rw [filter_nil_of_not_between hpair haccepts.pair]
        simp
    rw [hswap, ← List.append_assoc, ← List.filter_append]
    exact hbefore.append_right _
  | healed c d =>
    refine (stream_placeAll _ _ origin target).trans ?_
    rw [filter_split, ← List.filter_append, heal, placeAll_accepted]
    exact hbefore
  | received id waker handle hhandle box hbox first queue hqueue =>
    rw [stream_received h hbox hqueue]
    exact hbefore

/-! ## The run -/

theorem stamps_act {w w' : Wire} {a : Act} (hdid : Did w a w')
    (h : w.accepted.map (·.stamp) = List.range w.accepted.length) :
    w'.accepted.map (·.stamp) = List.range w'.accepted.length := by
  have hmore : ∀ {c d : EndpointId} {parcels : List Parcel}, Accepts w c d parcels →
      (w.accepted ++ parcels).map (·.stamp) = List.range (w.accepted ++ parcels).length := by
    intro c d parcels haccepts
    rw [List.map_append, h, haccepts.stamps, List.length_append, List.range_eq_range',
      List.range_eq_range', ← List.range'_append_1, Nat.zero_add]
  cases hdid with
  | held _ parcels haccepts hpartition => exact hmore haccepts
  | placed _ parcels haccepts hpartition =>
    rw [placeAll_accepted]
    exact hmore haccepts
  | healed c d =>
    rw [heal, placeAll_accepted]
    exact h
  | _ => exact h

theorem Custody.act {w : Wire} (h : Custody w) (a : Act) : Custody (w.act a) :=
  have hdid := w.act_did a
  { stamps := stamps_act hdid h.stamps
    places := places_act hdid h.places
    addressed := fun _ _ hbox => addressed_act hdid h.addressed hbox
    symmetric := symmetric_act hdid h.symmetric
    partitioned := partitioned_act hdid h
    ordered := ordered_act hdid h }

theorem Custody.new : Custody new where
  stamps := rfl
  places := .refl _
  addressed := by simp [Wire.new]
  symmetric := by simp [Wire.new]
  partitioned := by simp [Wire.new]
  ordered _ _ := .refl _

theorem custody_after (acts : List Act) : Custody (new.after acts) :=
  Run.invariant_all act (fun _ a h => h.act a) Wire.new acts Custody.new

/-- What is lost in a step had no mailbox in it, or lay in one that the step takes away. -/
structure Loses (w w' : Wire) : Prop where
  unplaced : ∃ lost, w'.unplaced = w.unplaced ++ lost ∧
    ∀ parcel ∈ lost, w.boxes.lookup parcel.target = none
  removed : ∃ lost, w'.removed = w.removed ++ lost ∧
    ∀ parcel ∈ lost, (∃ box, w.boxes.lookup parcel.target = some box ∧ parcel ∈ box.queue) ∧
      w'.boxes.lookup parcel.target = none

theorem unplaced_act {w w' : Wire} {a : Act} (hdid : Did w a w') :
    ∃ lost, w'.unplaced = w.unplaced ++ lost ∧
      ∀ parcel ∈ lost, w.boxes.lookup parcel.target = none := by
  have hnone : ∃ lost, w.unplaced = w.unplaced ++ lost ∧
      ∀ parcel ∈ lost, w.boxes.lookup parcel.target = none := ⟨[], by simp, by simp⟩
  cases hdid with
  | placed _ parcels haccepts hpartition =>
    exact ⟨_, unplaced_placeAll .., fun parcel hparcel => by
      simpa using (List.mem_filter.mp hparcel).2⟩
  | healed c d =>
    exact ⟨_, unplaced_placeAll .., fun parcel hparcel => by
      simpa using (List.mem_filter.mp hparcel).2⟩
  | _ => exact hnone

theorem removed_act {w w' : Wire} {a : Act} (hdid : Did w a w') (h : Custody w) :
    ∃ lost, w'.removed = w.removed ++ lost ∧
      ∀ parcel ∈ lost, (∃ box, w.boxes.lookup parcel.target = some box ∧ parcel ∈ box.queue) ∧
        w'.boxes.lookup parcel.target = none := by
  have hlies : ∀ {address parcel}, parcel ∈ w.boxes.heldAt (·.queue) address →
      parcel.target = address ∧ ∃ box, w.boxes.lookup address = some box ∧ parcel ∈ box.queue := by
    intro address parcel hparcel
    simp only [Assoc.heldAt] at hparcel
    cases hbox : w.boxes.lookup address with
    | none => simp [hbox] at hparcel
    | some box =>
      simp only [hbox, Option.elim_some] at hparcel
      exact ⟨h.addressed address box hbox parcel hparcel, box, rfl, hparcel⟩
  cases hdid with
  | dropped id handle hhandle =>
    refine ⟨_, rfl, fun parcel hparcel => ?_⟩
    obtain ⟨htarget, hbox⟩ := hlies hparcel
    rw [lookup_drop, htarget]
    exact ⟨hbox, if_pos rfl⟩
  | killed endpoint =>
    refine ⟨_, rfl, fun parcel hparcel => ?_⟩
    obtain ⟨address, haddress, hparcel⟩ := List.mem_flatMap.mp hparcel
    obtain ⟨htarget, hbox⟩ := hlies hparcel
    have hendpoint : address.endpoint = endpoint := by
      obtain ⟨-, -, hendpoint⟩ := Assoc.mem_keysWhere.mp haddress
      exact of_decide_eq_true hendpoint
    rw [lookup_kill, htarget]
    exact ⟨hbox, if_pos hendpoint⟩
  | placed _ parcels haccepts hpartition => exact ⟨[], by simp, by simp⟩
  | parted c d => exact ⟨[], by simp [partition], by simp⟩
  | healed c d => exact ⟨[], by simp [heal], by simp⟩
  | _ => exact ⟨[], by simp, by simp⟩

/-- Whatever happens on the network, and however often an address is registered: an accepted delivery
is in exactly one place, what is held waits for a partition that stands, deliveries from one endpoint
to one address are received in the order in which they were sent, and a delivery is lost only when its
mailbox is missing or goes. -/
theorem one_place_in_order (acts : List Act) :
    (new.after acts).whereabouts.Perm (new.after acts).accepted ∧
      (new.after acts).whereabouts.Nodup ∧
      (∀ parcel ∈ (new.after acts).held,
        (parcel.origin, parcel.target.endpoint) ∈ (new.after acts).partitions) ∧
      (∀ origin target,
        (((new.after acts).received.map (·.2)).filter (travels origin target)).Sublist
          ((new.after acts).accepted.filter (travels origin target))) ∧
      ∀ a, Loses (new.after acts) ((new.after acts).act a) := by
  have h := custody_after acts
  have hdistinct : (new.after acts).accepted.Nodup := by
    refine List.Nodup.of_map (·.stamp) ?_
    rw [h.stamps]
    exact List.nodup_range
  refine ⟨h.places, h.places.nodup_iff.mpr hdistinct, h.partitioned, fun origin target => ?_, fun a => ?_⟩
  · refine List.Sublist.trans ?_ (h.ordered origin target)
    rw [stream, List.append_assoc]
    exact (List.sublist_append_left _ _).filter _
  · have hdid := (new.after acts).act_did a
    exact ⟨unplaced_act hdid, removed_act hdid h⟩

end Kamiroh.Wire
